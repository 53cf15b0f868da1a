import QServ.Game.Modes
import QServ.Game.Protocol
import QServ.Server.State
import QServ.Server.Aiman
import QServ.Server.Privilege
import QServ.Lib.ReverseLoop
import QServ.Server.Disconnect
import QServ.Server.Kick
import QServ.Server.Trykick
import QServ.Server.Rotation
import QServ.Game.Text
import QServ.Server.Auth
import QServ.Server.Messages
import QServ.Server.Session
import QServ.Lib.Run
import QServ.Server.Who
import QServ.Server.Owned
import QServ.Server.Moves
import QServ.Server.Invariants
import QServ.Server.Handlers
import QServ.Server.Grants
import QServ.Server.Simulation
import QServ.Server.Safety
import QServ.Server.Departures
import QServ.Lib.Slices
import QServ.Server.Welcome
import QServ.Server.WorldState
import QServ.Server.Delivery
import QServ.Server.Broadcast
import QServ.Match.Demos
import QServ.Lib.Expiry
import QServ.Server.Bans
import QServ.Lib.Keyed
import QServ.Match.Scores
import QServ.Match.Stats
import QServ.Match.Tokens
import QServ.Match.Bases
import QServ.Match.Ctf
import QServ.Match.Flags
import QServ.Match.Flagruns
import QServ.Match.Arena
import QServ.Match.Frame
import QServ.Match.Intermission
import QServ.Lib.Wire
import QServ.Shared.Fields
import QServ.Lib.DoubleAdd
import QServ.Shared.Tiger
import QServ.Shared.Bigint
import QServ.Shared.Gfield
import QServ.Lib.ShortCurve
import QServ.Shared.Ecjacobian
import QServ.Shared.Challenge
import QServ.Engine.Master
import QServ.Engine.Clients
import QServ.Lib.Reader
import QServ.Shared.Utf8
import QServ.Shared.Utf8stream
import QServ.Lib.Refcount
import QServ.Match.Records
import QServ.Script.Aliases
import QServ.Lib.Replica
import QServ.Match.BaseSync
import QServ.Match.FlagSync
import QServ.Match.Playback
import QServ.Mod.LastClient
import QServ.Lib.Loop
import QServ.Script.Lexer
import QServ.Script.Compiler
import QServ.Script.Layout
import QServ.Script.Compiled
import QServ.Script.Blocks
import QServ.Script.Statements
import QServ.Script.Machine
import QServ.Script.Runs
import QServ.Script.Compilation
import QServ.Server.Votes
import QServ.Match.Shots
import QServ.Server.Autoteam
import QServ.Server.Pbans
import QServ.Server.Balance
import QServ.Masterserver.Input
import QServ.Lib.Ledger
import QServ.Masterserver.Challenges
import QServ.Lib.Pool
import QServ.Masterserver.Invariants
import QServ.Masterserver.Sending
import QServ.Lib.Bulletin
import QServ.Server.Spectators
import QServ.Server.Handover
import QServ.Server.Forcing
import QServ.Server.Spectating
import QServ.Server.Announced
import QServ.Server.Comings
import QServ.Server.Transitions
import QServ.Shared.Digits
import QServ.Shared.Gfdigits
import QServ.Shared.Reduce
import QServ.Lib.BinaryInverse
import QServ.Shared.Invert
import QServ.Shared.Tigerblocks
import QServ.Shared.Utf8pieces
import QServ.Server.Bancmd
import QServ.Lib.Segments
import QServ.Server.Maprotations
import QServ.Masterserver.Ipmasks
import QServ.Lib.Recurrence
import QServ.Shared.Randommt
import QServ.Lib.Rearrange
import QServ.Shared.Quicksort
import QServ.Script.Lists
import QServ.Script.Listwalks
import QServ.Lib.Scanning
import QServ.Script.Listtexts
import QServ.Script.Listops
import QServ.Script.Sortlist
import QServ.Lib.Cstring
import QServ.Script.Conc
import QServ.Shared.Bignums
import QServ.Server.Checkmaps
import QServ.Script.Escapes
import QServ.Script.Blocktexts
import QServ.Lib.Catalogue
import QServ.Masterserver.Registry
import QServ.Lib.Sweep
import QServ.Match.Expiredtokens
import QServ.Match.Items
import QServ.Match.Timedevents
import QServ.Shared.Shifts
import QServ.Lib.Custody
import QServ.Script.Variables
import QServ.Script.Overrides
import QServ.Match.Damage
import QServ.Match.Events
