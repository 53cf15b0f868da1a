import Mathlib.Data.Int.ConditionallyCompleteOrder
import Mathlib.Logic.Function.Basic
import Mathlib.Order.WithBot
import QServ.Server.Session

/-!
# Text commands and the copy of their sender

`QServ::handleTextCommands` keeps the client that typed a command by value, and `getlastCI` gives
out copies of that.  A `clientinfo` owns its pending events, its clipboard, its auth challenge and
the reason of the kick it asks for; a copy has the same addresses, and its destructor releases what
is there.

* `handleTextCommands`: the tokens, the look-up, the privilege and the callbacks.
* `State.getlastCI`: a copy is made, and destroyed again.
* `handled_iff`: the game is left as the command's own action leaves it, exactly if the command does
  not look at its sender or the sender owns nothing.

What the commands say is left out, since no message owns anything.
-/

namespace QServ.TextCommand

/-! ## What clients own -/

/-- What stands at an address: a `gameevent`, a packet with its `referenceCount`, the answer to a
challenge, or the text of a reason. -/
inductive Resource where
  | event
  | packet (referenceCount : Int)
  | challenge
  | reason
  deriving DecidableEq, Repr

/-- What was allocated and not released. -/
abbrev Heap := Nat → Option Resource

/-- The members of `clientinfo` that its destructor releases. -/
structure Owned where
  events : List Nat := []
  clipboard : Option Nat := none
  authchallenge : Option Nat := none
  authkickreason : Option Nat := none
  deriving DecidableEq, Repr

/-- `delete`, `freechallenge`, `delete[]`, and one holder less of a packet, which is destroyed when
there is none. -/
def release (heap : Heap) (a : Nat) : Except Fault Heap :=
  match heap a with
  | none => .error .useAfterFree
  | some (.packet referenceCount) =>
    .ok (Function.update heap a
      (if referenceCount - 1 ≤ 0 then none else some (.packet (referenceCount - 1))))
  | some _ => .ok (Function.update heap a none)

namespace Owned

/-- The order of `~clientinfo()`: `events.deletecontents()`, `cleanclipboard()`, `cleanauth()`. -/
def addresses (o : Owned) : List Nat :=
  o.events.reverse ++ (o.clipboard.toList ++ (o.authchallenge.toList ++ o.authkickreason.toList))

theorem addresses_eq_nil {o : Owned} : o.addresses = [] ↔ o = {} := by
  obtain ⟨events, clipboard, authchallenge, authkickreason⟩ := o
  simp [addresses, Option.toList_eq_nil_iff]

/-- `~clientinfo()`. -/
def destroy (o : Owned) (heap : Heap) : Except Fault Heap := o.addresses.foldlM release heap

end Owned

/-! ## The commands -/

/-- The game as the commands find it: the session, what each client owns, `interm` and
`ircignore`. -/
structure Game where
  server : Server
  owned : Int → Owned
  heap : Heap
  interm : Int := 0
  ircignore : Bool := false

/-- With what `QServ` keeps of the command: `m_sender`, `m_lastCI`, `m_fulltext` and `m_lastSA`. -/
structure State where
  game : Game
  sender : Int
  lastCI : ClientInfo × Owned
  fulltext : String := ""
  lastSA : Bool := false

/-- `getlastCI()`, in an expression that looks at the copy and ends. -/
def State.getlastCI (s : State) : Except Fault State := do
  let heap ← s.lastCI.2.destroy s.game.heap
  return { s with game := { s.game with heap } }

/-- The callbacks that look at the sender, and the others. -/
inductive Callback where
  | help_cmd
  | me_cmd
  | whois_cmd
  | callops_cmd
  | forceintermission_cmd
  | other_cmd
  deriving DecidableEq, Repr

/-- The name, the privilege, the callback and the number of arguments of `ncommand`. -/
structure SCommand where
  name : String
  priv : Priv
  callback : Callback
  args : Nat
  deriving DecidableEq, Repr

/-- `initCmds()`. -/
def commands : List SCommand := [
  ⟨"help", .none, .help_cmd, 1⟩,
  ⟨"me", .none, .me_cmd, 0⟩,
  ⟨"stats", .none, .other_cmd, 1⟩,
  ⟨"localtime", .admin, .other_cmd, 0⟩,
  ⟨"ver", .none, .other_cmd, 0⟩,
  ⟨"uptime", .none, .other_cmd, 0⟩,
  ⟨"invadmin", .none, .other_cmd, 1⟩,
  ⟨"cheater", .none, .other_cmd, 1⟩,
  ⟨"whois", .none, .whois_cmd, 1⟩,
  ⟨"time", .master, .other_cmd, 1⟩,
  ⟨"pm", .none, .other_cmd, 2⟩,
  ⟨"callops", .none, .callops_cmd, 0⟩,
  ⟨"mapsucks", .none, .other_cmd, 0⟩,
  ⟨"forgive", .none, .other_cmd, 1⟩,
  ⟨"intermission", .master, .forceintermission_cmd, 0⟩,
  ⟨"echo", .master, .other_cmd, 1⟩,
  ⟨"sendprivs", .master, .other_cmd, 1⟩,
  ⟨"bunny", .admin, .other_cmd, 0⟩,
  ⟨"revokepriv", .admin, .other_cmd, 1⟩,
  ⟨"forcespectator", .admin, .other_cmd, 1⟩,
  ⟨"unspectate", .admin, .other_cmd, 1⟩,
  ⟨"mute", .admin, .other_cmd, 1⟩,
  ⟨"unmute", .admin, .other_cmd, 1⟩,
  ⟨"editmute", .admin, .other_cmd, 1⟩,
  ⟨"uneditmute", .admin, .other_cmd, 1⟩,
  ⟨"togglelockspec", .admin, .other_cmd, 1⟩,
  ⟨"ban", .admin, .other_cmd, 2⟩,
  ⟨"pban", .admin, .other_cmd, 1⟩,
  ⟨"clearbans", .admin, .other_cmd, 0⟩,
  ⟨"teampersist", .master, .other_cmd, 1⟩,
  ⟨"allowmaster", .admin, .other_cmd, 1⟩,
  ⟨"kill", .admin, .other_cmd, 1⟩,
  ⟨"rename", .admin, .other_cmd, 2⟩,
  ⟨"addkey", .admin, .other_cmd, 4⟩,
  ⟨"listbans", .admin, .other_cmd, 0⟩,
  ⟨"reloadconfig", .admin, .other_cmd, 0⟩,
  ⟨"unban", .admin, .other_cmd, 1⟩,
  ⟨"syncauth", .admin, .other_cmd, 0⟩,
  ⟨"cw", .master, .other_cmd, 2⟩,
  ⟨"duel", .master, .other_cmd, 2⟩,
  ⟨"icgl", .admin, .other_cmd, 1⟩,
  ⟨"listmaps", .admin, .other_cmd, 0⟩,
  ⟨"savemap", .admin, .other_cmd, 0⟩,
  ⟨"autosendmap", .master, .other_cmd, 1⟩,
  ⟨"loadmap", .admin, .other_cmd, 1⟩,
  ⟨"flagrun", .none, .other_cmd, 0⟩,
  ⟨"leaderboard", .none, .other_cmd, 0⟩,
  ⟨"allstats", .none, .other_cmd, 0⟩,
  ⟨"listpbans", .admin, .other_cmd, 0⟩,
  ⟨"autobotbalance", .master, .other_cmd, 1⟩]

/-- What `checkoLang` and the commands do that do not look at the sender: anything, to the game. -/
structure Actions where
  checkoLang : Int → String → Game → Game
  other_cmd : String → List String → State → Game

section Callbacks

variable (acts : Actions) (args : List String) (s : State)

/-- `help_cmd`. -/
def help_cmd : Except Fault State :=
  if s.lastSA then
    let command := "#" ++ args.getD 1 ""
    if commands.any fun c => "#" ++ c.name = String.ofList (command.toList.take 63) then
      s.getlastCI
    else .ok s
  else .ok s

/-- `me_cmd`. -/
def me_cmd : Except Fault State :=
  if s.fulltext ≠ "" then
    { s with game := acts.checkoLang s.sender s.fulltext s.game }.getlastCI
  else .ok s

/-- `whois_cmd`. -/
def whois_cmd : Except Fault State :=
  if s.lastSA then
    match s.game.server.target s.sender none (args.getD 1 "") with
    | .error _ => .ok s
    | .ok _ => s.getlastCI
  else .ok s

/-- The operators `callops_cmd` alerts in the game. -/
def State.operators : List Int :=
  s.game.server.clients.filter fun cn =>
    match s.game.server.info cn with
    | none => false
    | some c => (c.privilege = .admin || c.privilege = .master) && c.connected &&
        c.clientnum ≠ s.sender

/-- `callops_cmd`: one look for the channel or the console, and one for each operator. -/
def callops_cmd : Except Fault State := do
  let s ← s.getlastCI
  s.operators.foldlM (fun s _ => s.getlastCI) s

/-- `forceintermission_cmd`: one look for the message, one for the channel. -/
def forceintermission_cmd : Except Fault State :=
  if s.game.server.gamemode = 1 ∨ 0 < s.game.interm then .ok s
  else do
    let server := { s.game.server with gamelimit := s.game.server.gamemillis }
    let s ← { s with game := { s.game with server } }.getlastCI
    s.getlastCI

/-- `exeCommand(command, args, argc)`. -/
def exeCommand (command : SCommand) : Except Fault State :=
  match command.callback with
  | .help_cmd => help_cmd args s
  | .me_cmd => me_cmd acts s
  | .whois_cmd => whois_cmd args s
  | .callops_cmd => callops_cmd s
  | .forceintermission_cmd => forceintermission_cmd s
  | .other_cmd => .ok { s with game := acts.other_cmd command.name args s }

end Callbacks

/-- The tokens between blanks, twenty at most. -/
def strtok (text : String) : List String :=
  (((text.toList.splitOn ' ').filter (· ≠ [])).take 20).map String.ofList

/-- `getCommand`. -/
def getCommand (args : List String) : Option SCommand :=
  commands.find? fun c => some ("#" ++ c.name) = args.head?

/-- `handleTextCommands(ci, text)` for the client of this number. -/
def handleTextCommands (acts : Actions) (s : State) (cn : Int) (text : String) :
    Except Fault State :=
  match s.game.server.info cn with
  | none => .ok s
  | some ci =>
    if text = "" then .ok s
    else
      let ftb := String.ofList (text.toList.take 1023)
      let s := { s with sender := ci.clientnum, lastCI := (ci, s.game.owned cn), fulltext := ftb }
      if text.toList.head? = some '#' then
        let args := strtok ftb
        match getCommand args with
        | none => .ok s
        | some command =>
          let s := { s with
            fulltext := String.ofList (ftb.toList.drop ((args.getD 0 "").length + 1)) }
          if command.priv ≤ ci.privilege then
            let fargs := 0 < command.args → args.length = command.args + 1
            exeCommand acts args { s with lastSA := decide fargs } command
          else .ok s
      else .ok s

/-! ## What a command does on its own -/

/-- The command that is executed, with its arguments, and the state it begins in. -/
def issued (s : State) (cn : Int) (text : String) : Option (SCommand × List String × State) :=
  let ftb := String.ofList (text.toList.take 1023)
  let args := strtok ftb
  match s.game.server.info cn, getCommand args with
  | some ci, some command =>
    if text.toList.head? = some '#' ∧ command.priv ≤ ci.privilege then
      some (command, args,
        { game := s.game
          sender := ci.clientnum
          lastCI := (ci, s.game.owned cn)
          fulltext := String.ofList (ftb.toList.drop ((args.getD 0 "").length + 1))
          lastSA := decide (0 < command.args → args.length = command.args + 1) })
    else none
  | _, _ => none

/-- What a command does to the game, on its own. -/
def Callback.own (acts : Actions) (name : String) (args : List String) (s : State) :
    Callback → Game
  | .me_cmd =>
    if s.fulltext ≠ "" then acts.checkoLang s.sender s.fulltext s.game else s.game
  | .forceintermission_cmd =>
    if s.game.server.gamemode = 1 ∨ 0 < s.game.interm then s.game
    else { s.game with
      server := { s.game.server with gamelimit := s.game.server.gamemillis } }
  | .other_cmd => acts.other_cmd name args s
  | _ => s.game

/-- It looks at its sender. -/
def Callback.Looks (args : List String) (s : State) : Callback → Prop
  | .help_cmd => s.lastSA ∧ ∃ c ∈ commands,
      "#" ++ c.name = String.ofList (("#" ++ args.getD 1 "").toList.take 63)
  | .me_cmd => s.fulltext ≠ ""
  | .whois_cmd => s.lastSA ∧ ∃ c, s.game.server.target s.sender none (args.getD 1 "") = .ok c
  | .callops_cmd => True
  | .forceintermission_cmd => ¬(s.game.server.gamemode = 1 ∨ 0 < s.game.interm)
  | .other_cmd => False

/-- What the command line does to the game, on its own. -/
def own (acts : Actions) (s : State) (cn : Int) (text : String) : Game :=
  match issued s cn text with
  | none => s.game
  | some (c, args, t) => c.callback.own acts c.name args t

/-- The command line looks at its sender. -/
def Looks (s : State) (cn : Int) (text : String) : Prop :=
  ∃ c args t, issued s cn text = some (c, args, t) ∧ c.callback.Looks args t

/-! ## Copies -/

/-- What holds a resource: the holders of a packet; nothing that is not there. -/
def weight : Option Resource → WithBot Int
  | none => ⊥
  | some (.packet referenceCount) => referenceCount
  | some _ => (0 : Int)

/-- What the heap holds. -/
def load (heap : Heap) : Nat → WithBot Int := fun a => weight (heap a)

theorem load_update_lt {heap : Heap} {a : Nat} {r : Option Resource}
    (h : weight r < weight (heap a)) : load (Function.update heap a r) < load heap := by
  refine Pi.lt_def.mpr ⟨?_, a, ?_⟩
  · intro b
    by_cases hb : b = a
    · subst hb
      simpa [load] using h.le
    · simp [load, hb]
  · simpa [load] using h

/-- **To release something** leaves less than there was. -/
theorem load_release {heap heap' : Heap} {a : Nat} (h : release heap a = .ok heap') :
    load heap' < load heap := by
  unfold release at h
  split at h
  · cases h
  · next n hn =>
    obtain rfl := Except.ok.inj h
    apply load_update_lt
    rw [hn]
    split
    · exact WithBot.bot_lt_coe n
    · exact WithBot.coe_lt_coe.mpr (by omega)
  · next r hr hn =>
    obtain rfl := Except.ok.inj h
    apply load_update_lt
    rw [hn]
    cases r with
    | packet n => exact absurd rfl (hr n)
    | event | challenge | reason => exact WithBot.bot_lt_coe 0

theorem load_releases (l : List Nat) : ∀ {heap heap' : Heap},
    l.foldlM release heap = .ok heap' → load heap' ≤ load heap := by
  induction l with
  | nil =>
    intro heap heap' h
    obtain rfl := Except.ok.inj h
    exact le_rfl
  | cons a l ih =>
    intro heap heap' h
    rw [List.foldlM_cons] at h
    cases hr : release heap a with
    | error e =>
      rw [hr] at h
      cases h
    | ok heap₁ =>
      rw [hr] at h
      exact (ih h).trans (load_release hr).le

/-- **A copy that is destroyed** takes with it what it has the address of. -/
theorem load_destroy {o : Owned} {heap heap' : Heap} (ho : o.addresses ≠ [])
    (h : o.destroy heap = .ok heap') : load heap' < load heap := by
  obtain ⟨a, l, hl⟩ := List.exists_cons_of_ne_nil ho
  rw [Owned.destroy, hl, List.foldlM_cons] at h
  cases hr : release heap a with
  | error e =>
    rw [hr] at h
    cases h
  | ok heap₁ =>
    rw [hr] at h
    exact (load_releases l h).trans_lt (load_release hr)

namespace State

variable {s t : State}

theorem getlastCI_ok : s.getlastCI = .ok t ↔
    ∃ heap, s.lastCI.2.destroy s.game.heap = .ok heap ∧
      t = { s with game := { s.game with heap } } := by
  unfold getlastCI
  cases s.lastCI.2.destroy s.game.heap with
  | error e => exact ⟨nofun, fun ⟨_, h, _⟩ => nomatch h⟩
  | ok heap =>
    constructor
    · intro h
      exact ⟨heap, rfl, (Except.ok.inj h).symm⟩
    · rintro ⟨heap', h, rfl⟩
      obtain rfl := Except.ok.inj h
      rfl

theorem getlastCI_of_nil (h : s.lastCI.2.addresses = []) : s.getlastCI = .ok s := by
  rw [getlastCI, Owned.destroy, h]
  rfl

theorem load_getlastCI (h : s.getlastCI = .ok t) : load t.game.heap ≤ load s.game.heap := by
  obtain ⟨heap, hd, rfl⟩ := getlastCI_ok.mp h
  exact load_releases _ hd

theorem load_getlastCI_lt (hs : s.lastCI.2.addresses ≠ []) (h : s.getlastCI = .ok t) :
    load t.game.heap < load s.game.heap := by
  obtain ⟨heap, hd, rfl⟩ := getlastCI_ok.mp h
  exact load_destroy hs hd

/-- Nothing but looks at the sender. -/
structure Onlook (k : State → Except Fault State) : Prop where
  same : ∀ {s}, s.lastCI.2.addresses = [] → k s = .ok s
  less : ∀ {s t}, k s = .ok t → load t.game.heap ≤ load s.game.heap

theorem Onlook.getlastCI : Onlook State.getlastCI := ⟨getlastCI_of_nil, load_getlastCI⟩

theorem Onlook.pure : Onlook .ok :=
  ⟨fun _ => rfl, fun h => by rw [Except.ok.inj h]⟩

/-- As many looks as a list is long. -/
theorem onlook_foldlM {α : Type} (l : List α) :
    Onlook fun s => l.foldlM (fun s _ => s.getlastCI) s := by
  induction l with
  | nil => exact Onlook.pure
  | cons a l ih =>
    constructor
    · intro s hs
      rw [List.foldlM_cons, getlastCI_of_nil hs]
      exact ih.same hs
    · intro s t h
      rw [List.foldlM_cons] at h
      cases hs : s.getlastCI with
      | error e =>
        rw [hs] at h
        cases h
      | ok u =>
        rw [hs] at h
        exact (ih.less h).trans (load_getlastCI hs)

/-- **A look** leaves the game as it was, if and only if the sender owned nothing, whatever looks
follow. -/
theorem look_iff {k : State → Except Fault State} (hk : Onlook k) (s : State) :
    (∃ t, (s.getlastCI >>= k) = .ok t ∧ t.game = s.game) ↔ s.lastCI.2.addresses = [] := by
  constructor
  · rintro ⟨t, ht, hgame⟩
    by_contra hs
    cases hlook : s.getlastCI with
    | error e =>
      rw [hlook] at ht
      cases ht
    | ok u =>
      rw [hlook] at ht
      have hlt : load t.game.heap < load s.game.heap :=
        (hk.less ht).trans_lt (load_getlastCI_lt hs hlook)
      rw [hgame] at hlt
      exact lt_irrefl _ hlt
  · intro hs
    rw [getlastCI_of_nil hs]
    exact ⟨s, hk.same hs, rfl⟩

theorem one_look_iff (s : State) :
    (∃ t, s.getlastCI = .ok t ∧ t.game = s.game) ↔ s.lastCI.2.addresses = [] := by
  have h := look_iff Onlook.pure s
  rwa [show (s.getlastCI >>= Except.ok) = s.getlastCI from bind_pure _] at h

end State

/-! ## Command lines -/

/-- **A callback** leaves the game as its own action does, if and only if it does not look at the
sender or the copy owned nothing. -/
theorem exeCommand_iff (acts : Actions) (args : List String) (s : State) (c : SCommand) :
    (∃ t, exeCommand acts args s c = .ok t ∧ t.game = c.callback.own acts c.name args s) ↔
      (c.callback.Looks args s → s.lastCI.2.addresses = []) := by
  obtain ⟨name, priv, callback, n⟩ := c
  have hstays : ∃ t, (.ok s : Except Fault State) = .ok t ∧ t.game = s.game := ⟨s, rfl, rfl⟩
  cases callback with
  | help_cmd =>
    simp only [exeCommand, help_cmd, Callback.own, Callback.Looks, List.any_eq_true,
      decide_eq_true_eq]
    by_cases hsa : s.lastSA = true
    · rw [if_pos hsa]
      split
      · next hfound => rw [s.one_look_iff, forall_prop_of_true ⟨hsa, hfound⟩]
      · next hfound => exact iff_of_true hstays fun hlooks => absurd hlooks.2 hfound
    · rw [if_neg hsa]
      exact iff_of_true hstays fun hlooks => absurd hlooks.1 hsa
  | me_cmd =>
    simp only [exeCommand, me_cmd, Callback.own, Callback.Looks]
    by_cases htext : s.fulltext ≠ ""
    · rw [if_pos htext, if_pos htext, forall_prop_of_true htext]
      exact State.one_look_iff { s with game := acts.checkoLang s.sender s.fulltext s.game }
    · rw [if_neg htext, if_neg htext]
      exact iff_of_true hstays fun hlooks => absurd hlooks htext
  | whois_cmd =>
    simp only [exeCommand, whois_cmd, Callback.own, Callback.Looks]
    by_cases hsa : s.lastSA = true
    · rw [if_pos hsa]
      cases htarget : s.game.server.target s.sender none (args.getD 1 "") with
      | error e => exact iff_of_true hstays fun ⟨_, _, hlooks⟩ => nomatch hlooks
      | ok ci =>
        rw [forall_prop_of_true ⟨hsa, ci, rfl⟩]
        exact s.one_look_iff
    · rw [if_neg hsa]
      exact iff_of_true hstays fun hlooks => absurd hlooks.1 hsa
  | callops_cmd =>
    have hops : State.Onlook fun s => s.operators.foldlM (fun s _ => s.getlastCI) s :=
      ⟨fun {u} hu => (State.onlook_foldlM u.operators).same hu,
        fun {u v} h => (State.onlook_foldlM u.operators).less h⟩
    simp only [exeCommand, Callback.own, Callback.Looks, true_imp_iff]
    exact State.look_iff hops s
  | forceintermission_cmd =>
    simp only [exeCommand, forceintermission_cmd, Callback.own, Callback.Looks]
    by_cases hover : s.game.server.gamemode = 1 ∨ 0 < s.game.interm
    · rw [if_pos hover, if_pos hover]
      exact iff_of_true hstays fun hlooks => absurd hover hlooks
    · rw [if_neg hover, if_neg hover, forall_prop_of_true hover]
      exact State.look_iff State.Onlook.getlastCI { s with game := { s.game with
        server := { s.game.server with gamelimit := s.game.server.gamemillis } } }
  | other_cmd => exact iff_of_true ⟨_, rfl, rfl⟩ fun hlooks => hlooks.elim

/-- **A command that is issued** is executed, with a copy of the client that typed it. -/
theorem handled_of_issued {s t : State} {cn : Int} {text : String} {c : SCommand}
    {args : List String} (h : issued s cn text = some (c, args, t)) :
    t.lastCI.2 = s.game.owned cn ∧
      ∀ acts, handleTextCommands acts s cn text = exeCommand acts args t c := by
  unfold issued at h
  cases hci : s.game.server.info cn with
  | none => simp [hci] at h
  | some ci =>
    cases hcommand : getCommand (strtok (String.ofList (text.toList.take 1023))) with
    | none => simp [hci, hcommand] at h
    | some command =>
      by_cases hboth : text.toList.head? = some '#' ∧ command.priv ≤ ci.privilege
      · have htext : text ≠ "" := by
          rintro rfl
          simp at hboth
        simp only [hci, hcommand, if_pos hboth] at h
        obtain ⟨rfl, rfl, rfl⟩ := by simpa only [Option.some.injEq, Prod.mk.injEq] using h
        refine ⟨rfl, fun acts => ?_⟩
        simp only [handleTextCommands, hci, hcommand, if_neg htext, if_pos hboth.1, if_pos hboth.2]
      · simp [hci, hcommand, hboth] at h

/-- What is no command that may be issued is only noted. -/
theorem handled_of_none {s : State} {cn : Int} {text : String} (h : issued s cn text = none)
    (acts : Actions) : ∃ t, handleTextCommands acts s cn text = .ok t ∧ t.game = s.game := by
  unfold issued at h
  unfold handleTextCommands
  cases hci : s.game.server.info cn with
  | none => exact ⟨s, rfl, rfl⟩
  | some ci =>
    by_cases htext : text = ""
    · exact ⟨s, if_pos htext, rfl⟩
    · simp only [if_neg htext]
      by_cases hhead : text.toList.head? = some '#'
      · simp only [if_pos hhead]
        cases hcommand : getCommand (strtok (String.ofList (text.toList.take 1023))) with
        | none => exact ⟨_, rfl, rfl⟩
        | some command =>
          have hpriv : ¬command.priv ≤ ci.privilege := by
            intro hle
            simp [hci, hcommand, hhead, hle] at h
          simp only [if_neg hpriv]
          exact ⟨_, rfl, rfl⟩
      · simp only [if_neg hhead]
        exact ⟨_, rfl, rfl⟩

/-- **Text commands**: whatever is typed, in whatever state, the game is left as the command's own
action leaves it, with all that its clients own, if and only if the command does not look at its
sender or the sender owned nothing. -/
theorem handled_iff (acts : Actions) (s : State) (cn : Int) (text : String) :
    (∃ t, handleTextCommands acts s cn text = .ok t ∧ t.game = own acts s cn text) ↔
      (Looks s cn text → s.game.owned cn = {}) := by
  cases hissued : issued s cn text with
  | none =>
    have hlooks : ¬Looks s cn text := by
      simp [Looks, hissued]
    rw [own, hissued]
    exact iff_of_true (handled_of_none hissued acts) fun h => absurd h hlooks
  | some x =>
    obtain ⟨c, args, t⟩ := x
    have hlooks : Looks s cn text ↔ c.callback.Looks args t := by
      simp [Looks, hissued]
    obtain ⟨hcopy, hhandled⟩ := handled_of_issued hissued
    rw [hlooks, own, hissued, hhandled, ← Owned.addresses_eq_nil, ← hcopy]
    exact exeCommand_iff acts args t c

/-- Client 0 has a shot that waits for its time. -/
def sampleState : State where
  game :=
    { server := { Server.initial Server.sampleConfig with
        info := fun n => if n = 0 then
            some { clientnum := 0, ownernum := 0, name := "a", connected := true }
          else none
        clients := [0] }
      owned := fun n => if n = 0 then { events := [7] } else {}
      heap := fun a => if a = 7 then some .event else none }
  sender := -1
  lastCI := ({ clientnum := -1, ownernum := -1 }, {})

/-- Nothing else happens. -/
def idle : Actions where
  checkoLang := fun _ _ game => game
  other_cmd := fun _ _ s => s.game

/-- A message of `#me` destroys the shot, which still is in the queue of its client. -/
theorem me_destroys_event :
    (handleTextCommands idle sampleState 0 "#me hi").toOption.map
        (fun t => ((t.game.owned 0).events, t.game.heap 7)) = some ([7], none) ∧
      ((own idle sampleState 0 "#me hi").owned 0).events = [7] ∧
      (own idle sampleState 0 "#me hi").heap 7 = some .event := by
  decide +kernel

end QServ.TextCommand
