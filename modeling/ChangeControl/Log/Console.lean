import ChangeControl.Log.Record
/-!
Where log lines go.

There is one threshold for all loggers, and at most one stream that lines are written to.
Configuring replaces the stream first and sets the threshold afterwards, so that an unknown level
still redirects the lines.

Main definitions:

* `Log.Console` — the threshold and the stream;
* `Console.configure`, `Console.Misconfiguration` — another stream and another threshold;
* `Console.accepts`, `Console.log` — the lines that a message leads to;
* `Console.Refusal` — why a message is refused.

Main statements:

* `Console.stream_configure` — the stream is replaced in any case.
-/

set_option autoImplicit false

namespace ChangeControl.Log

open Calendar (Timestamp)

/-- The streams that lines can go to. -/
inductive Stream
  | output | other
deriving DecidableEq, Repr

/-- How log lines are handled. -/
structure Console where
  threshold : Int
  stream : Option Stream
deriving DecidableEq, Repr

namespace Console

/-- Before any configuration, warnings count and go nowhere. -/
def start : Console := ⟨warning, none⟩

/-- Why the threshold is not set. -/
inductive Misconfiguration
  /-- The level is given by something other than a text. -/
  | notText
  | unknownLevel (name : String)
deriving DecidableEq, Repr

/-- One sentence on the fault. -/
def Misconfiguration.message : Misconfiguration → String
  | notText => ""
  | unknownLevel name => Log.unknownLevel name

/-- The threshold that data names, in capitals or not. -/
def thresholdOf : Json → Except Misconfiguration Int
  | .str text =>
    match levelOfName? (Text.upper text) with
    | some threshold => .ok threshold
    | none => .error (.unknownLevel (Text.upper text))
  | .null | .bool _ | .int _ | .real _ | .arr _ | .obj _ => .error .notText

/-- The console with another stream and the threshold with this name; without such a level, the
console with another stream, and why. -/
def configure (c : Console) (level : Json) (stream : Stream) :
    Console × Option Misconfiguration :=
  match thresholdOf level with
  | .ok threshold => (⟨threshold, some stream⟩, none)
  | .error fault => (⟨c.threshold, some stream⟩, some fault)

theorem stream_configure (c : Console) (level : Json) (stream : Stream) :
    (c.configure level stream).1.stream = some stream := by
  simp only [configure]
  split <;> rfl

/-- A message of this level counts.  Level zero and below never does. -/
def accepts (c : Console) (level : Int) : Bool := decide (0 < level) && decide (c.threshold ≤ level)

/-! ### Messages -/

/-- A message for the log, as it is asked for. -/
structure Message where
  logger : Json
  level : Json
  pattern : Json
  args : List Json
  context : List (String × Json)
deriving Repr

/-- Why a message is refused. -/
inductive Refusal
  /-- The logger is named by something other than a text. -/
  | logger
  /-- The level is no whole number. -/
  | level
  /-- The context would overwrite an attribute. -/
  | overwritten (name : String)
deriving DecidableEq, Repr

/-- One sentence on the refusal. -/
def Refusal.message : Refusal → String
  | logger | level => ""
  | overwritten name => overwrites name

/-- The name of a logger; without one it is that of the outermost logger. -/
def loggerName (logger : Json) : Except Refusal String :=
  if logger.isTruthy then
    match logger with
    | .str name => .ok name
    | _ => .error .logger
  else .ok "root"

/-- The record of a message from a logger with a name, at a moment. -/
def Message.record (now : Timestamp) (m : Message) (logger : String) : Record :=
  Record.setAll
    (.ofMessage (.ok now) (.str logger) ((levelShown? m.level).getD .null) m.pattern m.args)
    (m.context.map fun a => (a.1, .data a.2))

/-- The stream and the line that a message leads to, if it counts.  A record without a line is
passed over. -/
def log (c : Console) (now : Timestamp) (m : Message) :
    Except Refusal (Option (Stream × String)) :=
  match loggerName m.logger, levelNumber? m.level with
  | .error e, _ => .error e
  | .ok _, none => .error .level
  | .ok logger, some level =>
    if c.accepts level then
      match m.context.find? fun a => standardAttributes.contains a.1 with
      | some a => .error (.overwritten a.1)
      | none =>
        match c.stream, (m.record now logger).line with
        | some stream, .ok line => .ok (some (stream, line))
        | _, _ => .ok none
    else .ok none

end Console

end ChangeControl.Log
