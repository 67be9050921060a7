import ChangeControl.Calendar.Timestamp
import ChangeControl.Json.Printer
import ChangeControl.Log.Level
import ChangeControl.Log.Pattern
/-!
Log lines.

A line is a JSON object on one line: the moment, the level, the logger, the message, and where there
is any, the context under `extra` and the exception.

Main definitions:

* `Log.Event`, `Event.line` — something that happened, told in a fixed message and a context;
* `Log.momentOf` — a moment by the seconds since 1970;
* `Log.Trace`, `Trace.text?` — what a record knows about an exception;
* `Log.Record`, `Record.line` — a record with a message to fill, attributes and an exception;
* `Log.Record.set` — setting an attribute: the context is what is not part of every record;
* `Log.LineFault` — why a record has no line.

Main statements:

* `Log.Record.line_ofEvent` — an event is a record with nothing to fill.
-/

set_option autoImplicit false

namespace ChangeControl.Log

open Calendar (Timestamp)
open Decimal (Binary64)

/-- Something that happened. -/
structure Event where
  logger : String
  level : Int
  message : String
  context : List (String × Json)
deriving Repr

/-- A field that is left out when there is nothing in it. -/
def contextField (context : List (String × Json)) : List (String × Json) :=
  if context.isEmpty then [] else [("extra", .obj context)]

/-- The line of a record, given its parts. -/
def lineOf (time : Timestamp) (level logger : Json) (message : String)
    (context : List (String × Json)) (exception : Option String) : String :=
  (Json.obj ([("timestamp", .str time.text), ("level", level), ("logger", logger),
      ("message", .str message)] ++ contextField context ++
      exception.toList.map fun text => ("exception", .str text))).print .line

/-- The line of an event. -/
def Event.line (now : Timestamp) (e : Event) : String :=
  lineOf now (.str (levelName e.level)) (.str e.logger) e.message e.context none

/-- The lines of the events that are at least as important as `threshold`. -/
def linesOf (threshold : Int) (now : Timestamp) (events : List Event) : List String :=
  (events.filter fun e => decide (threshold ≤ e.level)).map (Event.line now)

/-! ### Moments -/

/-- Why a number of seconds leads to no moment. -/
inductive MomentFault
  | notNumber
  | undefined
  /-- The number does not fit into 64 bits. -/
  | tooLarge
  /-- The number of the year does not fit into 32 bits. -/
  | beyondYears
  | calendar (fault : Timestamp.Fault)
deriving DecidableEq, Repr

/-- One sentence on the fault. -/
def MomentFault.message : MomentFault → String
  | notNumber | tooLarge | beyondYears => ""
  | undefined => "Invalid value NaN (not a number)"
  | calendar fault => fault.message

/-- A fraction as microseconds, the product being rounded as a 64-bit binary number first. -/
def fractionMicroseconds (num den : Nat) : Nat :=
  match Binary64.ofRatio false (num * 1000000) den with
  | .finite _ mantissa exponent =>
    let (n, d) := Binary64.ratio mantissa exponent
    Decimal.divideEven n d
  | _ => 0

/-- The microseconds in a number of seconds. -/
def microsecondsOf : Json → Except MomentFault Int
  | .int n => .ok (n * 1000000)
  | .bool b => .ok (if b then 1000000 else 0)
  | .real (.finite negative mantissa exponent) =>
    let (num, den) := Binary64.ratio mantissa exponent
    let total : Int := (num / den * 1000000 + fractionMicroseconds (num % den) den : Nat)
    .ok (if negative then -total else total)
  | .real (.infinite _) => .error .tooLarge
  | .real .undefined => .error .undefined
  | .null | .str _ | .arr _ | .obj _ => .error .notNumber

/-- The moment of universal time this many seconds after the start of 1970. -/
def momentOf (seconds : Json) : Except MomentFault Timestamp :=
  match microsecondsOf seconds with
  | .error fault => .error fault
  | .ok n =>
    let whole := n.fdiv 1000000
    if whole < -9223372036854775808 ∨ 9223372036854775807 < whole then .error .tooLarge
    else if whole < -67768040609740800 ∨ 67768036191676799 < whole then .error .beyondYears
    else
      match Timestamp.ofEpoch n with
      | .error fault => .error (.calendar fault)
      | .ok t => .ok t

/-! ### Exceptions -/

/-- An exception by its type and its message. -/
structure Exception where
  type : String
  message : Json
deriving Repr

/-- The message of an exception as it is shown: that of a missing key is in quotes. -/
def Exception.shown (e : Exception) : String :=
  if e.type = "KeyError" then e.message.inspect else e.message.display

/-- An exception in a line. -/
def Exception.text (e : Exception) : String :=
  if e.shown.isEmpty then e.type else e.type ++ ": " ++ e.shown

/-- What a record knows about an exception: nothing, the exception, or an item in its place. -/
inductive Trace
  | none
  | exception (e : Exception)
  | item (i : Item)

/-- Why an item tells no exception. -/
inductive TraceFault
  /-- It has no parts. -/
  | noParts
  /-- It has less than three of them. -/
  | tooShort
  /-- It has parts by name only. -/
  | named
  /-- Its parts are not those of an exception. -/
  | foreign
deriving DecidableEq, Repr

/-- One sentence on the fault; parts by name only lack the third one. -/
def TraceFault.message : TraceFault → String
  | noParts | tooShort | foreign => ""
  | named => "2"

/-- The text of an exception that is told by data: a type, the exception and the place where it
arose.  Only that there was none can be told in this way. -/
def textOfParts : List Json → Except TraceFault String
  | _ :: .null :: .null :: _ => .ok "NoneType: None"
  | _ :: _ :: _ :: _ => .error .foreign
  | _ => .error .tooShort

/-- The text of the exception that an item tells. -/
def Item.exceptionText : Item → Except TraceFault String
  | .data (.arr parts) => textOfParts parts
  | .data (.str s) | .value (.text s) =>
    if s.toList.length < 3 then .error .tooShort else .error .foreign
  | .data (.obj _) => .error .named
  | .value (.list vs) => if vs.length < 3 then .error .tooShort else .error .foreign
  | .data .null | .data (.bool _) | .data (.int _) | .data (.real _) | .value (.task _)
  | .value (.commit _) => .error .noParts

/-- The text of the exception in a line, if there is one. -/
def Trace.text? : Trace → Except TraceFault (Option String)
  | none => .ok Option.none
  | exception e => .ok (some e.text)
  | item i =>
    if i.isTruthy then
      match i.exceptionText with
      | .error e => .error e
      | .ok text => .ok (some text)
    else .ok Option.none

/-! ### Records -/

/-- A record of the log. -/
structure Record where
  logger : Item
  /-- What is shown of its level. -/
  level : Item
  pattern : Item
  args : Arguments
  time : Except MomentFault Timestamp
  context : List (String × Json)
  trace : Trace
  /-- An attribute stands in the place of the rule that fills the pattern. -/
  hidden : Bool

/-- The attributes that every record has. -/
def standardAttributes : List String :=
  ["name", "msg", "args", "levelname", "levelno", "pathname", "filename", "module", "exc_info",
    "exc_text", "stack_info", "lineno", "funcName", "created", "msecs", "relativeCreated", "thread",
    "threadName", "processName", "process", "message", "asctime"]

/-- The attribute is part of the context: it is neither standard nor private. -/
def isContext (name : String) : Bool :=
  !standardAttributes.contains name && name.toList.head? != some '_'

/-- An attribute that is there already cannot be set along with a message. -/
def overwrites (name : String) : String :=
  "Attempt to overwrite " ++ Text.quote name ++ " in LogRecord"

/-- Why a record has no line. -/
inductive LineFault
  | moment (fault : MomentFault)
  | pattern (fault : PatternFault)
  /-- The pattern cannot be filled at all. -/
  | hidden
  | trace (fault : TraceFault)
deriving DecidableEq, Repr

/-- One sentence on the fault. -/
def LineFault.message : LineFault → String
  | moment fault => fault.message
  | pattern fault => fault.message
  | hidden => ""
  | trace fault => fault.message

/-- The moment that an item stands for, as seconds since the start of 1970. -/
def Item.moment : Item → Except MomentFault Timestamp
  | .data v => momentOf v
  | .value _ => .error .notNumber

namespace Record

/-- The record of a message at a moment. -/
def ofMessage (time : Except MomentFault Timestamp) (logger level pattern : Json)
    (args : List Json) : Record :=
  ⟨.data logger, .data level, .data pattern, .ofList args, time, [], .none, false⟩

/-- The record with an attribute set. -/
def set (r : Record) (name : String) (v : Item) : Record :=
  if isContext name then
    { r with
      context := Json.setField name v.toJson r.context
      hidden := r.hidden || name == "getMessage" }
  else if name = "name" then { r with logger := v }
  else if name = "levelname" then { r with level := v }
  else if name = "msg" then { r with pattern := v }
  else if name = "args" then { r with args := .ofItem v }
  else if name = "created" then { r with time := v.moment }
  else if name = "exc_info" then { r with trace := .item v }
  else r

/-- The record with several attributes set, one after the other. -/
def setAll (r : Record) (attributes : List (String × Item)) : Record :=
  attributes.foldl (fun r a => r.set a.1 a.2) r

/-- The message of a record. -/
def message (r : Record) : Except LineFault String :=
  if r.hidden then .error .hidden
  else
    match fill r.pattern.display r.args with
    | .error e => .error (.pattern e)
    | .ok message => .ok message

/-- The line of a record.  The moment, the message and the exception are looked at in this order. -/
def line (r : Record) : Except LineFault String :=
  match r.time with
  | .error e => .error (.moment e)
  | .ok time =>
    match r.message with
    | .error e => .error e
    | .ok message =>
      match r.trace.text? with
      | .error e => .error (.trace e)
      | .ok exception =>
        .ok (lineOf time r.level.toJson r.logger.toJson message r.context exception)

/-- The record of an event. -/
def ofEvent (now : Timestamp) (e : Event) : Record :=
  { ofMessage (.ok now) (.str e.logger) (.str (levelName e.level)) (.str e.message) [] with
    context := e.context }

theorem line_ofEvent (now : Timestamp) (e : Event) :
    (ofEvent now e).line = .ok (e.line now) := rfl

end Record

end ChangeControl.Log
