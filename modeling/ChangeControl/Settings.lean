import ChangeControl.Decimal.Shortest
import ChangeControl.Json.Checked
import ChangeControl.Log.Level
import ChangeControl.Settings.EnvFile
import ChangeControl.Storage.Path
/-!
Settings.

A setting is taken from what the caller gives, or else from the environment, or else from a file of
environment variables, or else it has its default.  The names of variables start with the same word
and may be written in capitals or not.

Main definitions:

* `Settings`;
* `Settings.Sources`, `Sources.value?` — where settings come from;
* `Settings.load` — the settings that some sources give, or everything that is wrong with them.

Main statements:

* `Settings.logLevel_of_load` — settings that are loaded name a level.
-/

set_option autoImplicit false

namespace ChangeControl

open Decimal (Binary64)
open Storage (Path)

/-- The settings of a gate. -/
structure Settings where
  /-- The name of the least level that is logged. -/
  logLevel : String
  /-- The file that the audit log is kept in. -/
  auditPath : Option Path
  /-- The file that the current snapshot is kept in. -/
  snapshotPath : Option Path
  /-- How many seconds a critical decision may wait for its approval. -/
  timeout : Option Binary64
deriving DecidableEq, Repr

namespace Settings

/-- The settings without any source. -/
def default : Settings := ⟨"INFO", none, none, none⟩

/-! ### Sources -/

/-- Where settings come from. -/
structure Sources where
  /-- What the caller gives. -/
  given : List (String × Json)
  environment : List (String × String)
  /-- The text of the file, if there is one. -/
  file : Option String

/-- What the names of variables start with. -/
def variableMark : String := "workflow_gate_"

/-- The small letter of a character, if that is one of ASCII: the Kelvin sign is a capital K. -/
def smallLetter (c : Char) : Char := if c = '\u212a' then 'k' else c.toLower

/-- The value of the last variable for a setting; names are compared in small letters. -/
def settingIn? {α : Type} (name : String) (entries : List (String × α)) : Option α :=
  EnvFile.lastValue? (variableMark ++ name)
    (entries.map fun e => (String.ofList (e.1.toList.map smallLetter), e.2))

/-- The value for a setting. -/
def Sources.value? (s : Sources) (name : String) : Option Json :=
  match Json.lookup name s.given with
  | some v => some v
  | none =>
    match settingIn? name s.environment with
    | some text => some (.str text)
    | none =>
      match s.file with
      | none => none
      | some text => ((settingIn? name (EnvFile.assignments s.environment text)).join).map .str

/-! ### Values -/

/-- A run of digits, and what follows. -/
def digitRun (cs : List Char) : List Char × List Char :=
  (cs.takeWhile Char.isDigit, cs.dropWhile Char.isDigit)

/-- The number that some digits stand for. -/
def digitsValue (ds : List Char) : Nat := ds.foldl (fun n c => n * 10 + (c.toNat - 48)) 0

/-- A power of ten behind a number, up to the end of the text. -/
def exponent? (cs : List Char) : Option Int :=
  match cs with
  | [] => some 0
  | c :: rest =>
    if c = 'e' ∨ c = 'E' then
      let negative := rest.head? == some '-'
      let (digits, after) :=
        digitRun (if negative || rest.head? == some '+' then rest.drop 1 else rest)
      if digits.isEmpty || !after.isEmpty then none
      else some (if negative then -(digitsValue digits : Int) else digitsValue digits)
    else none

/-- An unsigned number in decimal notation, or the word for an infinite or an undefined one. -/
def unsignedNumber? (negative : Bool) (cs : List Char) : Option Binary64 :=
  let word := cs.map Char.toLower
  if word = ['i', 'n', 'f'] ∨ word = ['i', 'n', 'f', 'i', 'n', 'i', 't', 'y'] then
    some (.infinite negative)
  else if word = ['n', 'a', 'n'] then some .undefined
  else
    let (whole, rest) := digitRun cs
    let (fraction, rest) :=
      match rest with
      | '.' :: rest => digitRun rest
      | rest => ([], rest)
    if whole.isEmpty && fraction.isEmpty then none
    else
      (exponent? rest).map fun e =>
        .ofDecimal negative (digitsValue (whole ++ fraction)) (e - fraction.length)

/-- The number in decimal notation that a text stands for, with a sign or without. -/
def signedNumber? : List Char → Option Binary64
  | '-' :: rest => unsignedNumber? true rest
  | '+' :: rest => unsignedNumber? false rest
  | rest => unsignedNumber? false rest

/-- The underscores of a text stand between other characters, one at a time. -/
def separates : List Char → Bool
  | [] | ['_'] => false
  | [_] => true
  | c :: d :: cs => !(c == '_' && d == '_') && separates (d :: cs)

/-- The number in decimal notation that a text stands for, either with white space around it or with
underscores inside. -/
def number? (text : String) : Option Binary64 :=
  let cs := text.toList
  match signedNumber? (Text.trimBy Text.isWhite text).toList with
  | some x => some x
  | none =>
    if cs.head? != some '_' && separates cs then signedNumber? (cs.filter (· != '_')) else none

/-- A path in the field `name`. -/
def readPath (name : String) : Json → Checked Path
  | .str s => .ok (.ofText s)
  | _ => Checked.refuse name .notPath

/-- A number in the field `name`; a whole number that is too large is none. -/
def readNumber (name : String) : Json → Checked Binary64
  | .real x => .ok x
  | .int n =>
    match Binary64.ofInt n with
    | .infinite _ => Checked.refuse name .notNumber
    | x => .ok x
  | .bool b => .ok (.ofInt (if b then 1 else 0))
  | .str s =>
    match number? s with
    | some x => .ok x
    | none => Checked.refuse name .badNumber
  | _ => Checked.refuse name .notNumber

/-- A number above zero in the field `name`. -/
def readPositive (name : String) (v : Json) : Checked Binary64 :=
  match readNumber name v with
  | .error fs => .error fs
  | .ok x => if x.isPositive then .ok x else Checked.refuse name .tooSmall

/-! ### Loading -/

/-- The settings as they are given, the level being any text. -/
def readFields (s : Sources) : Checked Settings :=
  let level : Checked String :=
    match s.value? "log_level" with
    | none => .ok default.logLevel
    | some v => Checked.text "log_level" (some v)
  let path (name : String) : Checked (Option Path) :=
    Checked.optional (readPath name) (s.value? name)
  let timeout := "approval_timeout_seconds"
  (((Checked.apply (.ok Settings.mk) level).apply (path "audit_log_path")).apply
    (path "snapshot_path")).apply (Checked.optional (readPositive timeout) (s.value? timeout))

/-- The name of the level that a text stands for: white space around it does not count, nor do
small letters. -/
def levelNameOf? (text : String) : Option String :=
  let name := Text.upper (Text.trim text)
  if (Log.levelOfName? name).isSome then some name else none

/-- The settings that some sources give.  The level is only looked at when nothing is wrong with the
fields. -/
def load (s : Sources) : Checked Settings :=
  match readFields s with
  | .error fs => .error fs
  | .ok settings =>
    match levelNameOf? settings.logLevel with
    | some name => .ok { settings with logLevel := name }
    | none => .error [⟨[], .refused ("Unknown log level: " ++ Text.quote settings.logLevel)⟩]

theorem logLevel_of_load {s : Sources} {settings : Settings} (h : load s = .ok settings) :
    (Log.levelOfName? settings.logLevel).isSome = true := by
  unfold load at h
  split at h
  · simp at h
  · split at h
    · next name found =>
      simp only [Except.ok.injEq] at h
      subst h
      simp only [levelNameOf?] at found
      split at found
      · next known =>
        simp only [Option.some.injEq] at found
        exact found ▸ known
      · simp at found
    · simp at h

/-- The least level that is logged. -/
def threshold (settings : Settings) : Int := (Log.levelOfName? settings.logLevel).getD Log.info

end Settings

end ChangeControl
