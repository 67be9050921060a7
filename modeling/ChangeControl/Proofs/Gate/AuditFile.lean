import ChangeControl.Gate.Audit
import ChangeControl.Proofs.Calendar.RoundTrip
import ChangeControl.Proofs.Storage.Files
/-!
The audit log and its file.

Every record that is made is written together with all the earlier ones, and is read back as it was
written.  So the file holds exactly the records that were made, in their order, and a log may be
opened again at any time.

Main definitions:

* `AuditRecord.fields` — the fields that are written;
* `AuditLog.Session`, `AuditLog.run` — a log for which records are made and which is opened again;
* `AuditLog.Sound` — the log has the records that were made, and so has the file.

Main results:

* `AuditRecord.ofJson_toJson` — a record is read back;
* `AuditLog.recordsIn_fileText` — **a log is read back from its file**;
* `AuditLog.recorded` — what may become of a call that makes a record;
* `AuditLog.step_record_fields` — every record can be made from its fields;
* `AuditLog.append_only` — **a log has exactly the records that were made, and so has its file**,
  whenever it is opened again.
-/

set_option autoImplicit false

namespace ChangeControl

open Calendar (Timestamp)
open Storage

/-! ### Records -/

theorem Checked.items_map_str (name : String) (index : Nat) (texts : List String) :
    Checked.items name index (texts.map .str) = .ok texts := by
  induction texts generalizing index with
  | nil => rfl
  | cons s texts ih => simp only [List.map_cons, Checked.items, ih, Checked.apply]

namespace AuditRecord

/-- The fields of a record as data. -/
def fields (r : AuditRecord) : List (String × Json) :=
  [("decision_id", .str r.decisionId), ("workflow", .str r.workflow),
    ("action", .str r.action), ("kind", .str r.kind), ("verdict", .str r.verdict),
    ("timestamp", .str r.timestamp), ("approver", optionJson r.approver),
    ("reasons", .arr (r.reasons.map .str)), ("base_digest", optionJson r.baseDigest),
    ("result_digest", optionJson r.resultDigest)]

theorem optionalText_optionJson (name : String) (s : Option String) :
    optionalText name (some (optionJson s)) = .ok s := by
  cases s <;> rfl

/-- A record is read from its fields; what comes after them is passed over. -/
theorem ofFields_fields_append (r : AuditRecord) (more : List (String × Json)) :
    ofFields (r.fields ++ more) = .ok r := by
  simp [ofFields, fields, Json.lookup, Checked.text, optionalText_optionJson, Checked.list,
    Checked.items_map_str, Checked.apply]

theorem ofJson_toJson (r : AuditRecord) : ofJson r.toJson = .ok r := by
  have read := r.ofFields_fields_append []
  rwa [List.append_nil] at read

theorem regular_optionJson (s : Option String) : (optionJson s).Regular := by
  cases s with
  | none => exact .null
  | some s => exact .str s

theorem regular_toJson (r : AuditRecord) : r.toJson.Regular := by
  refine .obj (by simp) ?_
  simp only [List.forall_mem_cons]
  refine ⟨.str _, .str _, .str _, .str _, .str _, .str _, regular_optionJson _, .arr ?_,
    regular_optionJson _, regular_optionJson _, fun _ mem => absurd mem List.not_mem_nil⟩
  intro v mem
  obtain ⟨s, -, rfl⟩ := List.mem_map.1 mem
  exact .str s

end AuditRecord

namespace AuditLog

/-! ### The file -/

theorem readRecords_map (rs : List AuditRecord) :
    readRecords (rs.map AuditRecord.toJson) = .ok rs := by
  induction rs with
  | nil => rfl
  | cons r rs ih => rw [List.map_cons, readRecords, r.ofJson_toJson, ih]

theorem regular_toJson (log : AuditLog) : log.toJson.Regular := by
  refine .arr fun v mem => ?_
  obtain ⟨r, -, rfl⟩ := List.mem_map.1 mem
  exact r.regular_toJson

/-- **A log is read back from its file.** -/
theorem recordsIn_fileText (p : Path) (log : AuditLog) :
    recordsIn p (fileText log.toJson) = .ok log.records := by
  have data := read?_fileText log.regular_toJson
  unfold toJson at data ⊢
  simp only [recordsIn, data, readRecords_map]

theorem start_of_file {p : Path} {d : Disk} {log : AuditLog} (path : log.path = some p)
    (file : d.look p = .file (fileText log.toJson)) : start d (some p) = .ok log := by
  simp only [start, file, recordsIn_fileText, ← path]

theorem look_of_save {p : Path} {d d' : Disk} {log : AuditLog} (path : log.path = some p)
    (saved : log.save d = (d', none)) : d'.look p = .file (fileText log.toJson) := by
  simp only [save, path] at saved
  exact Disk.look_of_save saved

/-! ### Making records -/

/-- The log with one more record. -/
def push (log : AuditLog) (r : AuditRecord) : AuditLog := { log with records := log.records ++ [r] }

theorem append_eq (d : Disk) (log : AuditLog) (r : AuditRecord) :
    log.append d r = (log.push r, (log.push r).save d) := rfl

/-- What may become of a call that makes a record. -/
inductive Recorded (d : Disk) (log : AuditLog) :
    AuditLog × Disk × Except RecordError AuditRecord → Prop
  /-- There is no record, and nothing changes. -/
  | refused {e : RecordError} (h : ∀ fault, e ≠ .storage fault) : Recorded d log (log, d, .error e)
  /-- The record is in the log and in the file. -/
  | written {r : AuditRecord} {d' : Disk} (h : (log.push r).save d = (d', none)) :
    Recorded d log (log.push r, d', .ok r)
  /-- The record is in the log, but cannot be written. -/
  | unwritten {r : AuditRecord} {d' : Disk} {fault : Fault}
    (h : (log.push r).save d = (d', some fault)) :
    Recorded d log (log.push r, d', .error (.storage fault))

theorem recorded (now : Timestamp) (d : Disk) (log : AuditLog) (fields : List (String × Json)) :
    Recorded d log (log.record now d fields) := by
  unfold record
  split
  · exact .refused (by simp)
  · split
    · exact .refused (by simp)
    · next r _ =>
      rw [append_eq]
      split
      · next appended =>
        obtain ⟨rfl, failed⟩ := Prod.mk.inj appended
        exact .unwritten failed
      · next appended =>
        obtain ⟨rfl, saved⟩ := Prod.mk.inj appended
        exact .written saved

/-! ### Sessions -/

/-- What is done with a log: a record is made, or the log is opened again. -/
inductive Act
  | record (now : Timestamp) (fields : List (String × Json))
  | reopen

/-- A log with its disk, and the records that were made. -/
structure Session where
  disk : Disk
  log : AuditLog
  made : List AuditRecord

/-- Why a session ends. -/
inductive Failure
  /-- A record cannot be written. -/
  | unwritten (fault : Fault)
  /-- The log cannot be opened again. -/
  | unopened (e : AuditError)

/-- The session after an act.  A call that makes no record leaves everything as it is. -/
def Act.step (s : Session) : Act → Except Failure Session
  | record now fields =>
    match s.log.record now s.disk fields with
    | (log, disk, .ok r) => .ok ⟨disk, log, s.made ++ [r]⟩
    | (_, _, .error (.storage fault)) => .error (.unwritten fault)
    | (log, disk, .error _) => .ok ⟨disk, log, s.made⟩
  | reopen =>
    match start s.disk s.log.path with
    | .ok log => .ok { s with log := log }
    | .error e => .error (.unopened e)

/-- **Every record can be made from its fields**, unless it cannot be written. -/
theorem step_record_fields (s : Session) (now : Timestamp) (r : AuditRecord) :
    (Act.record now r.fields).step s =
      match (s.log.push r).save s.disk with
      | (d, none) => .ok ⟨d, s.log.push r, s.made ++ [r]⟩
      | (_, some fault) => .error (.unwritten fault) := by
  have named : (Json.lookup ownName r.fields).isSome = false := by
    simp [ownName, AuditRecord.fields, Json.lookup]
  simp only [Act.step, AuditLog.record, named, r.ofFields_fields_append, append_eq,
    Bool.false_eq_true, if_false]
  cases (s.log.push r).save s.disk with
  | mk d fault => cases fault <;> rfl

/-- The session after several acts, up to one that fails. -/
def run (s : Session) : List Act → Except Failure Session
  | [] => .ok s
  | a :: acts =>
    match a.step s with
    | .ok s => run s acts
    | .error e => .error e

theorem run_cons {s t : Session} {a : Act} (h : a.step s = .ok t) (acts : List Act) :
    run s (a :: acts) = run t acts := by
  simp only [run, h]

theorem run_append {s t : Session} {acts : List Act} (later : List Act)
    (h : run s (acts ++ later) = .ok t) : ∃ u, run s acts = .ok u ∧ run u later = .ok t := by
  induction acts generalizing s with
  | nil => exact ⟨s, rfl, h⟩
  | cons a acts ih =>
    simp only [List.cons_append, run] at h ⊢
    split at h
    · next s' => exact ih h
    · simp at h

/-- A session without records on a path. -/
def fresh (d : Disk) (p : Path) : Session := ⟨d, ⟨some p, []⟩, []⟩

/-- The log has the records that were made, and so has the file, which is absent without them. -/
structure Sound (p : Path) (s : Session) : Prop where
  log : s.log = ⟨some p, s.made⟩
  file : s.made = [] ∧ s.disk.look p = .nothing ∨ s.disk.look p = .file (fileText s.log.toJson)

variable {p : Path} {s t : Session}

theorem sound_fresh {d : Disk} (absent : d.look p = .nothing) : Sound p (fresh d p) :=
  ⟨rfl, .inl ⟨rfl, absent⟩⟩

theorem Sound.path (sound : Sound p s) : s.log.path = some p := by rw [sound.log]

theorem Sound.records (sound : Sound p s) : s.log.records = s.made := by rw [sound.log]

/-- The log is the same when it is opened again. -/
theorem Sound.start (sound : Sound p s) : start s.disk (some p) = .ok s.log := by
  rcases sound.file with ⟨none, absent⟩ | file
  · simp only [AuditLog.start, absent, sound.log, none]
  · exact start_of_file sound.path file

/-- Records are only added, and the file follows. -/
theorem Sound.step {a : Act} (sound : Sound p s) (h : a.step s = .ok t) :
    Sound p t ∧ s.made <+: t.made := by
  cases a with
  | record now fields =>
    have outcome := recorded now s.disk s.log fields
    simp only [Act.step] at h
    generalize s.log.record now s.disk fields = result at outcome h
    cases outcome with
    | @refused e other =>
      have same : s = t := by
        cases e with
        | reserved => exact Except.ok.inj h
        | invalid faults => exact Except.ok.inj h
        | storage fault => exact absurd rfl (other fault)
      exact same ▸ ⟨sound, List.prefix_refl s.made⟩
    | @written r d' saved =>
      obtain rfl := Except.ok.inj h
      have pushed : s.log.push r = ⟨some p, s.made ++ [r]⟩ := by rw [sound.log]; rfl
      have file := look_of_save (congrArg AuditLog.path pushed) saved
      exact ⟨⟨pushed, .inr file⟩, List.prefix_append s.made [r]⟩
    | unwritten failed => simp at h
  | reopen =>
    simp only [Act.step, sound.path, sound.start] at h
    obtain rfl := Except.ok.inj h
    exact ⟨sound, List.prefix_refl s.made⟩

theorem Sound.opens (sound : Sound p s) {a : Act} {e : AuditError} :
    a.step s ≠ .error (.unopened e) := by
  intro h
  cases a with
  | record now fields =>
    simp only [Act.step] at h
    split at h <;> simp at h
  | reopen => simp [Act.step, sound.path, sound.start] at h

/-- The same after several acts. -/
theorem Sound.run {acts : List Act} (sound : Sound p s) (h : run s acts = .ok t) :
    Sound p t ∧ s.made <+: t.made := by
  induction acts generalizing s with
  | nil =>
    obtain rfl := Except.ok.inj h
    exact ⟨sound, List.prefix_refl s.made⟩
  | cons a acts ih =>
    simp only [AuditLog.run] at h
    split at h
    · next stepped =>
      obtain ⟨sound', longer⟩ := sound.step stepped
      obtain ⟨sound'', longer'⟩ := ih sound' h
      exact ⟨sound'', longer.trans longer'⟩
    · simp at h

theorem Sound.run_opens {acts : List Act} (sound : Sound p s) {e : AuditError} :
    AuditLog.run s acts ≠ .error (.unopened e) := by
  induction acts generalizing s with
  | nil => simp [AuditLog.run]
  | cons a acts ih =>
    simp only [AuditLog.run]
    split
    · next stepped => exact ih (sound.step stepped).1
    · next stepped =>
      intro same
      exact sound.opens (stepped.trans same)

/-- **A log has exactly the records that were made, and so has its file.**  The log starts without
a file.  Then, whatever records are made and however often the log is opened again in between,
opening it never fails, any record can be made unless it cannot be written, and after each act the
log has the records that were made, in their order; the file is read back to them, so that the log
is the same when it is opened again; and what it had before is the beginning of what it has. -/
theorem append_only (p : Path) (d : Disk) (absent : d.look p = .nothing) (acts : List Act) :
    start d (some p) = .ok (fresh d p).log ∧
    (∀ e, run (fresh d p) acts ≠ .error (.unopened e)) ∧
    ∀ s, run (fresh d p) acts = .ok s →
      s.log.records = s.made ∧
      (∀ id, s.log.forDecision id = s.made.filter fun r => r.decisionId == id) ∧
      (s.made = [] ∧ s.disk.look p = .nothing ∨
        ∃ text, s.disk.look p = .file text ∧ recordsIn p text = .ok s.made) ∧
      start s.disk (some p) = .ok s.log ∧
      (∀ now r, (∃ d', (Act.record now r.fields).step s =
            .ok ⟨d', ⟨some p, s.made ++ [r]⟩, s.made ++ [r]⟩) ∨
          ∃ fault, (Act.record now r.fields).step s = .error (.unwritten fault)) ∧
      ∀ before later, acts = before ++ later →
        ∃ t, run (fresh d p) before = .ok t ∧ t.log.records <+: s.log.records := by
  have sound := sound_fresh absent
  refine ⟨sound.start, fun e => sound.run_opens, ?_⟩
  intro s h
  obtain ⟨last, -⟩ := sound.run h
  refine ⟨last.records, ?_, ?_, last.start, ?_, ?_⟩
  · intro id
    rw [forDecision, last.records]
  · refine last.file.imp_right fun file => ⟨_, file, ?_⟩
    rw [recordsIn_fileText, last.records]
  · intro now r
    have pushed : s.log.push r = ⟨some p, s.made ++ [r]⟩ := by rw [last.log]; rfl
    rw [step_record_fields, pushed]
    split
    · exact .inl ⟨_, rfl⟩
    · exact .inr ⟨_, rfl⟩
  · rintro before later rfl
    obtain ⟨t, ran, rest⟩ := run_append later h
    obtain ⟨middle, -⟩ := sound.run ran
    refine ⟨t, ran, ?_⟩
    rw [middle.records, last.records]
    exact (middle.run rest).2

/-- A path with a directory on the way. -/
def logPath : Path := .ofText "audit/log.json"

/-- A record with quotes, line feeds and empty texts. -/
def oddRecord : AuditRecord :=
  ⟨"d1", "W", "commit \"é\"\n", "critical", "rejected", "😀", none, ["", "\t"], some "", none⟩

/-- The call that makes that record. -/
def oddCall : Act := .record .leapNight oddRecord.fields

/-- The record is in the log and in the file when the log is opened again. -/
theorem reopened_oddRecord :
    ∃ s text, run (fresh .empty logPath) [oddCall, .reopen] = .ok s ∧
      s.log.forDecision "d1" = [oddRecord] ∧ s.disk.look logPath = .file text ∧
      recordsIn logPath text = .ok [oddRecord] := by
  have law := append_only logPath .empty rfl
  obtain ⟨d, saved⟩ : ∃ d, ((fresh .empty logPath).log.push oddRecord).save .empty = (d, none) :=
    ⟨_, rfl⟩
  have made : oddCall.step (fresh .empty logPath) =
      .ok ⟨d, ⟨some logPath, [oddRecord]⟩, [oddRecord]⟩ := by
    rw [oddCall, step_record_fields, show (fresh .empty logPath).disk = .empty from rfl, saved]
    rfl
  have one : run (fresh .empty logPath) [oddCall] =
      .ok ⟨d, ⟨some logPath, [oddRecord]⟩, [oddRecord]⟩ :=
    run_cons made []
  have opens : start d (some logPath) = .ok ⟨some logPath, [oddRecord]⟩ :=
    ((law [oddCall]).2.2 _ one).2.2.2.1
  have reopened : Act.reopen.step ⟨d, ⟨some logPath, [oddRecord]⟩, [oddRecord]⟩ =
      .ok ⟨d, ⟨some logPath, [oddRecord]⟩, [oddRecord]⟩ := by
    simp only [Act.step, opens]
  have both : run (fresh .empty logPath) [oddCall, .reopen] =
      .ok ⟨d, ⟨some logPath, [oddRecord]⟩, [oddRecord]⟩ :=
    (run_cons made [.reopen]).trans (run_cons reopened [])
  obtain ⟨-, decision, file, -⟩ := (law [oddCall, .reopen]).2.2 _ both
  rcases file with ⟨none, -⟩ | ⟨text, look, read⟩
  · cases none
  · exact ⟨_, text, both, (decision "d1").trans (by simp [oddRecord]), look, read⟩

end AuditLog

end ChangeControl
