import ChangeControl.Proofs.Gate.Forms
import ChangeControl.Proofs.Gate.Invariant
/-!
What operations store.

Every function of the gate has one lemma here that says which forms it stores, that each of them may
follow the one before, that the answer is the verdict of the last one, and which errors are
possible.  Together they say what a whole operation stores: the forms of one decision, which begin
when it is created or go on while it waits.

Main definitions:

* `Gate.Stores` — what is true of a part of an operation that stores some forms of a decision;
* `Gate.Numbered` — the identifiers of the decisions were given;
* `Gate.Succession` — forms of any decisions, stored one after the other, lead from one gate to
  another;
* `Gate.Serves` — what is true of a whole operation.

Main results:

* `Gate.stores_reject`, `Gate.stores_apply`, `Gate.stores_settle`, `Gate.stores_validate` — what
  the parts of operations store;
* `Gate.Succession.trans`, `Gate.Succession.stays` — one thing after another, and **what is made
  stays**;
* `Gate.serves_stepAmid` — **every operation stores the forms of one decision at most**.
-/

set_option autoImplicit false

namespace ChangeControl

open Calendar (Timestamp)

theorem Step.reply_of_map_verdict {s : Step Verdict} {v : Verdict}
    (h : (s.map Reply.verdict).reply = .ok (.verdict v)) : s.reply = .ok v := by
  unfold Step.map at h
  cases hreply : s.reply with
  | ok w =>
    simp only [hreply, Except.ok.injEq, Reply.verdict.injEq] at h
    rw [h]
  | error e => simp [hreply] at h

theorem Step.reply_of_map_error {α β : Type} {f : α → β} {s : Step α} {e : GateError}
    (h : (s.map f).reply = .error e) : s.reply = .error e := by
  unfold Step.map at h
  cases hreply : s.reply <;> simp_all

namespace Gate

variable {now : Timestamp} {g g' g'' : Gate} {d e : Decision} {forms later : List Decision}
  {s : Step Verdict}

/-! ### Swapping -/

/-- Swapping answers with the snapshot, or tells why it is refused. -/
theorem reply_swap (g : Gate) (next : Snapshot) (expected : Json) :
    (g.swap next expected).reply = .ok next ∨
      ∃ e, (g.swap next expected).reply = .error (.swap e) := by
  unfold swap
  split
  · exact .inr ⟨_, rfl⟩
  · exact .inl rfl

@[simp] theorem decisions_swap (g : Gate) (next : Snapshot) (expected : Json) :
    (g.swap next expected).gate.decisions = g.decisions := by
  unfold swap
  split <;> rfl

@[simp] theorem issued_swap (g : Gate) (next : Snapshot) (expected : Json) :
    (g.swap next expected).gate.issued = g.issued := by
  unfold swap
  split <;> rfl

theorem reply_intrude (g : Gate) (meanwhile : Option Snapshot) :
    (g.intrude meanwhile).reply = .ok () ∨
      ∃ e, (g.intrude meanwhile).reply = .error (.swap e) := by
  cases meanwhile with
  | none => exact .inl rfl
  | some s =>
    rcases reply_swap g s g.store.current.version.toJson with ok | ⟨e, failed⟩
    · exact .inl (by rw [intrude, Step.map, ok])
    · exact .inr ⟨e, by rw [intrude, Step.map, failed]⟩

@[simp] theorem decisions_intrude (g : Gate) (meanwhile : Option Snapshot) :
    (g.intrude meanwhile).gate.decisions = g.decisions := by
  cases meanwhile with
  | none => rfl
  | some s => exact decisions_swap g s _

@[simp] theorem issued_intrude (g : Gate) (meanwhile : Option Snapshot) :
    (g.intrude meanwhile).gate.issued = g.issued := by
  cases meanwhile with
  | none => rfl
  | some s => exact issued_swap g s _

/-! ### Parts of operations -/

/-- A part of an operation, which finds the decision `d` in the gate `g`, stores some forms, each
of which may follow the one before.  Its answer is the verdict of the last one, and no error
blames whoever asked. -/
structure Stores (g : Gate) (d : Decision) (forms : List Decision) (s : Step Verdict) : Prop where
  decisions : s.gate.decisions = storeAll forms g.decisions
  issued : s.gate.issued = g.issued
  chain : (d :: forms).IsChain Decision.Precedes
  answer : ∀ v, s.reply = .ok v → ∃ e ∈ forms.getLast?, v = e.verdict
  errors : ∀ e, s.reply = .error e → e.isMisuse = false

namespace Stores

theorem after (h : Stores g d forms s) (events : List Log.Event) :
    Stores g d forms (s.after events) :=
  ⟨h.decisions, h.issued, h.chain, h.answer, h.errors⟩

/-- Only the decisions of the gate matter, and how many identifiers were given. -/
theorem of_eq (h : Stores g' d forms s) (decisions : g'.decisions = g.decisions)
    (issued : g'.issued = g.issued) : Stores g d forms s :=
  ⟨decisions ▸ h.decisions, issued ▸ h.issued, h.chain, h.answer, h.errors⟩

/-- A form is stored before the others. -/
theorem cons (precedes : d.Precedes e) (h : Stores (g.put e) e forms s) :
    Stores g d (e :: forms) s := by
  refine ⟨h.decisions, h.issued, List.isChain_cons_cons.2 ⟨precedes, h.chain⟩, ?_, h.errors⟩
  intro v hv
  obtain ⟨f, hf, rfl⟩ := h.answer v hv
  exact ⟨f, by rw [List.getLast?_cons, Option.mem_def.1 hf]; rfl, rfl⟩

/-- An error in the place of the answer. -/
theorem butFails (h : Stores g d forms s) {e : GateError} (blameless : e.isMisuse = false) :
    Stores g d forms (s.butFails e) := by
  refine ⟨h.decisions, h.issued, h.chain, ?_, ?_⟩
  · intro v hv
    unfold Step.butFails at hv
    cases hreply : s.reply <;> simp [hreply] at hv
  · intro f hf
    unfold Step.butFails at hf
    cases hreply : s.reply with
    | ok v =>
      simp only [hreply, Except.error.injEq] at hf
      exact hf ▸ blameless
    | error e' =>
      simp only [hreply, Except.error.injEq] at hf
      exact hf ▸ h.errors e' hreply

/-- A part that ends in an error and stores nothing. -/
theorem fail (g : Gate) (d : Decision) {e : GateError} (blameless : e.isMisuse = false) :
    Stores g d [] (.fail g e) := by
  refine ⟨rfl, rfl, .singleton d, fun _ hv => (by cases hv), ?_⟩
  intro f hf
  obtain rfl := Except.error.inj hf
  exact blameless

end Stores

/-- Making a decision stores it, whether its record can be written or not. -/
theorem stores_finish {target : Stage} {changes : List Change} (event : Decision → Log.Event)
    (keeps : changes.all Change.keepsSubject = true) (moves : d.advance target changes = .ok e) :
    Stores g d (Forms.move d target changes) (g.finish now d target changes event) := by
  have hforms : Forms.move d target changes = [e] := by rw [Forms.move, moves]
  have hgate : (g.finish now d target changes event).gate = recorded now g e := gate_finish moves
  rw [hforms]
  refine ⟨?_, ?_, List.isChain_pair.2 (Decision.precedes_of_advance keeps moves), ?_, ?_⟩
  · rw [hgate]
    rfl
  · rw [hgate]
    rfl
  · intro v hv
    refine ⟨e, rfl, ?_⟩
    rw [finish, conclude, moves] at hv
    simp only at hv
    split at hv
    · cases hv
    · cases hv
    · next same =>
      simp only [Except.ok.injEq, Prod.mk.injEq] at same hv
      rw [← hv, ← same.2.1]
  · intro f hf
    rw [finish, conclude, moves] at hf
    simp only at hf
    split at hf
    · next same => cases same
    · obtain rfl := Except.error.inj hf
      rfl
    · cases hf

theorem stores_reject (g : Gate) (reasons : List String) {changes : List Change}
    (keeps : changes.all Change.keepsSubject = true) (h : d.IsOpen) :
    Stores g d (Forms.reject d reasons changes) (g.reject now d reasons changes) := by
  have keeps' : (changes ++ [Change.reasons reasons]).all Change.keepsSubject = true := by
    rw [List.all_append, keeps]
    rfl
  refine stores_finish _ keeps' ((Decision.advance_eq_ok_iff ..).2 ⟨?_, by simp, rfl⟩)
  rcases h with h | h <;> simp [h, Stage.next]

theorem stores_apply (g : Gate) (result : Snapshot) (expected : Version) (h : d.IsOpen)
    (free : d.lacksApproval = false) :
    Stores g d (Forms.apply g d result expected) (g.apply now d result expected) := by
  have moves : d.advance .applied [.result (some result)] = .ok (d.appliedWith result) := by
    refine (Decision.advance_eq_ok_iff ..).2 ⟨?_, fun _ => free, rfl⟩
    rcases h with h | h <;> simp [h, Stage.next]
  have hdecisions := decisions_swap g result expected.toJson
  have hissued := issued_swap g result expected.toJson
  refine Stores.after ?_ _
  rw [Forms.apply]
  rcases reply_swap g result expected.toJson with ok | ⟨e, failed⟩
  · rw [ok]
    exact (stores_finish _ rfl moves).of_eq hdecisions hissued
  · rw [failed]
    cases e with
    | stale => exact (stores_reject _ _ rfl h).of_eq hdecisions hissued
    | storage => exact (Stores.fail _ _ rfl).of_eq hdecisions hissued

theorem stores_applyAfter (g : Gate) (meanwhile : Option Snapshot) (result : Snapshot)
    (expected : Version) (h : d.IsOpen) (free : d.lacksApproval = false) :
    Stores g d (Forms.applyAfter g meanwhile d result expected)
      (g.applyAfter now meanwhile d result expected) := by
  have hdecisions := decisions_intrude g meanwhile
  have hissued := issued_intrude g meanwhile
  refine Stores.after ?_ _
  rw [Forms.applyAfter]
  rcases reply_intrude g meanwhile with ok | ⟨e, failed⟩
  · rw [ok]
    exact (stores_apply _ result expected h free).of_eq hdecisions hissued
  · rw [failed]
    exact (Stores.fail _ _ rfl).of_eq hdecisions hissued

theorem stores_park (g : Gate) (result : Snapshot) (h : d.stage = .validating) :
    Stores g d (Forms.park d result) (g.park d result) := by
  have moves : d.advance .pendingApproval
      [.kind .critical, .approval (some .pending), .result (some result)] =
        .ok (d.parkedWith result) :=
    (Decision.advance_eq_ok_iff ..).2 ⟨by simp [h, Stage.next], by simp, rfl⟩
  rw [Forms.park, Forms.move, park, moves]
  refine ⟨rfl, rfl, List.isChain_pair.2 (Decision.precedes_of_advance rfl moves), ?_,
    fun _ hf => by cases hf⟩
  intro v hv
  exact ⟨_, rfl, (Except.ok.inj hv).symm⟩

/-- After a validation, a decision is rejected, or what passed goes on. -/
theorem stores_settle {x : Examination} {stores : Snapshot → Bool → List Decision}
    {passed : Snapshot → Bool → Step Verdict} (h : d.IsOpen)
    (goes : ∀ r b, Stores g d (stores r b) (passed r b)) :
    Stores g d (Forms.settle d x stores) (g.settle now d x passed) := by
  refine Stores.after ?_ _
  rw [Forms.settle]
  cases x.finding with
  | error e => exact (stores_reject g _ rfl h).butFails rfl
  | ok finding =>
    cases finding with
    | failed reasons => exact stores_reject g reasons rfl h
    | passed result critical => exact goes result critical

/-- A decision that was just created is stored when it is validated and when that is over. -/
theorem stores_validate (g : Gate) (meanwhile : Option Snapshot) (h : d.stage = .proposed) :
    Stores g d (Forms.validate now g d meanwhile) (g.validate now d meanwhile) := by
  obtain ⟨e, moves⟩ : ∃ e, d.advance .validating (Change.base g.store.current) = .ok e :=
    ⟨_, (Decision.advance_eq_ok_iff ..).2 ⟨by simp [h, Stage.next], by simp, rfl⟩⟩
  have hstage : e.stage = .validating := Decision.stage_of_advance moves
  simp only [Forms.validate, validate, moves]
  refine (Stores.cons (Decision.precedes_of_advance rfl moves) ?_).after _
  refine stores_settle (.inl hstage) ?_
  intro result critical
  split
  · exact stores_park _ result hstage
  · next routine =>
    refine stores_applyAfter _ meanwhile result _ (.inl hstage) ?_
    rw [Decision.lacksApproval, Bool.and_eq_false_iff]
    exact .inl (beq_false_of_ne fun critical => routine (.inl critical))

/-! ### Successions -/

/-- The identifiers of the decisions are among the numbers that were given. -/
def Numbered (g : Gate) : Prop :=
  ∀ id d, g.find? id = some d → ∃ n < g.issued, id = "d" ++ toString (n + 1)

theorem Numbered.of_eq (h : Numbered g) (decisions : g'.decisions = g.decisions)
    (issued : g'.issued = g.issued) : Numbered g' := by
  unfold Numbered find? at h ⊢
  rw [decisions, issued]
  exact h

/-- The next identifier was not given before. -/
theorem Numbered.find?_nextId (h : Numbered g) : g.find? g.nextId = none := by
  cases found : g.find? g.nextId with
  | none => rfl
  | some d =>
    obtain ⟨n, hn, same⟩ := h _ d found
    rw [nextId, String.append_right_inj] at same
    have := toString_nat_inj same
    omega

/-- Storing some forms, one after the other, leads from the gate `g` to the gate `g'`.  The forms of
each decision follow one another, from the one that is in the gate `g`, if there is one, or else
from its creation; and a decision that is there gets another form only while it waits. -/
structure Succession (g : Gate) (forms : List Decision) (g' : Gate) : Prop where
  decisions : g'.decisions = storeAll forms g.decisions
  numbered : Numbered g → Numbered g'
  chain : ∀ id, ((g.find? id).toList ++ about id forms).IsChain Decision.Precedes
  begins : ∀ id, g.find? id = none → ∀ d ∈ (about id forms).head?, d.stage = .proposed
  waits : ∀ id d, g.find? id = some d → about id forms ≠ [] → d.stage = .pendingApproval

namespace Succession

/-- Nothing is stored. -/
theorem of_eq (decisions : g'.decisions = g.decisions) (issued : g'.issued = g.issued) :
    Succession g [] g' where
  decisions := decisions
  numbered h := h.of_eq decisions issued
  chain id := by
    rw [about_nil, List.append_nil]
    cases g.find? id with
    | none => exact .nil
    | some d => exact .singleton d
  begins _ _ _ hd := by cases hd
  waits _ _ _ some := absurd rfl some

/-- The forms of one decision are stored. -/
theorem of_chain {id : String} (decisions : g'.decisions = storeAll forms g.decisions)
    (numbered : Numbered g → Numbered g') (same : ∀ d ∈ forms, d.id = id)
    (chain : ((g.find? id).toList ++ forms).IsChain Decision.Precedes)
    (begins : g.find? id = none → ∀ d ∈ forms.head?, d.stage = .proposed)
    (waits : ∀ d, g.find? id = some d → d.stage = .pendingApproval) : Succession g forms g' := by
  refine ⟨decisions, numbered, ?_, ?_, ?_⟩
  · intro other
    by_cases hother : other = id
    · rwa [hother, about_eq_self same]
    · rw [about_eq_nil_of_same same hother]
      exact (of_eq rfl rfl : Succession g [] g).chain other
  · intro other unknown d hd
    by_cases hother : other = id
    · rw [hother, about_eq_self same] at hd
      exact begins (hother ▸ unknown) d hd
    · rw [about_eq_nil_of_same same hother] at hd
      cases hd
  · intro other d found some
    by_cases hother : other = id
    · exact waits d (hother ▸ found)
    · exact absurd (about_eq_nil_of_same same hother) some

/-- A decision that is made stays as it is, and is not stored any more. -/
theorem stays (h : Succession g forms g') {id : String} (found : g.find? id = some d)
    (terminal : d.stage.isTerminal = true) : about id forms = [] ∧ g'.find? id = some d := by
  have hnone : about id forms = [] := by
    by_contra some
    rw [h.waits id d found some] at terminal
    cases terminal
  exact ⟨hnone, (find?_of_about_eq_nil h.decisions hnone).trans found⟩

/-- What is found after a succession is the last form of all, the one that was there included. -/
theorem find?_eq (h : Succession g forms g') (id : String) :
    g'.find? id = ((g.find? id).toList ++ about id forms).getLast? := by
  rw [find?_of_storeAll h.decisions, List.getLast?_append]
  cases g.find? id <;> rfl

/-- A succession after another one. -/
theorem trans (h : Succession g forms g') (h' : Succession g' later g'') :
    Succession g (forms ++ later) g'' := by
  refine ⟨?_, fun numbered => h'.numbered (h.numbered numbered), ?_, ?_, ?_⟩
  · rw [h'.decisions, h.decisions, storeAll, storeAll, storeAll, List.foldl_append]
  · intro id
    have hfirst := h.chain id
    have hlater := h'.chain id
    rw [h.find?_eq] at hlater
    rw [about_append, ← List.append_assoc]
    generalize (g.find? id).toList ++ about id forms = earlier at hfirst hlater ⊢
    -- the later forms go on from the last one of the earlier ones
    cases earlier using List.reverseRecOn with
    | nil => exact hlater
    | append_singleton earlier d =>
      rw [List.getLast?_append, List.getLast?_singleton] at hlater
      exact List.IsChain.append_overlap hfirst hlater (by simp)
  · intro id unknown d hd
    rw [about_append] at hd
    by_cases none : about id forms = []
    · rw [none, List.nil_append] at hd
      exact h'.begins id ((find?_of_about_eq_nil h.decisions none).trans unknown) d hd
    · rw [List.head?_append_of_ne_nil _ none] at hd
      exact h.begins id unknown d hd
  · intro id d found some
    by_cases none : about id forms = []
    · rw [about_append, none, List.nil_append] at some
      exact h'.waits id d ((find?_of_about_eq_nil h.decisions none).trans found) some
    · exact h.waits id d found none

end Succession

/-! ### Whole operations -/

/-- An operation on the gate `g` stores some forms, all of the decision `subject`.  A verdict that
the operation gives is the one that is told afterwards, and if it ends in an error that blames
whoever asked, nothing has happened. -/
structure Serves (g : Gate) (subject : Option String) (forms : List Decision) (s : Step Reply) :
    Prop where
  succession : Succession g forms s.gate
  named : ∀ d ∈ forms, subject = some d.id
  answer : ∀ v, s.reply = .ok (.verdict v) →
    subject = some v.decisionId ∧ s.gate.verdict v.decisionId = .ok v
  errors : ∀ e, s.reply = .error e → e.isMisuse = true → s.gate = g

/-- Other decisions stay as they are. -/
theorem Serves.find?_of_ne {subject : Option String} {s : Step Reply}
    (h : Serves g subject forms s) {id : String} (ne : subject ≠ some id) :
    s.gate.find? id = g.find? id := by
  refine find?_of_about_eq_nil h.succession.decisions (about_eq_nil ?_)
  intro d hd same
  exact ne (same ▸ h.named d hd)

/-- Nothing is stored at all. -/
theorem serves_nil {subject : Option String} {s : Step Reply}
    (decisions : s.gate.decisions = g.decisions) (issued : s.gate.issued = g.issued)
    (answer : ∀ v, s.reply = .ok (.verdict v) →
      subject = some v.decisionId ∧ s.gate.verdict v.decisionId = .ok v)
    (errors : ∀ e, s.reply = .error e → e.isMisuse = true → s.gate = g) :
    Serves g subject [] s :=
  ⟨.of_eq decisions issued, fun _ hd => absurd hd List.not_mem_nil, answer, errors⟩

/-- An operation that ends in an error before it stores anything. -/
theorem serves_fail (g : Gate) (subject : Option String) (e : GateError) :
    Serves g subject [] ((Step.fail g e : Step Verdict).map .verdict) :=
  serves_nil rfl rfl (fun _ hv => by cases hv) fun _ _ _ => rfl

/-- An operation that only tells the verdict of a decision. -/
theorem serves_answer {id : String} (found : g.find? id = some d) :
    Serves g (some id) [] ((Step.answer g d.verdict).map .verdict) := by
  refine serves_nil rfl rfl ?_ fun _ he => by cases he
  intro v hv
  obtain rfl := Reply.verdict.inj (Except.ok.inj hv)
  have hid : d.verdict.decisionId = id := d.decisionId_verdict.trans (mem_of_find? found).2
  refine ⟨congrArg some hid.symm, ?_⟩
  rw [hid, Step.gate_map, Step.gate_answer, verdict, found]

/-- Forms of one decision are stored, and the answer is the verdict of the last one. -/
theorem serves_of_answer {id : String} (succession : Succession g forms s.gate)
    (same : ∀ d ∈ forms, d.id = id)
    (answer : ∀ v, s.reply = .ok v → ∃ e ∈ forms.getLast?, v = e.verdict)
    (errors : ∀ e, s.reply = .error e → e.isMisuse = false) :
    Serves g (some id) forms (s.map .verdict) := by
  refine ⟨succession, fun d hd => congrArg some (same d hd).symm, ?_, ?_⟩
  · intro v hv
    obtain ⟨e, he, rfl⟩ := answer v (Step.reply_of_map_verdict hv)
    have hid : e.verdict.decisionId = id :=
      e.decisionId_verdict.trans (same e (List.mem_of_getLast? he))
    refine ⟨congrArg some hid.symm, ?_⟩
    rw [hid, Step.gate_map, verdict, find?_of_storeAll succession.decisions, about_eq_self same,
      Option.mem_def.1 he]
    rfl
  · intro e he misuse
    rw [errors e (Step.reply_of_map_error he)] at misuse
    cases misuse

/-- What an operation on a waiting decision stores. -/
theorem Stores.serves_of_waiting {id : String} (h : Stores g d forms s)
    (found : g.find? id = some d) (waits : d.stage = .pendingApproval) :
    Serves g (some id) forms (s.map .verdict) := by
  have hid : d.id = id := (mem_of_find? found).2
  have same : ∀ e ∈ forms, e.id = id := by
    intro e he
    exact (Decision.id_of_isChain h.chain e he).trans hid
  refine serves_of_answer (.of_chain h.decisions ?_ same ?_ ?_ ?_) same h.answer h.errors
  · intro numbered other c hc
    rw [h.issued]
    by_cases hother : other = id
    · exact hother ▸ numbered id d found
    · have hnone := about_eq_nil_of_same same hother
      exact numbered other c ((find?_of_about_eq_nil h.decisions hnone).symm.trans hc)
  · rw [found]
    exact h.chain
  · intro unknown
    rw [found] at unknown
    cases unknown
  · intro c hc
    rw [found] at hc
    obtain rfl := Option.some.inj hc
    exact waits

/-- What a proposal that creates a decision stores. -/
theorem Stores.serves_of_new {w : Workflow} {p : Proposal} {kind : DecisionKind}
    (h : Stores { g.put (Decision.new g.nextId w p kind) with issued := g.issued + 1 }
      (Decision.new g.nextId w p kind) forms s)
    (unknown : g.find? g.nextId = none) :
    Serves g (some g.nextId) (Decision.new g.nextId w p kind :: forms) (s.map .verdict) := by
  have same : ∀ e ∈ Decision.new g.nextId w p kind :: forms, e.id = g.nextId := by
    intro e he
    rcases List.mem_cons.1 he with rfl | he
    · rfl
    · exact Decision.id_of_isChain h.chain e he
  have decisions : s.gate.decisions =
      storeAll (Decision.new g.nextId w p kind :: forms) g.decisions := h.decisions
  have issued : s.gate.issued = g.issued + 1 := h.issued
  refine serves_of_answer (.of_chain decisions ?_ same ?_ ?_ ?_) same ?_ h.errors
  · intro numbered other c hc
    rw [issued]
    by_cases hother : other = g.nextId
    · exact ⟨g.issued, by omega, hother⟩
    · have hnone := about_eq_nil_of_same same hother
      obtain ⟨n, hn, hnumber⟩ :=
        numbered other c ((find?_of_about_eq_nil decisions hnone).symm.trans hc)
      exact ⟨n, by omega, hnumber⟩
  · rw [unknown]
    exact h.chain
  · intro _ e he
    obtain rfl := Option.some.inj he
    rfl
  · intro c hc
    rw [unknown] at hc
    cases hc
  · intro v hv
    obtain ⟨e, he, rfl⟩ := h.answer v hv
    exact ⟨e, by rw [List.getLast?_cons, Option.mem_def.1 he]; rfl, rfl⟩

theorem serves_propose (ref : WorkflowRef) (submission : Submission) (kind : DecisionKind)
    (meanwhile : Option Snapshot) (unknown : g.find? g.nextId = none) :
    Serves g (some g.nextId) (Forms.propose now g ref submission kind meanwhile)
      ((g.propose now ref submission kind meanwhile).map .verdict) := by
  cases submission with
  | foreign data => exact serves_fail g _ _
  | proposal p =>
    rw [Forms.propose, propose]
    cases g.workflow? ref with
    | error e => exact serves_fail g _ _
    | ok w => exact (stores_validate _ meanwhile rfl).serves_of_new unknown

theorem serves_approve (id : String) (approver : Option String) (meanwhile : Option Snapshot) :
    Serves g (some id) (Forms.approve now g id approver meanwhile)
      ((g.approve now id approver meanwhile).map .verdict) := by
  rw [Forms.approve, approve]
  cases hpending : g.pending "approve" id with
  | error e => exact serves_fail g _ _
  | ok d =>
    obtain ⟨found, waits⟩ := pending_eq_ok_iff.1 hpending
    have hopen : (d.approvedBy approver).IsOpen := .inr waits
    have free : (d.approvedBy approver).lacksApproval = false := by
      rw [Decision.lacksApproval, Bool.and_eq_false_iff]
      exact .inr rfl
    have precedes : d.Precedes (d.approvedBy approver) := ⟨rfl, rfl, rfl, .inl rfl⟩
    refine Stores.serves_of_waiting (Stores.cons precedes ?_) found waits
    refine Stores.after ?_ _
    -- with the kept result and with a new one, the same application follows
    cases cached? (d.change [.approval (some .approved), .approver approver])
        (g.put (d.change [.approval (some .approved), .approver approver])).store.current with
    | some result => exact stores_applyAfter _ meanwhile result _ hopen free
    | none =>
      refine stores_settle hopen ?_
      intro result _
      exact stores_applyAfter _ meanwhile result _ hopen free

theorem serves_deny (id : String) (approver : Option String) (reason : String) :
    Serves g (some id) (Forms.deny g id approver reason)
      ((g.deny now id approver reason).map .verdict) := by
  rw [Forms.deny, deny]
  cases hpending : g.pending "deny" id with
  | error e => exact serves_fail g _ _
  | ok d =>
    obtain ⟨found, waits⟩ := pending_eq_ok_iff.1 hpending
    exact ((stores_reject g _ rfl (.inr waits)).after _).serves_of_waiting found waits

theorem serves_cancel (id reason : String) :
    Serves g (some id) (Forms.cancel g id reason) ((g.cancel now id reason).map .verdict) := by
  rw [Forms.cancel, cancel]
  cases hpending : g.pending "cancel" id with
  | error e => exact serves_fail g _ _
  | ok d =>
    obtain ⟨found, waits⟩ := pending_eq_ok_iff.1 hpending
    exact (stores_reject g _ rfl (.inr waits)).serves_of_waiting found waits

theorem serves_wait (id : String) (timeout : Option Json) :
    Serves g (some id) (Forms.wait g id timeout) ((g.wait now id timeout).map .verdict) := by
  rw [Forms.wait, wait]
  cases found : g.find? id with
  | none => exact serves_fail g _ _
  | some d =>
    cases g.limit? timeout with
    | none => exact serves_answer found
    | some t =>
      simp only
      by_cases waits : d.stage = .pendingApproval
      · have hopen : d.stage.isTerminal = false := by rw [waits]; rfl
        cases valid : timeoutFault? t with
        | none =>
          simp only [waits, Stage.isTerminal, Option.isNone_none, and_self, if_true,
            Bool.false_eq_true, if_false]
          exact ((stores_reject g _ rfl (.inr waits)).after _).serves_of_waiting found waits
        | some e =>
          simp only [hopen, Option.isNone_some, Bool.false_eq_true, and_false, if_false]
          exact serves_fail g _ _
      · -- a decision that does not wait is left alone
        rw [if_neg fun h => waits h.1]
        split
        · exact serves_answer found
        · split
          · exact serves_fail g _ _
          · exact serves_answer found

/-- **Every operation stores the forms of one decision at most**, and tells its verdict; whoever
asks for what is not there or not allowed changes nothing. -/
theorem serves_stepAmid (now : Timestamp) (meanwhile : Option Snapshot) (o : Operation)
    (unknown : g.find? g.nextId = none) :
    Serves g (o.subject? g) (g.stored now meanwhile o) (g.stepAmid now meanwhile o) := by
  cases o with
  | propose ref submission kind => exact serves_propose ref submission kind meanwhile unknown
  | approve id approver => exact serves_approve id approver meanwhile
  | deny id approver reason => exact serves_deny id approver reason
  | cancel id reason => exact serves_cancel id reason
  | wait id timeout => exact serves_wait id timeout
  | load text =>
    rw [stepAmid, step, load]
    cases g.registry.load text with
    | error e => exact serves_nil rfl rfl (fun _ hv => by cases hv) fun _ _ _ => rfl
    | ok loaded => exact serves_nil rfl rfl (fun _ hv => by cases hv) fun _ he => by cases he

end Gate

end ChangeControl
