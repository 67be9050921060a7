import ChangeControl.Proofs.Gate.Forms
import ChangeControl.Proofs.Workflow.Keeping
/-!
The core rules at the gate.

A gate asks the workflow of a decision whether a proposal passes, and nothing else; for everything
that it keeps and tells, the name of the workflow is enough.  So where a workflow and the same
workflow without the core rules find the same, nobody can tell from the gate which of them a
decision holds.  That is the case for every transition and every commit, as long as the current
project follows the core rules: they are never what a gate rejects one of these for.

Main definitions:

* `Decision.under` — a decision that holds another workflow;
* `Gate.SameBooks`, `Step.Alike` — gates that keep, and operations that do, the same but for the
  decisions.

Main results:

* `Gate.alike_settle`, `Gate.alike_propose`, `Gate.alike_approve` — the workflow of a decision
  counts for its name and for what it finds;
* `Snapshot.keeps_core_rules` — **transitions and commits keep the core rules**, so that no gate
  rejects one for a core rule.
-/

set_option autoImplicit false

namespace ChangeControl

open Calendar (Timestamp)
open Log (Event)

/-! ### Decisions under another workflow -/

/-- The decision, but with another workflow. -/
def Decision.under (d : Decision) (w : Workflow) : Decision := { d with workflow := w }

namespace Decision

variable {d : Decision} {w : Workflow}

/-- A change that leaves the workflow of a decision does the same under every workflow. -/
theorem apply_under (d : Decision) (w : Workflow) {c : Change} (keeps : c.keepsSubject = true) :
    c.apply (d.under w) = (c.apply d).under w := by
  cases c with
  | id | workflow | proposal => cases keeps
  | kind | approval | approver | reasons | baseVersion | baseDigest | result => rfl

theorem change_under (d : Decision) (w : Workflow) {changes : List Change}
    (keeps : changes.all Change.keepsSubject = true) :
    (d.under w).change changes = (d.change changes).under w := by
  induction changes generalizing d with
  | nil => rfl
  | cons c cs ih =>
    rw [List.all_cons, Bool.and_eq_true] at keeps
    rw [change_cons, change_cons, apply_under d w keeps.1, ih (c.apply d) keeps.2]

theorem advance_under (d : Decision) (w : Workflow) (target : Stage) {changes : List Change}
    (keeps : changes.all Change.keepsSubject = true) :
    (d.under w).advance target changes = (d.advance target changes).map fun e => e.under w := by
  have hnext : (d.under w).stage.next = d.stage.next := rfl
  have hlacks : ((d.change changes).under w).lacksApproval = (d.change changes).lacksApproval := rfl
  rw [advance, advance, change_under d w keeps, hnext, hlacks]
  split
  · rfl
  · split <;> rfl

end Decision

/-! ### Operations that do the same -/

/-- The second gate keeps the same snapshot, the same records and the same files. -/
structure Gate.SameBooks (g g' : Gate) : Prop where
  store : g'.store = g.store
  audit : g'.audit = g.audit
  disk : g'.disk = g.disk

/-- The second operation gives the same answer, tells the same events, and leaves the same snapshot,
records and files. -/
structure Step.Alike {α : Type} (x y : Step α) : Prop where
  reply : y.reply = x.reply
  events : y.events = x.events
  books : Gate.SameBooks x.gate y.gate

theorem Step.Alike.after {α : Type} {x y : Step α} (h : x.Alike y) (events : List Event) :
    (x.after events).Alike (y.after events) :=
  ⟨h.reply, congrArg (events ++ ·) h.events, h.books⟩

theorem Step.Alike.map {α β : Type} {x y : Step α} (h : x.Alike y) (f : α → β) :
    (x.map f).Alike (y.map f) :=
  ⟨by rw [Step.map, Step.map, h.reply], h.events, h.books⟩

theorem Step.Alike.butFails {α β : Type} {x y : Step α} (h : x.Alike y) (e : GateError) :
    (x.butFails e : Step β).Alike (y.butFails e) :=
  ⟨by rw [Step.butFails, Step.butFails, h.reply], h.events, h.books⟩

namespace Gate

variable {now : Timestamp} {g g' : Gate} {d : Decision} {w : Workflow}

theorem SameBooks.put (h : SameBooks g g') (d e : Decision) : SameBooks (g.put d) (g'.put e) :=
  ⟨h.store, h.audit, h.disk⟩

theorem SameBooks.fail {α : Type} (h : SameBooks g g') (e : GateError) :
    Step.Alike (Step.fail g e : Step α) (.fail g' e) :=
  ⟨rfl, rfl, h⟩

/-- Of the workflow of a decision, its record keeps the name. -/
theorem auditRecord_under (name : w.name = d.workflow.name) :
    auditRecord now (d.under w) = auditRecord now d := by
  rw [auditRecord, show (d.under w).workflow.name = d.workflow.name from name]
  rfl

theorem alike_finish (h : SameBooks g g') (name : w.name = d.workflow.name) {target : Stage}
    {changes : List Change} {event : Decision → Event}
    (keeps : changes.all Change.keepsSubject = true) (same : ∀ e, event (e.under w) = event e) :
    (g.finish now d target changes event).Alike
      (g'.finish now (d.under w) target changes event) := by
  rw [finish, finish, conclude, conclude, Decision.advance_under d w target keeps]
  cases moves : d.advance target changes with
  | error e => exact h.fail _
  | ok e =>
    have kept : e.workflow = d.workflow := (Decision.precedes_of_advance keeps moves).workflow
    have hrecord : auditRecord now (e.under w) = auditRecord now e :=
      auditRecord_under (name.trans (congrArg _ kept.symm))
    simp only [Except.map, hrecord, h.audit, h.disk]
    cases (g.audit.append g.disk (auditRecord now e)).2.2 with
    | some fault => exact ⟨rfl, rfl, h.store, rfl, rfl⟩
    | none => exact ⟨rfl, congrArg ([·]) (same e), h.store, rfl, rfl⟩

theorem alike_reject (h : SameBooks g g') (name : w.name = d.workflow.name)
    (reasons : List String) :
    (g.reject now d reasons []).Alike (g'.reject now (d.under w) reasons []) :=
  alike_finish h name rfl fun _ => rfl

theorem alike_swap (h : SameBooks g g') (next : Snapshot) (expected : Json) :
    (g.swap next expected).Alike (g'.swap next expected) := by
  rw [swap, swap, h.store, h.disk]
  rcases g.store.swap g.disk next expected with ⟨result, disk⟩
  cases result with
  | error e => exact ⟨rfl, rfl, rfl, h.audit, rfl⟩
  | ok store => exact ⟨rfl, rfl, rfl, h.audit, rfl⟩

theorem alike_apply (h : SameBooks g g') (name : w.name = d.workflow.name) (result : Snapshot)
    (expected : Version) :
    (g.apply now d result expected).Alike (g'.apply now (d.under w) result expected) := by
  have hswap := alike_swap h result expected.toJson
  rw [apply, apply]
  simp only [hswap.reply, hswap.events]
  refine Step.Alike.after ?_ _
  split
  · exact alike_reject hswap.books name _
  · exact hswap.books.fail _
  · exact alike_finish hswap.books name rfl fun _ => rfl

theorem alike_intrude (h : SameBooks g g') (meanwhile : Option Snapshot) :
    (g.intrude meanwhile).Alike (g'.intrude meanwhile) := by
  cases meanwhile with
  | none => exact ⟨rfl, rfl, h⟩
  | some s =>
    rw [intrude, intrude, h.store]
    exact (alike_swap h s _).map _

theorem alike_applyAfter (h : SameBooks g g') (name : w.name = d.workflow.name)
    (meanwhile : Option Snapshot) (result : Snapshot) (expected : Version) :
    (g.applyAfter now meanwhile d result expected).Alike
      (g'.applyAfter now meanwhile (d.under w) result expected) := by
  have hintrude := alike_intrude h meanwhile
  rw [applyAfter, applyAfter]
  simp only [hintrude.reply, hintrude.events]
  refine Step.Alike.after ?_ _
  split
  · exact hintrude.books.fail _
  · exact alike_apply hintrude.books name _ _

theorem alike_park (h : SameBooks g g') (result : Snapshot) :
    (g.park d result).Alike (g'.park (d.under w) result) := by
  rw [park, park, Decision.advance_under d w _ rfl]
  cases d.advance .pendingApproval
      [.kind .critical, .approval (some .pending), .result (some result)] with
  | error e => exact h.fail _
  | ok e => exact ⟨rfl, rfl, h.put _ _⟩

/-- What follows from a validation depends on what it finds. -/
theorem alike_settle (h : SameBooks g g') (name : w.name = d.workflow.name) (x : Examination)
    {passed passed' : Snapshot → Bool → Step Verdict}
    (same : ∀ r b, (passed r b).Alike (passed' r b)) :
    (g.settle now d x passed).Alike (g'.settle now (d.under w) x passed') := by
  rw [settle, settle]
  refine Step.Alike.after ?_ _
  split
  · exact (alike_reject h name _).butFails _
  · exact alike_reject h name _
  · exact same _ _

/-! ### Proposals and approvals -/

theorem validating_under (name : w.name = d.workflow.name) (s : Snapshot) :
    Report.validating (d.under w) s = Report.validating d s := by
  rw [Report.validating, show (d.under w).workflow.name = d.workflow.name from name]
  rfl

/-- A gate takes a proposal in the same way under two workflows of one name that find the same. -/
theorem alike_propose {ref ref' : WorkflowRef} {v : Workflow} {p : Proposal}
    (hw : g.workflow? ref = .ok w) (hv : g.workflow? ref' = .ok v) (name : v.name = w.name)
    (same : v.examine g.registry.vocabulary now p g.store.current =
      w.examine g.registry.vocabulary now p g.store.current) (kind : DecisionKind)
    (meanwhile : Option Snapshot) :
    (g.propose now ref (.proposal p) kind meanwhile).Alike
      (g.propose now ref' (.proposal p) kind meanwhile) := by
  have hopening : g.opening v p kind = (g.opening w p kind).under v := rfl
  have hname : v.name = (g.opening w p kind).workflow.name := name
  have books : SameBooks ({ g with issued := g.issued + 1 }.put (g.opening w p kind))
      ({ g with issued := g.issued + 1 }.put ((g.opening w p kind).under v)) := ⟨rfl, rfl, rfl⟩
  rw [propose_eq hw, propose_eq hv, same, hopening, validating_under hname]
  refine (alike_settle books hname _ fun result critical => ?_).after _
  split
  · exact alike_park books result
  · exact alike_applyAfter books hname meanwhile result _

/-- A gate takes an approval in the same way if the decision holds another workflow of the same name
that finds the same. -/
theorem alike_approve {id : String} (found : g.find? id = some d) (name : w.name = d.workflow.name)
    (same : w.examine g.registry.vocabulary now d.proposal g.store.current =
      d.workflow.examine g.registry.vocabulary now d.proposal g.store.current)
    (approver : Option String) (meanwhile : Option Snapshot) :
    (g.approve now id approver meanwhile).Alike
      ((g.put (d.under w)).approve now id approver meanwhile) := by
  have found' : (g.put (d.under w)).find? id = some (d.under w) :=
    (mem_of_find? found).2 ▸ find?_put_self g (d.under w)
  by_cases waits : d.stage = .pendingApproval
  · have books : SameBooks (g.put (d.approvedBy approver))
        ((g.put (d.under w)).put ((d.approvedBy approver).under w)) := ⟨rfl, rfl, rfl⟩
    have hname : w.name = (d.approvedBy approver).workflow.name := name
    have hagain : (d.under w).workflow.examine g.registry.vocabulary now (d.under w).proposal
        g.store.current = d.workflow.examine g.registry.vocabulary now d.proposal
          g.store.current := same
    have hcached : cached? (d.under w) g.store.current = cached? d g.store.current := rfl
    have hput : (g.put (d.under w)).store = g.store ∧
        (g.put (d.under w)).registry = g.registry := ⟨rfl, rfl⟩
    rw [approve_eq found waits, approve_eq found' waits, hput.1, hput.2, hcached, hagain]
    refine Step.Alike.after ?_ _
    cases cached? d g.store.current with
    | some result => exact alike_applyAfter books hname meanwhile result _
    | none =>
      exact alike_settle books hname _ fun result _ =>
        alike_applyAfter books hname meanwhile result _
  · -- a decision that does not wait is left alone
    rw [approve, approve, pending, pending, found, found']
    have waits' : (d.under w).stage ≠ .pendingApproval := waits
    have books : SameBooks g (g.put (d.under w)) := ⟨rfl, rfl, rfl⟩
    simp only [waits, waits', if_false]
    exact books.fail _

end Gate

/-! ### Core rules -/

/-- **Transitions and commits keep the core rules**, and no gate turns one down for them.  On a
snapshot that follows the core rules:

* a transition leads to one that follows them, whatever its target and its effects are;
* so does a commit with a new identifier, which can be recorded;
* no invariant that is found broken on what a transition or a commit leads to is a core rule;
* a gate takes a transition or a commit that is proposed or approved just as it would if the
  workflow did not demand the core rules, as the one that `lax` stands for does not, whatever
  somebody else swaps in meanwhile; this is so where the predicates of the core rules are known, and
  where they are not, as long as no evaluation fails. -/
theorem Snapshot.keeps_core_rules {s : Snapshot} (h : s.project.FollowsCoreRules)
    (now : Timestamp) :
    (∀ t : Transition, (t.apply now s).project.FollowsCoreRules) ∧
      (∀ c : NewCommit, c.id ∉ s.project.commitIds →
        ∃ r, c.apply now s = .ok r ∧ r.project.FollowsCoreRules) ∧
      ∀ p : Proposal, (∀ m, p ≠ .taskMove m) →
        (∀ (w : Workflow) (vocabulary : Vocabulary) (r : Snapshot) (vs : List Violation),
          w.Allows vocabulary now s p r → w.violations vocabulary r.project = .ok vs →
            ∀ v ∈ vs, v.invariant.formula ∉ Core.formulas) ∧
        ∀ g : Gate, g.store.current = s →
          (∀ ref lax w kind meanwhile, g.workflow? ref = .ok w →
            g.workflow? lax = .ok w.withoutCoreRules →
            w.Conclusive g.registry.vocabulary now p s →
            (g.propose now ref (.proposal p) kind meanwhile).Alike
              (g.propose now lax (.proposal p) kind meanwhile)) ∧
          ∀ id d approver meanwhile, g.find? id = some d → d.proposal = p →
            d.workflow.Conclusive g.registry.vocabulary now p s →
            (g.approve now id approver meanwhile).Alike
              ((g.put (d.under d.workflow.withoutCoreRules)).approve now id approver
                meanwhile) := by
  refine ⟨fun t => t.followsCoreRules_apply now h, fun c new => ?_, fun p other => ⟨?_, ?_⟩⟩
  · obtain ⟨q, happly, -⟩ := NewCommit.exists_apply now new
    exact ⟨_, happly, NewCommit.followsCoreRules_apply h happly⟩
  · intro w vocabulary r vs allowed hvs
    exact Workflow.not_core_of_mem_violations (allowed.followsCoreRules h other) hvs
  · rintro g rfl
    refine ⟨?_, ?_⟩
    · intro ref lax w kind meanwhile hw hlax conclusive
      have name : w.withoutCoreRules.name = w.name := rfl
      have same := Workflow.examine_withoutCoreRules h other conclusive
      exact Gate.alike_propose hw hlax name same kind meanwhile
    · rintro id d approver meanwhile found rfl conclusive
      have name : d.workflow.withoutCoreRules.name = d.workflow.name := rfl
      have same := Workflow.examine_withoutCoreRules h other conclusive
      exact Gate.alike_approve found name same approver meanwhile

/-- A transition with both effects, one of them twice, on a task of each layer; it is proposed to a
gate for a workflow that demands the core rules. -/
theorem Snapshot.keeps_core_rules_three_layers :
    let s := Snapshot.first .epoch ⟨"Plan", [⟨"T1", .backlog, false, true⟩,
      ⟨"T2", .changelog, true, true⟩, ⟨"T3", .journal, false, true⟩], [], by decide, by decide⟩
    let t : Transition :=
      ⟨"Plan", "Build", .truth true, .truth true,
        [.journalCommitted, .archiveCompleted, .journalCommitted], false⟩
    let w : Workflow := ⟨"Delivery", ["Plan", "Build"], [t], Core.rules, []⟩
    let g : Gate := { Gate.blank with store := ⟨none, s⟩ }
    let p : Proposal := .transition "Plan" "Build"
    s.project.FollowsCoreRules ∧ (t.apply .epoch s).project.FollowsCoreRules ∧
      (g.propose .epoch (.held w) (.proposal p) .routine none).Alike
        (g.propose .epoch (.held w.withoutCoreRules) (.proposal p) .routine none) := by
  intro s t w g p
  have h : s.project.FollowsCoreRules := by decide
  have known : w.Conclusive g.registry.vocabulary .epoch p s := .inl fun q _ => Predicate.mem_all q
  obtain ⟨transition, -, gate⟩ := Snapshot.keeps_core_rules h .epoch
  exact ⟨h, transition t, ((gate p nofun).2 g rfl).1 (.held w) (.held w.withoutCoreRules) w .routine
    none rfl rfl known⟩

end ChangeControl
