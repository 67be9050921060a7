import ChangeControl.Proofs.Gate.Move
import Mathlib.Data.List.Chain
/-!
The forms in which decisions are stored.

While an operation runs, it stores its decision several times: a proposal stores it when it is
created, when it is validated, and when it is parked or made; an approval stores it with the
approval on it, and again when it is made.  Whoever looks at the gate meanwhile sees these forms.
This module lists them for every operation, also for one that somebody interferes with.  The lists
follow the operations branch by branch, and ask the gate the same questions.

Main definitions:

* `Decision.Precedes` — the forms that may be stored one after the other;
* `Gate.storeAll`, `Gate.about` — storing some forms, and those of one decision;
* `Gate.stepAmid` — an operation, when somebody else may swap in a snapshot meanwhile;
* `Gate.stored` — the forms that an operation stores, in their order.

Main results:

* `Decision.precedes_of_advance` — moving a decision leads to a form that may follow;
* `Gate.find?_of_storeAll` — looking up finds the last form that was stored.
-/

set_option autoImplicit false

namespace ChangeControl

open Calendar (Timestamp)
open Storage (SwapError)

/-! ### Forms that follow each other -/

/-- The decision `e` may be stored in the place of the decision `d`: it asks for the same, and it is
at the same stage or at one that comes next. -/
structure Decision.Precedes (d e : Decision) : Prop where
  id : e.id = d.id
  workflow : e.workflow = d.workflow
  proposal : e.proposal = d.proposal
  stage : e.stage = d.stage ∨ e.stage ∈ d.stage.next

/-- A decision precedes what it is moved to, as long as it is about the same. -/
theorem Decision.precedes_of_advance {d e : Decision} {target : Stage} {changes : List Change}
    (keeps : changes.all Change.keepsSubject = true) (moves : d.advance target changes = .ok e) :
    d.Precedes e := by
  obtain ⟨next, -, rfl⟩ := (advance_eq_ok_iff _ _ _ _).1 moves
  obtain ⟨hid, hworkflow, hproposal⟩ := subject_change d keeps
  exact ⟨hid, hworkflow, hproposal, .inr next⟩

theorem Decision.decisionId_verdict (d : Decision) : d.verdict.decisionId = d.id := by
  unfold verdict
  cases d.stage <;> rfl

/-- Forms that are stored one after the other have one identifier. -/
theorem Decision.id_of_isChain {d : Decision} {forms : List Decision}
    (chain : (d :: forms).IsChain Precedes) : ∀ e ∈ forms, e.id = d.id := by
  induction forms generalizing d with
  | nil => simp
  | cons f forms ih =>
    obtain ⟨first, rest⟩ := List.isChain_cons_cons.1 chain
    intro e he
    rcases List.mem_cons.1 he with rfl | he
    · exact first.id
    · exact (ih rest e he).trans first.id

/-- The error blames whoever asked: what is asked for is unknown, of the wrong type, or not allowed
at the stage that the decision is at. -/
def GateError.isMisuse : GateError → Bool
  | foreignProposal _ | unknownWorkflow _ | unknownDecision _ | notPending .. | refused _
  | timeoutNotNumber => true
  | evaluation _ | load _ | swap _ | storage _ | timeoutTooLarge => false

/-- The decision that an operation creates or names. -/
def Operation.subject? (g : Gate) : Operation → Option String
  | .propose .. => some g.nextId
  | .approve id _ | .deny id _ _ | .cancel id _ | .wait id _ => some id
  | .load _ => none

namespace Gate

/-! ### The forms that are stored -/

/-- The forms of one decision. -/
def about (id : String) (forms : List Decision) : List Decision :=
  forms.filter fun d => d.id == id

/-- The decisions after some forms were stored, one after the other. -/
def storeAll (forms : List Decision) (ds : List Decision) : List Decision :=
  forms.foldl (fun ds d => putIn d ds) ds

namespace Forms

/-- The form in which a decision is stored when it moves. -/
def move (d : Decision) (target : Stage) (changes : List Change) : List Decision :=
  match d.advance target changes with
  | .error _ => []
  | .ok d => [d]

/-- The form in which a decision is stored when it is rejected. -/
def reject (d : Decision) (reasons : List String) (changes : List Change) : List Decision :=
  move d .rejected (changes ++ [.reasons reasons])

/-- The form in which a decision is stored when it is to be applied. -/
def apply (g : Gate) (d : Decision) (result : Snapshot) (expected : Version) : List Decision :=
  match (g.swap result expected.toJson).reply with
  | .error (.swap (.stale expected current)) =>
    reject d ["project changed while applying: " ++ (SwapError.stale expected current).message] []
  | .error _ => []
  | .ok _ => move d .applied [.result (some result)]

/-- The same, after somebody else may have swapped in a snapshot. -/
def applyAfter (g : Gate) (meanwhile : Option Snapshot) (d : Decision) (result : Snapshot)
    (expected : Version) : List Decision :=
  match (g.intrude meanwhile).reply with
  | .error _ => []
  | .ok () => apply (g.intrude meanwhile).gate d result expected

/-- The form in which a decision is stored when it is to wait. -/
def park (d : Decision) (result : Snapshot) : List Decision :=
  move d .pendingApproval [.kind .critical, .approval (some .pending), .result (some result)]

/-- What follows from a validation: the form of a rejected decision, or the forms that `passed`
gives. -/
def settle (d : Decision) (x : Examination) (passed : Snapshot → Bool → List Decision) :
    List Decision :=
  match x.finding with
  | .error e => reject d ["evaluation error: " ++ e.message] []
  | .ok (.failed reasons) => reject d reasons []
  | .ok (.passed result critical) => passed result critical

/-- The forms in which a decision that was just created is stored. -/
def validate (now : Timestamp) (g : Gate) (d : Decision) (meanwhile : Option Snapshot) :
    List Decision :=
  match d.advance .validating (Change.base g.store.current) with
  | .error _ => []
  | .ok d =>
    d :: settle d ((g.put d).examine now d) fun result critical =>
      if d.kind = .critical ∨ critical = true then park d result
      else applyAfter (g.put d) meanwhile d result g.store.current.version

/-- The forms in which the decision about a proposal is stored. -/
def propose (now : Timestamp) (g : Gate) (ref : WorkflowRef) (submission : Submission)
    (kind : DecisionKind) (meanwhile : Option Snapshot) : List Decision :=
  match submission with
  | .foreign _ => []
  | .proposal p =>
    match g.workflow? ref with
    | .error _ => []
    | .ok w =>
      let d := Decision.new g.nextId w p kind
      d :: validate now { g.put d with issued := g.issued + 1 } d meanwhile

/-- The forms in which a decision is stored when it is approved. -/
def approve (now : Timestamp) (g : Gate) (id : String) (approver : Option String)
    (meanwhile : Option Snapshot) : List Decision :=
  match g.pending "approve" id with
  | .error _ => []
  | .ok d =>
    let d := d.change [.approval (some .approved), .approver approver]
    let g := g.put d
    d ::
      match cached? d g.store.current with
      | some result => applyAfter g meanwhile d result g.store.current.version
      | none =>
        settle d (g.examine now d) fun result _ =>
          applyAfter g meanwhile d result g.store.current.version

/-- The form in which a decision is stored when it is denied. -/
def deny (g : Gate) (id : String) (approver : Option String) (reason : String) : List Decision :=
  match g.pending "deny" id with
  | .error _ => []
  | .ok d =>
    reject d ["denied by " ++ approver.getD "None" ++ ": " ++ reason]
      [.approval (some .denied), .approver approver]

/-- The form in which a decision is stored when it is cancelled. -/
def cancel (g : Gate) (id reason : String) : List Decision :=
  match g.pending "cancel" id with
  | .error _ => []
  | .ok d => reject d [reason] []

/-- The form in which a decision is stored when the time is up. -/
def wait (g : Gate) (id : String) (timeout : Option Json) : List Decision :=
  match g.find? id, g.limit? timeout with
  | some d, some t =>
    if d.stage = .pendingApproval ∧ (timeoutFault? t).isNone then
      reject d ["approval timed out after " ++ t.display ++ "s"] []
    else []
  | _, _ => []

end Forms

/-- One operation at the moment `now`, when somebody else swaps in the snapshot `meanwhile` just
before the gate swaps, if there is one. -/
def stepAmid (now : Timestamp) (g : Gate) (meanwhile : Option Snapshot) : Operation → Step Reply
  | .propose ref submission kind => (g.propose now ref submission kind meanwhile).map .verdict
  | .approve id approver => (g.approve now id approver meanwhile).map .verdict
  | .deny id approver reason => g.step now (.deny id approver reason)
  | .cancel id reason => g.step now (.cancel id reason)
  | .wait id timeout => g.step now (.wait id timeout)
  | .load text => g.step now (.load text)

theorem stepAmid_none (now : Timestamp) (g : Gate) (o : Operation) :
    g.stepAmid now none o = g.step now o := by
  cases o <;> rfl

/-- The forms that an operation stores, in their order. -/
def stored (now : Timestamp) (g : Gate) (meanwhile : Option Snapshot) : Operation → List Decision
  | .propose ref submission kind => Forms.propose now g ref submission kind meanwhile
  | .approve id approver => Forms.approve now g id approver meanwhile
  | .deny id approver reason => Forms.deny g id approver reason
  | .cancel id reason => Forms.cancel g id reason
  | .wait id timeout => Forms.wait g id timeout
  | .load _ => []

variable {g g' : Gate} {d e : Decision} {forms later : List Decision} {id : String}

/-! ### Forms of one decision -/

@[simp] theorem about_nil (id : String) : about id [] = [] := rfl

theorem about_append (id : String) (forms later : List Decision) :
    about id (forms ++ later) = about id forms ++ about id later :=
  List.filter_append ..

theorem about_cons_self (d : Decision) (forms : List Decision) :
    about d.id (d :: forms) = d :: about d.id forms :=
  List.filter_cons_of_pos (by simp)

theorem about_cons_of_ne (forms : List Decision) (ne : d.id ≠ id) :
    about id (d :: forms) = about id forms :=
  List.filter_cons_of_neg (by simpa using ne)

theorem about_eq_self (same : ∀ d ∈ forms, d.id = id) : about id forms = forms := by
  refine List.filter_eq_self.2 ?_
  intro d hd
  simpa using same d hd

theorem about_eq_nil (ne : ∀ d ∈ forms, d.id ≠ id) : about id forms = [] := by
  refine List.filter_eq_nil_iff.2 ?_
  intro d hd
  simpa using ne d hd

/-- Forms of one decision are not about another one. -/
theorem about_eq_nil_of_same {other : String} (same : ∀ d ∈ forms, d.id = id) (ne : other ≠ id) :
    about other forms = [] := by
  refine about_eq_nil ?_
  intro d hd
  exact (same d hd).trans_ne ne.symm

/-- After some forms were stored, looking up finds the last one with the identifier. -/
theorem find?_of_storeAll (decisions : g'.decisions = storeAll forms g.decisions) (id : String) :
    g'.find? id = (about id forms).getLast?.or (g.find? id) := by
  induction forms generalizing g with
  | nil =>
    rw [find?, decisions]
    rfl
  | cons e forms ih =>
    rw [ih (g := g.put e) decisions]
    by_cases same : e.id = id
    · obtain rfl := same
      rw [find?_put_self, about_cons_self, List.getLast?_cons, Option.or_some, Option.some_or]
    · rw [find?_put_of_ne g e (Ne.symm same), about_cons_of_ne forms same]

theorem find?_of_about_eq_nil (decisions : g'.decisions = storeAll forms g.decisions)
    (none : about id forms = []) : g'.find? id = g.find? id := by
  rw [find?_of_storeAll decisions, none]
  rfl

end Gate

end ChangeControl
