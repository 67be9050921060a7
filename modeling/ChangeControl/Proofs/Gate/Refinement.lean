import ChangeControl.Proofs.Gate.History
/-!
The project changes by applied decisions only.

Seen from outside, a gate is very simple: its snapshot stays as it is, or one decision is applied
and the snapshot is replaced by what that decision's workflow admits for its proposal on the very
snapshot that is replaced.  It makes no difference whether the decision is applied at once, with the
result of an earlier validation, or with that of a second one, nor what happens to other decisions
in between.

Main definitions:

* `Gate.Rests`, `Gate.Applies` — the two things that an operation may do to the snapshot;
* `Gate.Leads` — where applying some decisions, one after the other, leads.

Main results:

* `Gate.Sound.rests_or_applies` — every operation does one of the two;
* `Gate.Leads.version` — versions count the decisions that are applied;
* `Gate.advances_by_applied` — **the same for whole histories**.
-/

set_option autoImplicit false

namespace ChangeControl

open Calendar (Timestamp)

namespace Gate

variable {P Q : Timestamp → Prop} {now : Timestamp} {g g' : Gate} {d e : Decision} {o : Operation}

/-! ### Definitions -/

/-- The snapshot stays as it is, and no decision is applied. -/
structure Rests (g g' : Gate) : Prop where
  current : g'.store.current = g.store.current
  applied : g'.applied.Perm g.applied

/-- The decision `d` and no other one is applied, and the snapshot is replaced by what the workflow
of `d` admits for its proposal.  The moment of the validation is one of `P`. -/
structure Applies (P : Timestamp → Prop) (g g' : Gate) (d : Decision) : Prop where
  applied : g'.applied.Perm (d :: g.applied)
  waiting : ∀ c ∈ g.decisions, c.id = d.id → c.stage = .pendingApproval
  result : d.result = some g'.store.current
  admits : ∃ t, P t ∧
    d.workflow.Admits g.registry.vocabulary t d.proposal g.store.current g'.store.current

theorem Applies.mem_decisions (h : Applies P g g' d) : d ∈ g'.decisions :=
  (List.mem_filter.1 (h.applied.symm.subset List.mem_cons_self)).1

/-- Applying some decisions in their order leads from one snapshot to another: the proposal of each
is admitted on the snapshot that the ones before lead to. -/
inductive Leads (vocabulary : Vocabulary) (P : Timestamp → Prop) :
    Snapshot → List Decision → Snapshot → Prop
  | refl (s : Snapshot) : Leads vocabulary P s [] s
  | cons {s s' s'' : Snapshot} {d : Decision} {ds : List Decision} {t : Timestamp} (moment : P t)
      (admits : d.workflow.Admits vocabulary t d.proposal s s') (result : d.result = some s')
      (rest : Leads vocabulary P s' ds s'') : Leads vocabulary P s (d :: ds) s''

theorem Leads.eq_of_nil {vocabulary : Vocabulary} {s r : Snapshot}
    (h : Leads vocabulary P s [] r) : r = s := by
  cases h
  rfl

/-- Every decision that is applied counts the version up by one. -/
theorem Leads.version {vocabulary : Vocabulary} {s r : Snapshot} {ds : List Decision}
    (h : Leads vocabulary P s ds r) : r.version.toInt = s.version.toInt + ds.length := by
  induction h with
  | refl s => simp
  | @cons s s' s'' d ds t moment admits result rest ih =>
    have hversion : s'.version.toInt = s.version.toInt + 1 := by
      rw [admits.version]
      rfl
    rw [ih, hversion, List.length_cons]
    omega

/-! ### One operation -/

/-- The predicates that a gate knows stay the same. -/
theorem vocabulary_step (now : Timestamp) (g : Gate) (o : Operation) :
    (g.step now o).gate.registry.vocabulary = g.registry.vocabulary := by
  cases move_step now g o with
  | idle same => exact same.vocabulary
  | settles _ _ enters | parks _ _ _ enters | approves _ _ _ enters | refuses _ _ _ _ enters =>
    exact enters.vocabulary

/-- **An operation leaves the snapshot alone, or it applies one decision.** -/
theorem Sound.rests_or_applies (sound : Sound P g) (hnow : P now) (o : Operation) :
    Rests g (g.step now o).gate ∨ ∃ d, Applies P g (g.step now o).gate d := by
  rcases (move_step now g o).idle_or_entry sound hnow with idle | ⟨e, entry⟩
  · refine .inl ⟨idle.current, ?_⟩
    rw [applied, applied, idle.decisions]
  · have hperm := entry.perm_filter sound (fun c => c.stage == .applied) fun c hc => by
      rw [eq_of_beq hc]
      rfl
    by_cases happlied : e.stage = .applied
    · refine .inr ⟨e, ?_, fun c hc same => (entry.earlier c hc same).1,
        entry.enters.applied happlied, entry.admits happlied⟩
      simpa [applied, happlied] using hperm
    · refine .inl ⟨entry.enters.unapplied happlied, ?_⟩
      simpa [applied, happlied] using hperm

/-! ### Histories -/

/-- The decisions that a history applies lead from the first snapshot to the last one. -/
theorem Sound.leads {h : History} (sound : Sound P g) (moments : ∀ m ∈ h, P m.1) :
    ∃ ds, (g.after h).applied.Perm (g.applied ++ ds) ∧
      Leads g.registry.vocabulary P g.store.current ds (g.after h).store.current := by
  induction h generalizing g with
  | nil => exact ⟨[], by rw [List.append_nil]; exact .refl _, .refl _⟩
  | cons m h ih =>
    obtain ⟨now, o⟩ := m
    rw [List.forall_mem_cons] at moments
    obtain ⟨ds, hperm, leads⟩ := ih (sound.step moments.1 o) moments.2
    rw [vocabulary_step] at leads
    rw [after_cons]
    rcases sound.rests_or_applies moments.1 o with rests | ⟨d, applies⟩
    · refine ⟨ds, hperm.trans (rests.applied.append_right ds), ?_⟩
      rwa [rests.current] at leads
    · -- the decision that is applied now comes before those that are applied later
      obtain ⟨t, moment, admits⟩ := applies.admits
      refine ⟨d :: ds, ?_, .cons moment admits applies.result leads⟩
      exact hperm.trans ((applies.applied.append_right ds).trans List.perm_middle.symm)

/-- **The project changes by applied decisions only**: after any history, the next operation leaves
the snapshot alone or applies one decision, which was proposed to the workflow that it holds, and
the applied decisions lead from the first snapshot to the current one, whose version counts them. -/
theorem advances_by_applied (g : Gate) (h : History) :
    (∀ now o, Rests (g.fresh.after h) (g.fresh.after (h ++ [(now, o)])) ∨
      ∃ d kind, Applies (· ∈ now :: h.map Prod.fst) (g.fresh.after h)
          (g.fresh.after (h ++ [(now, o)])) d ∧
        Proposed g.fresh (h ++ [(now, o)]) d kind) ∧
    (∃ ds, ds.Perm (g.fresh.after h).applied ∧
      Leads g.registry.vocabulary (· ∈ h.map Prod.fst) g.store.current ds
        (g.fresh.after h).store.current) ∧
    (g.fresh.after h).store.current.version.toInt =
      g.store.current.version.toInt + (g.fresh.after h).applied.length := by
  have hmoments : ∀ m ∈ h, m.1 ∈ h.map Prod.fst := by
    intro m hm
    exact List.mem_map_of_mem hm
  obtain ⟨ds, hperm, leads⟩ := (sound_fresh (· ∈ h.map Prod.fst) g).leads hmoments
  have hperm : (g.fresh.after h).applied.Perm ds := hperm
  refine ⟨?_, ⟨ds, hperm.symm, leads⟩, ?_⟩
  · intro now o
    have hsound : Sound (· ∈ now :: h.map Prod.fst) (g.fresh.after h) := by
      apply sound_after_fresh
      intro m hm
      exact List.mem_cons_of_mem _ (hmoments m hm)
    rw [after_concat]
    rcases hsound.rests_or_applies List.mem_cons_self o with rests | ⟨d, applies⟩
    · exact .inl rests
    · have hmem : d ∈ (g.fresh.after (h ++ [(now, o)])).decisions := by
        rw [after_concat]
        exact applies.mem_decisions
      obtain ⟨kind, proposed⟩ := proposed_of_mem hmem
      exact .inr ⟨d, kind, applies, proposed⟩
  · rw [leads.version, hperm.length_eq]
    rfl

end Gate

end ChangeControl
