import ChangeControl.Proofs.Gate.Move
/-!
What every operation keeps.

A waiting decision keeps the result of its validation, and an approval takes that result if the
version of the current snapshot is still the one that the proposal was validated on.  This is right
because of an invariant: the result that is kept was admitted on the very snapshot that had that
version, and versions only grow.  This module states the invariant, shows that every operation keeps
it, and reads off what one operation can do to a gate that satisfies it.

Main definitions:

* `Decision.Continues` — a decision at a later time;
* `Gate.Parked`, `Gate.Sound` — the invariant, for one waiting decision and for the gate;
* `Gate.Entry` — what it means for an operation to leave one decision in a new form.

Main results:

* `Gate.Move.idle_or_entry` — **an operation enters one decision at most**, which was not made
  before, and which is applied only with what its workflow admits on the current snapshot;
* `Gate.Sound.step` — every operation keeps the invariant.
-/

set_option autoImplicit false

namespace ChangeControl

open Calendar (Timestamp)

namespace Decision

/-- The decision `e` is the decision `d` at a later time: what was asked for stays, a critical
decision stays critical, and a decision that is made stays as it is. -/
structure Continues (d e : Decision) : Prop where
  id : e.id = d.id
  workflow : e.workflow = d.workflow
  proposal : e.proposal = d.proposal
  kind : d.kind = .critical → e.kind = .critical
  made : d.stage.isTerminal = true → e = d

theorem Continues.refl (d : Decision) : d.Continues d := ⟨rfl, rfl, rfl, fun h => h, fun _ => rfl⟩

theorem Continues.trans {d e f : Decision} (h : d.Continues e) (h' : e.Continues f) :
    d.Continues f where
  id := h'.id.trans h.id
  workflow := h'.workflow.trans h.workflow
  proposal := h'.proposal.trans h.proposal
  kind := fun critical => h'.kind (h.kind critical)
  made := fun terminal => by
    obtain rfl := h.made terminal
    exact h'.made terminal

/-- A later form of a decision that is not made, which asks for the same. -/
theorem Continues.of_isOpen {d e : Decision} (h : d.IsOpen) (id : e.id = d.id)
    (workflow : e.workflow = d.workflow) (proposal : e.proposal = d.proposal)
    (kind : e.kind = d.kind) : d.Continues e := by
  refine ⟨id, workflow, proposal, ?_, ?_⟩
  · intro critical
    rw [kind, critical]
  · intro terminal
    rw [h.isTerminal] at terminal
    exact absurd terminal (by decide)

end Decision

namespace Gate

variable {P : Timestamp → Prop} {now : Timestamp} {g g' : Gate} {d e : Decision} {o : Operation}

/-! ### The invariant -/

/-- The decision is critical and keeps a result, which is not younger than the current snapshot; if
nothing has changed since, that result is admitted now.  The moment of its validation is one of
`P`. -/
structure Parked (P : Timestamp → Prop) (g : Gate) (d : Decision) : Prop where
  kind : d.kind = .critical
  kept : ∃ v r, d.baseVersion = some v ∧ d.result = some r ∧
    v.toInt ≤ g.store.current.version.toInt ∧
      (v.toInt = g.store.current.version.toInt →
        ∃ t, P t ∧ d.workflow.Admits g.registry.vocabulary t d.proposal g.store.current r)

/-- The invariant of a gate: identifiers are numbers given so far and are not repeated, and waiting
decisions are parked. -/
structure Sound (P : Timestamp → Prop) (g : Gate) : Prop where
  nodup : (g.decisions.map Decision.id).Nodup
  numbered : ∀ d ∈ g.decisions, ∃ n < g.issued, d.id = "d" ++ toString (n + 1)
  parked : ∀ d ∈ g.decisions, d.stage = .pendingApproval → Parked P g d

/-- What is taken from a parked decision was admitted on the current snapshot. -/
theorem Parked.admits_of_cached {r : Snapshot} (h : Parked P g d)
    (hr : cached? d g.store.current = some r) :
    ∃ t, P t ∧ d.workflow.Admits g.registry.vocabulary t d.proposal g.store.current r := by
  obtain ⟨v, s, hv, hs, -, same⟩ := h.kept
  rw [cached?, hv, hs] at hr
  split at hr
  · next hbase =>
    obtain rfl := Option.some.inj hr
    exact same (Option.some.inj hbase)
  · simp at hr

/-- While nothing changes, a parked decision has a result to take. -/
theorem Parked.cached_of_version (h : Parked P g d)
    (hbase : d.baseVersion.map Version.toInt = some g.store.current.version.toInt) :
    ∃ r, d.result = some r ∧ cached? d g.store.current = some r := by
  obtain ⟨v, r, -, hr, -⟩ := h.kept
  exact ⟨r, hr, by rw [cached?, if_pos hbase, hr]⟩

/-- A decision stays parked while the snapshot stays or its version grows. -/
theorem Parked.keep (h : Parked P g d) (vocabulary : g'.registry.vocabulary = g.registry.vocabulary)
    (current : g'.store.current = g.store.current ∨
      g'.store.current.version.toInt = g.store.current.version.toInt + 1) : Parked P g' d := by
  obtain ⟨v, r, hv, hr, hle, same⟩ := h.kept
  refine ⟨h.kind, v, r, hv, hr, ?_⟩
  rw [vocabulary]
  rcases current with hcurrent | hversion
  · rw [hcurrent]
    exact ⟨hle, same⟩
  · -- the version has grown, and the kept result is not taken any more
    rw [hversion]
    refine ⟨by omega, ?_⟩
    intro hv
    exact absurd hv (by omega)

/-! ### Identifiers -/

theorem toString_nat_inj {m n : Nat} (h : toString m = toString n) : m = n := by
  -- reading the digits gives the number back
  have hdigits := congrArg (fun s => Nat.ofDigitChars 10 s.toList 0) h
  simpa using hdigits

/-- The next identifier was not given before. -/
theorem Sound.nextId_ne (h : Sound P g) (hd : d ∈ g.decisions) : d.id ≠ g.nextId := by
  obtain ⟨n, hn, hid⟩ := h.numbered d hd
  intro same
  rw [hid, nextId, String.append_right_inj] at same
  have := toString_nat_inj same
  omega

theorem Sound.eq_of_id (h : Sound P g) (hd : d ∈ g.decisions) (he : e ∈ g.decisions)
    (same : d.id = e.id) : d = e := by
  have hfound := (find?_eq_some_iff h.nodup).2 ⟨hd, same⟩
  rw [(find?_eq_some_iff h.nodup).2 ⟨he, rfl⟩] at hfound
  exact (Option.some.inj hfound).symm

/-! ### One operation -/

/-- An operation leads from `g` to `g'` by leaving the decision `e` in a new form. -/
structure Entry (P : Timestamp → Prop) (now : Timestamp) (g g' : Gate) (e : Decision) : Prop where
  enters : Enters now { g with issued := g'.issued } e g'
  issued : g.issued ≤ g'.issued
  numbered : ∃ n < g'.issued, e.id = "d" ++ toString (n + 1)
  earlier : ∀ c ∈ g.decisions, c.id = e.id → c.stage = .pendingApproval ∧ c.Continues e
  parked : e.stage = .pendingApproval → Parked P g' e
  admits : e.stage = .applied → ∃ t, P t ∧
    e.workflow.Admits g.registry.vocabulary t e.proposal g.store.current g'.store.current

/-- What a new decision is entered as. -/
theorem Sound.entry_of_opening (sound : Sound P g)
    (enters : Enters now { g with issued := g.issued + 1 } e g') (id : e.id = g.nextId)
    (parked : e.stage = .pendingApproval → Parked P g' e)
    (admits : ∀ r, e.stage = .applied → e.result = some r → ∃ t, P t ∧
      e.workflow.Admits g.registry.vocabulary t e.proposal g.store.current r) :
    Entry P now g g' e := by
  have hissued : g'.issued = g.issued + 1 := enters.issued
  refine ⟨hissued ▸ enters, by omega, ⟨g.issued, by omega, id⟩, ?_, parked, ?_⟩
  · intro c hc same
    exact absurd (same.trans id) (sound.nextId_ne hc)
  · intro applied
    exact admits _ applied (enters.applied applied)

/-- What a waiting decision is entered as. -/
theorem Sound.entry_of_waiting (sound : Sound P g) {id : String} (found : g.find? id = some d)
    (waits : d.stage = .pendingApproval) (enters : Enters now g e g') (continues : d.Continues e)
    (parked : e.stage = .pendingApproval → Parked P g' e)
    (admits : ∀ r, e.stage = .applied → e.result = some r → ∃ t, P t ∧
      e.workflow.Admits g.registry.vocabulary t e.proposal g.store.current r) :
    Entry P now g g' e := by
  obtain ⟨hd, -⟩ := mem_of_find? found
  have hissued : g'.issued = g.issued := enters.issued
  obtain ⟨n, hn, hid⟩ := sound.numbered d hd
  refine ⟨hissued ▸ enters, by omega, ⟨n, by omega, continues.id.trans hid⟩, ?_, parked, ?_⟩
  · intro c hc same
    obtain rfl := sound.eq_of_id hc hd (same.trans continues.id)
    exact ⟨waits, continues⟩
  · intro applied
    exact admits _ applied (enters.applied applied)

/-- **An operation enters one decision at most.** -/
theorem Move.idle_or_entry (m : Move now g o g') (sound : Sound P g) (hnow : P now) :
    Idle g g' ∨ ∃ e, Entry P now g g' e := by
  cases m with
  | idle same => exact .inl same
  | @settles ref p kind w e _ reads fate enters =>
    refine .inr ⟨e, ?_⟩
    cases fate with
    | stays _ => exact sound.entry_of_opening enters rfl nofun nofun
    | rejected reasons => exact sound.entry_of_opening enters rfl nofun nofun
    | applied fit =>
      refine sound.entry_of_opening enters rfl nofun ?_
      intro r _ hr
      obtain rfl := Option.some.inj hr
      exact ⟨now, hnow, fit.1⟩
  | @parks ref p kind w r _ reads admits critical enters =>
    refine .inr ⟨_, sound.entry_of_opening enters rfl ?_ nofun⟩
    intro _
    -- parking changes neither the snapshot nor the predicates that the result was admitted with
    have hcurrent : g'.store.current = g.store.current := enters.unapplied nofun
    have hvocabulary : g'.registry.vocabulary = g.registry.vocabulary := enters.vocabulary
    refine ⟨rfl, g.store.current.version, r, rfl, rfl, ?_⟩
    rw [hcurrent, hvocabulary]
    exact ⟨Int.le_refl _, fun _ => ⟨now, hnow, admits⟩⟩
  | @approves id approver d e _ found waits fate enters =>
    have hparked := sound.parked d (mem_of_find? found).1 waits
    have hopen : d.IsOpen := .inr waits
    refine .inr ⟨e, ?_⟩
    cases fate with
    | stays _ =>
      refine sound.entry_of_waiting found waits enters (.of_isOpen hopen rfl rfl rfl rfl) ?_ ?_
      · intro _
        -- the result could not be written, and the snapshot is what it was
        have hcurrent := enters.unapplied (by rw [Decision.approvedBy, waits]; decide)
        have hkept := hparked.keep enters.vocabulary (.inl hcurrent)
        exact ⟨hkept.kind, hkept.kept⟩
      · intro r applied
        rw [Decision.approvedBy, waits] at applied
        exact absurd applied (by decide)
    | rejected reasons =>
      exact sound.entry_of_waiting found waits enters (.of_isOpen hopen rfl rfl rfl rfl) nofun nofun
    | applied fit =>
      refine sound.entry_of_waiting found waits enters (.of_isOpen hopen rfl rfl rfl rfl) nofun ?_
      intro r _ hr
      -- either nothing has changed since the validation, or the proposal was validated again
      obtain rfl := Option.some.inj hr
      rcases fit with cached | admits
      · exact hparked.admits_of_cached cached
      · exact ⟨now, hnow, admits⟩
  | @refuses _ id d c reasons _ target found waits form enters =>
    have hopen : d.IsOpen := .inr waits
    refine .inr ⟨_, sound.entry_of_waiting found waits enters ?_ nofun nofun⟩
    rcases form with rfl | ⟨approver, rfl⟩
    · exact .of_isOpen hopen rfl rfl rfl rfl
    · exact .of_isOpen hopen rfl rfl rfl rfl

namespace Entry

/-- The current snapshot stays, or the decision is applied and the version grows by one. -/
theorem current (h : Entry P now g g' e) :
    g'.store.current = g.store.current ∨
      g'.store.current.version.toInt = g.store.current.version.toInt + 1 := by
  by_cases applied : e.stage = .applied
  · obtain ⟨t, -, admits⟩ := h.admits applied
    rw [admits.version]
    exact .inr rfl
  · exact .inl (h.enters.unapplied applied)

theorem mem_decisions_iff (h : Entry P now g g' e) (sound : Sound P g) :
    d ∈ g'.decisions ↔ d = e ∨ d ∈ g.decisions ∧ d.id ≠ e.id := by
  rw [h.enters.decisions]
  exact mem_putIn_iff sound.nodup

/-- Entering a decision keeps the invariant. -/
theorem sound (h : Entry P now g g' e) (sound : Sound P g) : Sound P g' := by
  refine ⟨?_, ?_, ?_⟩
  · rw [h.enters.decisions]
    exact nodup_putIn sound.nodup
  · intro d hd
    rcases (h.mem_decisions_iff sound).1 hd with rfl | ⟨hd, -⟩
    · exact h.numbered
    · obtain ⟨n, hn, hid⟩ := sound.numbered d hd
      exact ⟨n, Nat.lt_of_lt_of_le hn h.issued, hid⟩
  · intro d hd waits
    rcases (h.mem_decisions_iff sound).1 hd with rfl | ⟨hd, -⟩
    · exact h.parked waits
    · exact (sound.parked d hd waits).keep h.enters.vocabulary h.current

/-- What holds of a decision only when it is made is new with the entered decision only. -/
theorem perm_filter (h : Entry P now g g' e) (sound : Sound P g) (p : Decision → Bool)
    (hp : ∀ c, p c = true → c.stage.isTerminal = true) :
    (g'.decisions.filter p).Perm ((if p e then [e] else []) ++ g.decisions.filter p) := by
  have hothers : (g.decisions.filter fun c => c.id != e.id).filter p = g.decisions.filter p := by
    rw [List.filter_filter]
    refine List.filter_congr ?_
    intro c hc
    by_cases same : c.id = e.id
    · -- the earlier form of the entered decision was waiting
      have hfalse : p c = false := by
        rw [Bool.eq_false_iff]
        intro hpc
        have hterminal := hp c hpc
        rw [(h.earlier c hc same).1] at hterminal
        exact absurd hterminal (by decide)
      rw [hfalse, Bool.false_and]
    · simp [same]
  have hperm := (perm_putIn (e := e) sound.nodup).filter p
  rw [h.enters.decisions]
  refine hperm.trans (List.Perm.of_eq ?_)
  rw [List.filter_cons, hothers]
  cases p e <;> rfl

end Entry

/-- An operation that does nothing keeps the invariant. -/
theorem Idle.sound (h : Idle g g') (sound : Sound P g) : Sound P g' := by
  refine ⟨?_, ?_, ?_⟩
  · rw [h.decisions]
    exact sound.nodup
  · intro d hd
    rw [h.issued]
    exact sound.numbered d (h.decisions ▸ hd)
  · intro d hd waits
    exact (sound.parked d (h.decisions ▸ hd) waits).keep h.vocabulary (.inl h.current)

/-- **Every operation keeps the invariant.** -/
theorem Sound.step (sound : Sound P g) (hnow : P now) (o : Operation) :
    Sound P (g.step now o).gate := by
  rcases (move_step now g o).idle_or_entry sound hnow with idle | ⟨e, entry⟩
  · exact idle.sound sound
  · exact entry.sound sound

end Gate

end ChangeControl
