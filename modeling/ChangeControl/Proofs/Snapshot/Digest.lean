import ChangeControl.Proofs.Snapshot.RoundTrip
import Mathlib.Data.Set.Function
/-!
The digest identifies the project.

The canonical text of a project is read back to its data with the fields sorted, and from these the
project is read back.  So no two projects have one canonical text, and what tells two digests apart
is only whether the hash function tells the texts apart.

Main results:

* `Project.read?_canonicalText` — the canonical text stands for the sorted data of the project;
* `Project.canonicalText_injective` — **no two projects have one canonical text**;
* `Snapshot.digest_identifies_project` — **no two projects have one digest**, as long as no two of
  the texts have one, and version and clock do not enter.
-/

set_option autoImplicit false

namespace ChangeControl

open Calendar (Timestamp)

/-- The canonical text of a project stands for its data with the fields sorted. -/
theorem Project.read?_canonicalText (p : Project) :
    Json.read? p.canonicalText = some p.toJson.sortKeys := by
  have read := Json.read?_print Json.Style.isPlain_canonical p.regular_toJson.sortKeys ""
    Json.blank_nil
  rwa [String.append_empty] at read

/-- **No two projects have one canonical text.** -/
theorem Project.canonicalText_injective : Function.Injective Project.canonicalText := by
  intro p q same
  have data : p.toJson.sortKeys = q.toJson.sortKeys := by
    have read := p.read?_canonicalText
    rw [same, q.read?_canonicalText] at read
    exact (Option.some.inj read).symm
  have read := p.ofJson_sortKeys
  rw [data, q.ofJson_sortKeys] at read
  exact (Except.ok.inj read).symm

/-- **The digest identifies the project.**  Two projects have one canonical text only if they are
the same; and of snapshots among whose canonical texts no two have one hash, two have the same
digest exactly if they have the same project, whatever their versions and clocks are. -/
theorem Snapshot.digest_identifies_project :
    (∀ p q : Project, p.canonicalText = q.canonicalText ↔ p = q) ∧
    ∀ texts : Set String, Set.InjOn Digest.sha256Hex texts → ∀ s t : Snapshot,
      s.project.canonicalText ∈ texts → t.project.canonicalText ∈ texts →
      (s.digest = t.digest ↔ s.project = t.project) := by
  have texts_eq_iff : ∀ p q : Project, p.canonicalText = q.canonicalText ↔ p = q := fun p q =>
    Project.canonicalText_injective.eq_iff
  refine ⟨texts_eq_iff, ?_⟩
  intro texts injective s t hs ht
  calc s.digest = t.digest
      ↔ s.project.canonicalText = t.project.canonicalText := injective.eq_iff hs ht
    _ ↔ s.project = t.project := texts_eq_iff s.project t.project

/-- A project with one commit, which undoes another one or nothing. -/
def oneCommit (reverts : Option String) : Project :=
  ⟨"A", [], [⟨"c1", "😀 \"x\"", true, reverts, none⟩], by simp, by simp⟩

example : (oneCommit (some "")).canonicalText =
    "\x7b\"commits\":[\x7b\"id\":\"c1\",\"message\":\"\\ud83d\\ude00 \\\"x\\\"\"," ++
      "\"reverts\":\"\",\"validated\":true\x7d],\"state\":\"A\",\"tasks\":[]\x7d" := by
  decide +kernel

/-- An empty text and nothing are told apart, and an older snapshot of a project is not told from a
younger one. -/
theorem digest_oneCommit :
    (Snapshot.mk (oneCommit none) (.number 7) .leapNight).digest ≠
      (Snapshot.first .leapNight (oneCommit (some ""))).digest ∧
    (Snapshot.mk (oneCommit none) (.number 7) .leapNight).digest =
      (Snapshot.first .leapNight (oneCommit none)).digest := by
  have injective : Set.InjOn Digest.sha256Hex
      {(oneCommit none).canonicalText, (oneCommit (some "")).canonicalText} := by
    have differ : Digest.sha256Hex (oneCommit none).canonicalText ≠
        Digest.sha256Hex (oneCommit (some "")).canonicalText := by decide +kernel
    rintro a (rfl | rfl) b (rfl | rfl) same
    · rfl
    · exact absurd same differ
    · exact absurd same.symm differ
    · rfl
  have identifies := Snapshot.digest_identifies_project.2 _ injective
    (Snapshot.mk (oneCommit none) (.number 7) .leapNight)
  constructor
  · intro same
    have equal : oneCommit none = oneCommit (some "") :=
      (identifies (.first .leapNight (oneCommit (some ""))) (.inl rfl) (.inr rfl)).1 same
    exact absurd (congrArg Project.commits equal) (by decide)
  · exact (identifies (.first .leapNight (oneCommit none)) (.inl rfl) (.inl rfl)).2 rfl

end ChangeControl
