/-!
One text inside another.

Main definitions:

* `Text.occursIn` — a run of characters occurs in a longer one;
* `Text.mentions` — the same for texts.

Main statements:

* `Text.occursIn_iff` — the test decides the relation `<:+:` of consecutive sublists.
-/

set_option autoImplicit false

namespace ChangeControl.Text

/-- Whether `part` stands somewhere in a list of characters. -/
def occursIn (part : List Char) : List Char → Bool
  | [] => part.isEmpty
  | c :: cs => part.isPrefixOf (c :: cs) || occursIn part cs

theorem occursIn_iff (part whole : List Char) : occursIn part whole = true ↔ part <:+: whole := by
  induction whole with
  | nil => simp [occursIn]
  | cons c cs ih => simp [occursIn, ih, List.infix_cons_iff]

/-- Whether the text `part` stands somewhere in the text `whole`. -/
def mentions (whole part : String) : Bool :=
  occursIn part.toList whole.toList

theorem mentions_iff (whole part : String) :
    mentions whole part = true ↔ part.toList <:+: whole.toList :=
  occursIn_iff _ _

end ChangeControl.Text
