/-!
Commits known to a project.

Main definitions:

* `Commit`.
-/

set_option autoImplicit false

namespace ChangeControl

/-- A commit. -/
structure Commit where
  id : String
  message : String
  /-- The commit passed a gate. -/
  validated : Bool
  /-- The commit that this one undoes. -/
  reverts : Option String
  /-- The digest of the project that the commit was applied on, to which it can be reverted. -/
  revertTarget : Option String
deriving DecidableEq, Repr

end ChangeControl
