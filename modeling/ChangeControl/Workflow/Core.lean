import ChangeControl.Rule.Document.Parser
import ChangeControl.Workflow
/-!
The core rules.

Four rules about layers and commits hold in every project.  They belong to every workflow, whether
its text restates them or not.

Main definitions:

* `Core.lines`, `Core.text` — the rules as rule text;
* `Core.rules` — the rules as invariants.

Main statements:

* `Core.parse_lines` — each line of the text declares the rule in its place.
-/

set_option autoImplicit false

namespace ChangeControl.Core

open Rule (Formula Term)

/-- The core rules as rule text, line by line. -/
def lines : List String := [
  "invariant that backlog_open: task in backlog -> not completed[task]\n",
  "invariant that changelog_completed: task in changelog -> completed[task]\n",
  "invariant that journal_entries_committed: task in journal -> committed[task]\n",
  "invariant that validated_commit_revertible: validated[commit] -> revertible[commit]\n"]

/-- The core rules as rule text. -/
def text : String := String.join lines

/-- Every task of a layer satisfies a formula about the variable `task`. -/
def layerRule (layer : String) (body : Formula) : Formula :=
  .all "task" "tasks" (.implies (.member (.var "task") layer false) body)

/-- A predicate of one variable. -/
def holdsOf (predicate var : String) : Formula := .pred predicate [.var var]

/-- Tasks of the backlog are open. -/
def backlogOpen : Invariant :=
  ⟨"backlog_open", layerRule "backlog" (.not (holdsOf "completed" "task")), .invariant⟩

/-- Tasks of the changelog are completed. -/
def changelogCompleted : Invariant :=
  ⟨"changelog_completed", layerRule "changelog" (holdsOf "completed" "task"), .invariant⟩

/-- Tasks of the journal are committed. -/
def journalEntriesCommitted : Invariant :=
  ⟨"journal_entries_committed", layerRule "journal" (holdsOf "committed" "task"), .invariant⟩

/-- Validated commits can be reverted. -/
def validatedCommitRevertible : Invariant :=
  ⟨"validated_commit_revertible",
    .all "commit" "commits"
      (.implies (holdsOf "validated" "commit") (holdsOf "revertible" "commit")), .invariant⟩

/-- The core rules. -/
def rules : List Invariant :=
  [backlogOpen, changelogCompleted, journalEntriesCommitted, validatedCommitRevertible]

/-- The core rule with a name. -/
def find? (name : String) : Option Invariant := rules.find? fun r => r.name == name

/-- The formula blocks as invariants. -/
def invariantsOf (d : Rule.Document) : List Invariant :=
  d.formulas.map fun f => ⟨f.name, f.formula, f.kind⟩

/-- Each line declares no workflow, and exactly the core rule in its place. -/
theorem parse_lines :
    lines.map (fun line =>
        (Rule.parse line).toOption.map fun d => (d.workflows, invariantsOf d)) =
      rules.map fun r => some ([], [r]) := by
  decide +kernel

end ChangeControl.Core
