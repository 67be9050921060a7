import ChangeControl.Gate.Decision
/-!
Decisions and verdicts as data.

A decision tells its proposal in words, and its snapshots by version, digest and project.

Main definitions:

* `Verdict.toJson` — a verdict as data;
* `Decision.toJson` — a decision as data.
-/

set_option autoImplicit false

namespace ChangeControl

/-- A value that may be absent, as data. -/
def optionalJson {α : Type} (f : α → Json) : Option α → Json
  | none => .null
  | some x => f x

/-- A verdict as data. -/
def Verdict.toJson (v : Verdict) : Json :=
  .obj [("status", .str v.status.name), ("decision_id", .str v.decisionId),
    ("reasons", .arr (v.reasons.map .str)), ("exit_status", .int v.status.exitStatus),
    ("snapshot_version", optionalJson (fun s => s.version.toJson) v.snapshot)]

/-- A decision as data. -/
def Decision.toJson (d : Decision) : Json :=
  .obj [("id", .str d.id), ("workflow", .str d.workflow.name),
    ("action", .str d.proposal.describe), ("kind", .str d.kind.name), ("state", .str d.stage.name),
    ("approval", optionalJson (fun a => .str a.name) d.approval),
    ("approver", optionalJson .str d.approver), ("reasons", .arr (d.reasons.map .str)),
    ("base_version", optionalJson Version.toJson d.baseVersion),
    ("base_digest", optionalJson .str d.baseDigest),
    ("result", optionalJson (fun s => s.project.toJson) d.result),
    ("is_terminal", .bool d.stage.isTerminal)]

end ChangeControl
