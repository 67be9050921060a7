import ChangeControl.Gate.Decision.Json
import ChangeControl.Gate.Operation
import ChangeControl.Gate.Start
import ChangeControl.Log.Console
import ChangeControl.Proofs.Evaluation.Arrangement
import ChangeControl.Proofs.Evaluation.Binding
import ChangeControl.Proofs.Evaluation.Witness
import ChangeControl.Proofs.Gate.Approval
import ChangeControl.Proofs.Gate.AuditFile
import ChangeControl.Proofs.Gate.Chain
import ChangeControl.Proofs.Gate.CoreRules
import ChangeControl.Proofs.Gate.Course
import ChangeControl.Proofs.Gate.Critical
import ChangeControl.Proofs.Gate.Growth
import ChangeControl.Proofs.Gate.Journal
import ChangeControl.Proofs.Gate.Kind
import ChangeControl.Proofs.Gate.Lifecycle
import ChangeControl.Proofs.Gate.Upheld
import ChangeControl.Proofs.Gate.Wording
import ChangeControl.Proofs.Rule.FreeNames
import ChangeControl.Proofs.Rule.Places
import ChangeControl.Proofs.Rule.Reach
import ChangeControl.Proofs.Rule.Spelling
import ChangeControl.Proofs.Rule.Traversal
import ChangeControl.Proofs.Snapshot.Digest
import ChangeControl.Proofs.Storage.Restart
import ChangeControl.Proofs.Workflow.Contract
import ChangeControl.Proofs.Workflow.Missing
import ChangeControl.Proofs.Workflow.Reports
import ChangeControl.Proofs.Workflow.Restating
import ChangeControl.Rule.Formula.Json
import ChangeControl.Workflow.Json
