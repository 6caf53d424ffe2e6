import ProjectAutomation.Relational.Table
import ProjectAutomation.Relational.Agreement
import ProjectAutomation.Relational.Transaction
import ProjectAutomation.Relational.Select
import ProjectAutomation.Relational.Constraint
import ProjectAutomation.Transition.Run
import ProjectAutomation.Text.Separator
import ProjectAutomation.Text.Rfc3339
import ProjectAutomation.Idempotency.Ledger
import ProjectAutomation.Idempotency.Service
import ProjectAutomation.Lease.Fencing
import ProjectAutomation.Progress.Sequence
import ProjectAutomation.Progress.Queue
import ProjectAutomation.Recurrence.Rounds
import ProjectAutomation.Recurrence.Next
import ProjectAutomation.Paging.Keyset
import ProjectAutomation.Codec.Format
import ProjectAutomation.Spec.Queries
import ProjectAutomation.Spec.World
import ProjectAutomation.Spec.Sample
import ProjectAutomation.Spec.Calls
import ProjectAutomation.Spec.Authority
import ProjectAutomation.Spec.Endpoints
import ProjectAutomation.Spec.Texts
import ProjectAutomation.Spec.Wire
import ProjectAutomation.Spec.Schemas
import ProjectAutomation.Spec.Configuration
import ProjectAutomation.Spec.Tools
import ProjectAutomation.Proof.Schedule
import ProjectAutomation.Proof.Commands
import ProjectAutomation.Proof.Intake
import ProjectAutomation.Proof.Lease
import ProjectAutomation.Proof.Step
import ProjectAutomation.Proof.Structure
import ProjectAutomation.Proof.CommandLedger
import ProjectAutomation.Proof.DispatchLedger
import ProjectAutomation.Proof.AttemptLedger
import ProjectAutomation.Proof.Keys
import ProjectAutomation.Proof.Receipts
import ProjectAutomation.Proof.Finality
import ProjectAutomation.Proof.Requests
import ProjectAutomation.Proof.Redelivery
import ProjectAutomation.Proof.Timers
import ProjectAutomation.Proof.Recurring
import ProjectAutomation.Proof.Revisions
import ProjectAutomation.Proof.Snapshots
import ProjectAutomation.Proof.Sufficiency
import ProjectAutomation.Proof.NoStall
import ProjectAutomation.Proof.Isolation
import ProjectAutomation.Proof.Served
import ProjectAutomation.Proof.TimerAnswers
import ProjectAutomation.Proof.Matching
import ProjectAutomation.Proof.Effects
import ProjectAutomation.Proof.Turns
import ProjectAutomation.Proof.Resume
import ProjectAutomation.Proof.Calls
import ProjectAutomation.Proof.Batch
import ProjectAutomation.Proof.Authority
import ProjectAutomation.Proof.Endpoints
import ProjectAutomation.Proof.Flushing
import ProjectAutomation.Proof.FirstFire
import ProjectAutomation.Proof.Numbers
import ProjectAutomation.Proof.Pages
import ProjectAutomation.Proof.Texts
import ProjectAutomation.Proof.Ordering
import ProjectAutomation.Proof.Drain
import ProjectAutomation.Proof.Firing
import ProjectAutomation.Proof.Wire
import ProjectAutomation.Proof.Schemas
import ProjectAutomation.Proof.Answers
import ProjectAutomation.Proof.Tools
import ProjectAutomation.Proof.Constraints
import ProjectAutomation.Proof.Once
import ProjectAutomation.Proof.ReadBack
import ProjectAutomation.Proof.Outbox
import ProjectAutomation.Proof.Inspection
import ProjectAutomation.Proof.Configuration
