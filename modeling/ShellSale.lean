import ShellSale.Main
import ShellSale.Rehearsal.Operation
import ShellSale.Sale.Timeline
import ShellSale.Proofs.Pipeline.Log
import ShellSale.Proofs.Pipeline.Steps
import ShellSale.Proofs.Submission.Stream
import ShellSale.Proofs.Submission.Waiting
import ShellSale.Proofs.Submission.Moments
import ShellSale.Proofs.Submission.Dropping
import ShellSale.Proofs.Submission.Progress
import ShellSale.Proofs.Batch.Running
import ShellSale.Proofs.Batch.Tasks
import ShellSale.Proofs.Batch.Work
import ShellSale.Proofs.Batch.Collecting
import ShellSale.Proofs.Batch.Alone
import ShellSale.Proofs.Batch.Gathering
import ShellSale.Proofs.Pool.Basic
import ShellSale.Proofs.Pool.Nonces
import ShellSale.Proofs.Pool.Schedule
import ShellSale.Proofs.Pool.Repeats
import ShellSale.Proofs.Program.Completion
import ShellSale.Proofs.Rehearsal.Waits
import ShellSale.Proofs.Sale.Reuse
import ShellSale.Proofs.Sale.Opening
import ShellSale.Proofs.Pipeline.Heeding
import ShellSale.Proofs.Batch.Heeding
import ShellSale.Proofs.Batch.Reporting
import ShellSale.Proofs.Batch.Accounting
import ShellSale.Proofs.Batch.Sequence
import ShellSale.Proofs.Batch.Aligned
import ShellSale.Proofs.Batch.OneByOne
import ShellSale.Proofs.Batch.Deadlines
import ShellSale.Proofs.Batch.Provenance
import ShellSale.Proofs.Rehearsal.Outcomes
import ShellSale.Proofs.Rehearsal.Closing
import ShellSale.Proofs.Sale.Heeding
import ShellSale.Proofs.Sale.Remarks
import ShellSale.Proofs.Sale.Credit
import ShellSale.Proofs.Sale.Admin
import ShellSale.Proofs.Sale.Listed
import ShellSale.Proofs.Sale.Tickets
import ShellSale.Proofs.Sale.Funding
import ShellSale.Proofs.Program.Interrupts
import ShellSale.Proofs.Sale.Ranking
import ShellSale.Proofs.Sale.Incubation
import ShellSale.Proofs.Plan.Reading
import ShellSale.Proofs.Plan.Positional
import ShellSale.Proofs.Sale.Keys
import ShellSale.Proofs.Sale.StorageKeys
