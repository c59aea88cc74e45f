import PondMerge.Model.Run
import PondMerge.Model.Advice
import PondMerge.Guarantees.Representation
import PondMerge.Guarantees.Preservation
import PondMerge.Guarantees.Isolation
import PondMerge.Guarantees.Availability
import PondMerge.Guarantees.Validation
import PondMerge.Guarantees.Atomicity
import PondMerge.Guarantees.Reuse
import PondMerge.Guarantees.Resolution
import PondMerge.Guarantees.Repair
import PondMerge.Guarantees.Targets
import PondMerge.Guarantees.Budgets
import PondMerge.Guarantees.Containment
import PondMerge.Guarantees.Audits
import PondMerge.Guarantees.Creation
import PondMerge.Guarantees.Epochs
import PondMerge.Guarantees.Advice
import PondMerge.Guarantees.Prompts
import PondMerge.Guarantees.Borrows
import PondMerge.Guarantees.NormalForm
import PondMerge.Guarantees.Completeness
import PondMerge.Guarantees.Consolidation
import PondMerge.Guarantees.Splitting
import PondMerge.Guarantees.Reentry
import PondMerge.Guarantees.Undo
import PondMerge.Guarantees.Marks
import PondMerge.Guarantees.BinSearch
import PondMerge.Guarantees.DamagedBins
import PondMerge.Guarantees.Sorting
import PondMerge.Guarantees.Copying
import PondMerge.Guarantees.Sessions
import PondMerge.Guarantees.Installments
import PondMerge.Guarantees.Arrangements
import PondMerge.Guarantees.Teardown
import PondMerge.Guarantees.Quiescence
import PondMerge.Guarantees.Progress
