import FieldPath.Proofs.ClassTable.Assignability
import FieldPath.Proofs.ClassTable.Hiding
import FieldPath.Proofs.ClassTable.Statics
import FieldPath.Proofs.Machine.Heights
import FieldPath.Proofs.Machine.Interning
import FieldPath.Proofs.Machine.Lines
import FieldPath.Proofs.Machine.Requests
import FieldPath.Proofs.Number.Widening
import FieldPath.Proofs.Path.Lifecycle
import FieldPath.Proofs.Path.Mismatch
import FieldPath.Proofs.Path.Parsing
import FieldPath.Proofs.Path.SlotRanges
import FieldPath.Proofs.Path.TypedUpdates
import FieldPath.Proofs.Rule.Erasure
import FieldPath.Proofs.Store.Finality
import FieldPath.Proofs.Store.References
import FieldPath.Rule
