import CallContracts.Request
import CallContracts.Proofs.Failure
import CallContracts.Proofs.Chain
import CallContracts.Proofs.Unbound
import CallContracts.Proofs.Inert
import CallContracts.Proofs.Algebra
import CallContracts.Proofs.Reattachment
import CallContracts.Proofs.Immutable
import CallContracts.Proofs.ClassSigned
import CallContracts.Proofs.Stacking
import CallContracts.Proofs.EntryOrder
import CallContracts.Proofs.Alike
import CallContracts.Proofs.Plan
import CallContracts.Proofs.Boundary
import CallContracts.Proofs.Connectives
import CallContracts.Proofs.Detached
import CallContracts.Proofs.Keywords
import CallContracts.Proofs.Rendering
import CallContracts.Proofs.Repeated
import CallContracts.Proofs.Checkers
import CallContracts.Proofs.Records
import CallContracts.Proofs.Filling
import CallContracts.Proofs.Listed
import CallContracts.Proofs.Partition
import CallContracts.Proofs.Layers
import CallContracts.Proofs.Environment
import CallContracts.Proofs.Outermost
