import BoundedProbing.Main
import BoundedProbing.Table.Outline
import BoundedProbing.Memo
import BoundedProbing.KeyRange
import BoundedProbing.Proofs.Window
import BoundedProbing.Proofs.Search
import BoundedProbing.Proofs.Valid
import BoundedProbing.Proofs.Insertion
import BoundedProbing.Proofs.Run
import BoundedProbing.Proofs.Saturation
import BoundedProbing.Proofs.KeyMap
import BoundedProbing.Proofs.Crowding
import BoundedProbing.Proofs.Mixing
import BoundedProbing.Proofs.Homes
import BoundedProbing.Proofs.Narrow
import BoundedProbing.Proofs.SetRun
import BoundedProbing.Proofs.Membership
import BoundedProbing.Proofs.Overwriting
import BoundedProbing.Proofs.Growth
import BoundedProbing.Proofs.Contract
import BoundedProbing.Proofs.Iteration
import BoundedProbing.Proofs.Agreement
import BoundedProbing.Proofs.Shortcut
import BoundedProbing.Proofs.Fitting
import BoundedProbing.Proofs.Unwrapped
import BoundedProbing.Proofs.Guarded.Safety
import BoundedProbing.Proofs.Traversal
import BoundedProbing.Proofs.Statistics
import BoundedProbing.Proofs.InsertionOrder
import BoundedProbing.Proofs.SlotMap
import BoundedProbing.Proofs.Chart
import BoundedProbing.Proofs.Construction
import BoundedProbing.Proofs.Demonstration
import BoundedProbing.Proofs.Messages
