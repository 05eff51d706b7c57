import SegregatedFit.Machine
import SegregatedFit.Heap.Map
import SegregatedFit.Backing.Provided
import SegregatedFit.Proofs.Layout
import SegregatedFit.Proofs.Linked
import SegregatedFit.Proofs.Segment
import SegregatedFit.Proofs.Arrangement
import SegregatedFit.Proofs.Gap
import SegregatedFit.Proofs.Coalescing
import SegregatedFit.Proofs.Carving
import SegregatedFit.Proofs.Contract
import SegregatedFit.Proofs.Growth
import SegregatedFit.Proofs.Search
import SegregatedFit.Proofs.Walk
import SegregatedFit.Proofs.Audit
import SegregatedFit.Proofs.Payload
import SegregatedFit.Proofs.Views
import SegregatedFit.Proofs.Request
import SegregatedFit.Proofs.Creation
import SegregatedFit.Proofs.Session
import SegregatedFit.Proofs.Isolation
import SegregatedFit.Proofs.Noninterference
import SegregatedFit.Proofs.Refusal
import SegregatedFit.Proofs.SelfCheck
import SegregatedFit.Proofs.Finding
import SegregatedFit.Proofs.AuditFault
import SegregatedFit.Proofs.Course
import SegregatedFit.Proofs.Canonical
import SegregatedFit.Proofs.Bounds
import SegregatedFit.Proofs.Damage
import SegregatedFit.Proofs.Inversion
import SegregatedFit.Proofs.Written
import SegregatedFit.Proofs.Vacancy
import SegregatedFit.Proofs.Released
import SegregatedFit.Proofs.BestFit
import SegregatedFit.Proofs.Census
import SegregatedFit.Proofs.Mirrored
import SegregatedFit.Proofs.Paired
import SegregatedFit.Proofs.Relocation
import SegregatedFit.Proofs.SharedBreak
import SegregatedFit.Proofs.Neighbours
import SegregatedFit.Proofs.Coexistence
import SegregatedFit.Proofs.Shown
import SegregatedFit.Proofs.Allocation
import SegregatedFit.Proofs.Absorption
import SegregatedFit.Proofs.Moving
import SegregatedFit.Proofs.Zeroing
import SegregatedFit.Proofs.AuditEffort
import SegregatedFit.Proofs.Diagnosis
import SegregatedFit.Proofs.Sequences
import SegregatedFit.Proofs.Tidiness
import SegregatedFit.Proofs.Reuse
import SegregatedFit.Proofs.Supply
import SegregatedFit.Proofs.Rounding
import SegregatedFit.Proofs.CreationOutcome
import SegregatedFit.Proofs.Codec
