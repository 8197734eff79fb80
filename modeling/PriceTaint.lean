import PriceTaint.Main
import PriceTaint.Program.Assembly
import PriceTaint.Proofs.Program.Assembly
import PriceTaint.Proofs.Program.References
import PriceTaint.Proofs.Program.RoundTrip
import PriceTaint.Proofs.Program.Validation
import PriceTaint.Proofs.Taint.Detection
import PriceTaint.Proofs.Taint.Equivariance
import PriceTaint.Proofs.Taint.Locality
import PriceTaint.Proofs.Taint.Monotonicity
import PriceTaint.Proofs.Taint.Repetition
import PriceTaint.Proofs.Taint.Resolution
import PriceTaint.Proofs.Scan.Ranking
import PriceTaint.Proofs.Scan.Session
import PriceTaint.Proofs.Scan.Combination
import PriceTaint.Proofs.Command.Walk
import PriceTaint.Proofs.Command.Directory
import PriceTaint.Proofs.Command.MachineReadable
import PriceTaint.Proofs.Finding.Format
import PriceTaint.Proofs.Influence.Worklist
import PriceTaint.Proofs.Taint.Discovery
import PriceTaint.Proofs.Taint.Saturation
import PriceTaint.Proofs.Taint.Footprints
import PriceTaint.Proofs.Taint.Selection
import PriceTaint.Proofs.Influence.EdgeList
import PriceTaint.Proofs.Taint.Agreement
import PriceTaint.Proofs.Taint.Presentation
import PriceTaint.Proofs.Program.Omission
import PriceTaint.Proofs.Finding.RoundTrip
import PriceTaint.Proofs.Finding.Key
import PriceTaint.Proofs.Text.ByteOrder
import PriceTaint.Proofs.Scan.Catalogue
import PriceTaint.Parallel
