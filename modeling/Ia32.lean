import Ia32.Main
import Ia32.Proofs.Acceptance
import Ia32.Proofs.OpcodeMap
import Ia32.Proofs.Dispatch
import Ia32.Proofs.Answer
import Ia32.Proofs.Layout
import Ia32.Proofs.Execution
import Ia32.Proofs.Frame
import Ia32.Proofs.Run
import Ia32.Proofs.Locality
import Ia32.Proofs.Relocation
import Ia32.Proofs.Budget
import Ia32.Proofs.Cycle
import Ia32.Proofs.EffectiveAddress
import Ia32.Proofs.Cells
import Ia32.Proofs.Blocks
import Ia32.Proofs.RegisterParts
import Ia32.Proofs.Alu
import Ia32.Proofs.Moves
import Ia32.Proofs.Combinations
import Ia32.Proofs.Involution
import Ia32.Proofs.Loading
import Ia32.Proofs.History
import Ia32.Proofs.Journal
import Ia32.Proofs.Padding
import Ia32.Proofs.Accounting
import Ia32.Proofs.Text
import Ia32.Proofs.CommandLine
import Ia32.Proofs.Checked.Arithmetic
import Ia32.Proofs.Checked.Storage
import Ia32.Proofs.Checked.Decoding
import Ia32.Proofs.Checked.Execution
import Ia32.Proofs.Checked.Run
import Ia32.Proofs.Encodings
import Ia32.Proofs.SignExtension
import Ia32.Proofs.Directions
import Ia32.Proofs.OperandSize
import Ia32.Proofs.Unmapped
