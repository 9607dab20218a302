import Hermetic.Main
import Hermetic.Source.Session
import Hermetic.Proofs.Machine.GotLoad
import Hermetic.Proofs.Module.Helpers
import Hermetic.Proofs.Statement.Lossless
import Hermetic.Proofs.Operand.Expr
import Hermetic.Proofs.Operand.Memory
import Hermetic.Proofs.Operand.Pieces
import Hermetic.Proofs.Operand.Written
import Hermetic.Proofs.Operand.Indexed
import Hermetic.Proofs.Operand.RoundTrip
import Hermetic.Proofs.Sealing.Output
import Hermetic.Proofs.Sealing.Instructions
import Hermetic.Proofs.Module.Separate
import Hermetic.Proofs.Machine.Arm
import Hermetic.Proofs.Machine.Assembler
import Hermetic.Proofs.Machine.PageLoad
import Hermetic.Proofs.Module.Aliases
import Hermetic.Proofs.Module.Values
import Hermetic.Proofs.Sealing.Resolved
import Hermetic.Proofs.Machine.Branches
import Hermetic.Proofs.Sealing.LocalLabels
import Hermetic.Proofs.Module.LocalNames
import Hermetic.Proofs.Module.Outside
import Hermetic.Proofs.Module.HelperLabels
import Hermetic.Proofs.Symbol.Claimed
import Hermetic.Proofs.Module.LabelNames
import Hermetic.Proofs.Sealing.Names
import Hermetic.Proofs.Statement.LastLine
import Hermetic.Proofs.Sealing.LastLine
import Hermetic.Proofs.Module.LastLine
import Hermetic.Proofs.Module.Order
import Hermetic.Proofs.Machine.Flags
import Hermetic.Proofs.Module.NumericLabels
import Hermetic.Proofs.Module.Storage
import Hermetic.Proofs.Module.Copied
import Hermetic.Proofs.CommandLine.Run
import Hermetic.Proofs.Checked.Module
import Hermetic.Proofs.Symbol.Sites
import Hermetic.Proofs.Statement.Append
import Hermetic.Proofs.Statement.LineEnds
import Hermetic.Proofs.Machine.PagePair
import Hermetic.Proofs.Sealing.Parts
import Hermetic.Proofs.Machine.Vectors
import Hermetic.Proofs.Statement.Faults
import Hermetic.Proofs.Archive.Written
import Hermetic.Proofs.Operand.Terms
import Hermetic.Proofs.Statement.Nesting
import Hermetic.Proofs.Statement.Detected
import Hermetic.Proofs.Source.Session
