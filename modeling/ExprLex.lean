import ExprLex.Config.FromJson
import ExprLex.Main
import ExprLex.Program.Memory
import ExprLex.Script
import ExprLex.Proofs.Position
import ExprLex.Proofs.Running
import ExprLex.Proofs.Recognition
import ExprLex.Proofs.Numerals
import ExprLex.Proofs.Slices
import ExprLex.Proofs.Lexing
import ExprLex.Proofs.Escaping
import ExprLex.Proofs.Overlap
import ExprLex.Proofs.Partition
import ExprLex.Proofs.Respelling
import ExprLex.Proofs.Safety
import ExprLex.Proofs.Locating
import ExprLex.Proofs.Shifting
import ExprLex.Proofs.Breaks
import ExprLex.Proofs.Joining
import ExprLex.Proofs.Uncommenting
import ExprLex.Proofs.Rewinding
import ExprLex.Proofs.Drawing
import ExprLex.Proofs.Pointing
import ExprLex.Proofs.Spacing
import ExprLex.Proofs.Casing
import ExprLex.Proofs.Decoding
import ExprLex.Proofs.Denoting
import ExprLex.Proofs.Answering
import ExprLex.Proofs.Reading
import ExprLex.Proofs.Table
import ExprLex.Proofs.Rereading
import ExprLex.Proofs.Printing
import ExprLex.Proofs.Document
import ExprLex.Proofs.Advancing
import ExprLex.Proofs.Signs
import ExprLex.Proofs.Words
import ExprLex.Proofs.Borders
import ExprLex.Proofs.Trying
import ExprLex.Proofs.Scoping
import ExprLex.Proofs.Stopping
import ExprLex.Proofs.Cutting
