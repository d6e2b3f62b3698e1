import Typings.Main
import Typings.Proofs.Compile.Attribution
import Typings.Proofs.Config.HostModules
import Typings.Proofs.Eval.Assignment
import Typings.Proofs.Eval.Chain
import Typings.Proofs.Eval.Confinement
import Typings.Proofs.Eval.Equality
import Typings.Proofs.Eval.FieldOrder
import Typings.Proofs.Eval.Inheritance
import Typings.Proofs.Eval.Lengths
import Typings.Proofs.Eval.Parentheses
import Typings.Proofs.Eval.Properties
import Typings.Proofs.Eval.Session
import Typings.Proofs.Eval.Written
import Typings.Proofs.Load.ClassSource
import Typings.Proofs.Load.Evaluation
import Typings.Proofs.Load.ImportOrder
import Typings.Proofs.Recover.Annotation
import Typings.Proofs.Recover.Members
import Typings.Proofs.Recover.Partition
import Typings.Proofs.Recover.Patching
import Typings.Proofs.Recover.Report
import Typings.Proofs.Recover.RuleNames
import Typings.Proofs.Render.Clash
import Typings.Proofs.Render.Closed
import Typings.Proofs.Syntax.Balance
import Typings.Proofs.Syntax.Bound
import Typings.Proofs.Syntax.Captures
import Typings.Proofs.Syntax.ClassText
import Typings.Proofs.Syntax.LineBreak
import Typings.Proofs.Syntax.Opaque
import Typings.Proofs.Syntax.Precedence
import Typings.Proofs.Syntax.SpanNesting
import Typings.Proofs.Syntax.Totality
import Typings.Proofs.Syntax.Uncounted
import Typings.Proofs.Token.Bodies
import Typings.Proofs.Token.Escaping
import Typings.Proofs.Token.Placement
import Typings.Proofs.Token.Printing
import Typings.Proofs.Token.Quoting
import Typings.Proofs.Token.Substitution
import Typings.Proofs.Token.Tiling
import Typings.Text.Utf8
import Typings.Proofs.Render.Reading
