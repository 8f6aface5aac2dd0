import JaiFrontend.Main
import JaiFrontend.Outline
import JaiFrontend.Proofs.BodyStatements
import JaiFrontend.Proofs.Branch
import JaiFrontend.Proofs.BrokenItem
import JaiFrontend.Proofs.BrokenStatement
import JaiFrontend.Proofs.CallerLocationTree
import JaiFrontend.Proofs.Concatenation
import JaiFrontend.Proofs.CutOffText
import JaiFrontend.Proofs.EnumItems
import JaiFrontend.Proofs.ErasedSource
import JaiFrontend.Proofs.ExpressionEnds
import JaiFrontend.Proofs.Frame
import JaiFrontend.Proofs.IntegerNumerals
import JaiFrontend.Proofs.LayoutFree
import JaiFrontend.Proofs.LineBreaks
import JaiFrontend.Proofs.Lookahead
import JaiFrontend.Proofs.Lossless
import JaiFrontend.Proofs.MissingSemicolon
import JaiFrontend.Proofs.NearestElse
import JaiFrontend.Proofs.Placed
import JaiFrontend.Proofs.Positions
import JaiFrontend.Proofs.ShownTokens
import JaiFrontend.Proofs.StringEnds
import JaiFrontend.Proofs.TreeText
import JaiFrontend.Proofs.WellFormed
import JaiFrontend.Syntax.Reading
