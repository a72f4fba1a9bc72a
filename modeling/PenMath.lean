import PenMath.Coord
import PenMath.Decimal
import PenMath.Json.Numeral
import PenMath.Json.Quoted
import PenMath.Json.Scan
import PenMath.Json.Token
import PenMath.Json.Document
import PenMath.Json.Value
import PenMath.Json.Record
import PenMath.Stored.Glyph
import PenMath.Rect
import PenMath.Glyph
import PenMath.Fault
import PenMath.Relabel
import PenMath.Region.Line
import PenMath.Tree.Linear
import PenMath.Tree.Basic
import PenMath.Region.Stack
import PenMath.Region.Parse
import PenMath.Formula.Parsed
import PenMath.Request
import PenMath.Registry.Basic
import PenMath.Session.Basic
import PenMath.Stored.Formula
import PenMath.Stored.Tree
import PenMath.Stored.Outcome
import PenMath.CommandLine
import PenMath.Main
import PenMath.Proofs.Region.Bars
import PenMath.Proofs.Relabel.NormalForm
import PenMath.Proofs.Sort
import PenMath.Proofs.Region.Arrangement
import PenMath.Proofs.Region.Derivation
import PenMath.Proofs.Tree.Ink
import PenMath.Proofs.Region.Conservation
import PenMath.Proofs.Formula.Conservation
import PenMath.Proofs.Arithmetic.Line
import PenMath.Proofs.Arithmetic.Shape
import PenMath.Proofs.Arithmetic.Text
import PenMath.Proofs.Registry.Propagation
import PenMath.Proofs.Registry.Overwrite
import PenMath.Proofs.Registry.Watchers
import PenMath.Proofs.Region.Words
import PenMath.Proofs.Session.Answer
import PenMath.Proofs.Region.WellFormed
import PenMath.Proofs.Declaration.LeftSide
import PenMath.Proofs.Formula.WellFormed
import PenMath.Proofs.Session.Run
import PenMath.Proofs.Session.Frame
import PenMath.Proofs.Session.Batch
import PenMath.Proofs.Json.Record
import PenMath.Proofs.Json.Tokens
import PenMath.Proofs.Json.Document
import PenMath.Proofs.Json.Written
import PenMath.Proofs.Stored.Outcome
import PenMath.Proofs.Formula.Made
import PenMath.Proofs.Declaration.Sound
import PenMath.Proofs.Session.Reachable
import PenMath.Proofs.Tree.Joined
import PenMath.Proofs.Region.Joined
import PenMath.Proofs.Declaration.Joined
import PenMath.Proofs.Formula.KnownNames
import PenMath.Proofs.Relabel.Blocks
import PenMath.Proofs.Relabel.OneByOne
import PenMath.Proofs.Region.WidestBar
import PenMath.Proofs.Region.Segments
import PenMath.Proofs.Region.Longest
import PenMath.Proofs.Formula.NameOrder
import PenMath.Proofs.Region.SingleLine
import PenMath.Proofs.Formula.LiveDrawing
