import FatArrow.Binary.Format
import FatArrow.Calendar.Gregorian
import FatArrow.Calendar.Moment
import FatArrow.Calendar.Ticks
import FatArrow.Context
import FatArrow.Decimal.Read
import FatArrow.Decimal.Shortest
import FatArrow.Digest.Xxh64
import FatArrow.Host.Basic
import FatArrow.Host.Error
import FatArrow.Host.Member
import FatArrow.Host.Native
import FatArrow.Host.TypeOrder
import FatArrow.Meaning.Evaluate
import FatArrow.Meaning.Operator
import FatArrow.Proofs.Binary.Bits
import FatArrow.Proofs.Binary.Order
import FatArrow.Proofs.Binary.Rounding
import FatArrow.Proofs.Binary.Unsigned
import FatArrow.Proofs.Calendar.Fields
import FatArrow.Proofs.Calendar.Gregorian
import FatArrow.Proofs.Decimal.Literal
import FatArrow.Proofs.Decimal.Nearest
import FatArrow.Proofs.Decimal.Shortest
import FatArrow.Proofs.Meaning.Agreement
import FatArrow.Proofs.Meaning.Arithmetic
import FatArrow.Proofs.Meaning.Coercion
import FatArrow.Proofs.Meaning.Comparison
import FatArrow.Proofs.Meaning.Folding
import FatArrow.Proofs.Meaning.HasType
import FatArrow.Proofs.Meaning.Inlining
import FatArrow.Proofs.Meaning.MixedComparison
import FatArrow.Proofs.Meaning.Replacement
import FatArrow.Proofs.Meaning.Safety
import FatArrow.Proofs.Meaning.Unreferenced
import FatArrow.Proofs.Meaning.Wrapping
import FatArrow.Proofs.Outcome
import FatArrow.Proofs.Printing.Mirror
import FatArrow.Proofs.Printing.ReadAs
import FatArrow.Proofs.Printing.ReadLambda
import FatArrow.Proofs.Printing.ReadNumber
import FatArrow.Proofs.Printing.ReadPart
import FatArrow.Proofs.Printing.ReadTerm
import FatArrow.Proofs.Printing.ReadType
import FatArrow.Proofs.Printing.Scanned
import FatArrow.Proofs.Printing.Shape
import FatArrow.Proofs.Printing.Signs
import FatArrow.Proofs.Registry.Closed
import FatArrow.Proofs.Registry.Composition
import FatArrow.Proofs.Registry.Hidden
import FatArrow.Proofs.Registry.Inheritance
import FatArrow.Proofs.Registry.Install
import FatArrow.Proofs.Registry.Overloads
import FatArrow.Proofs.Registry.Reachable
import FatArrow.Proofs.Registry.Remade
import FatArrow.Proofs.Registry.Repeats
import FatArrow.Proofs.Standard.Calls
import FatArrow.Proofs.Standard.Described
import FatArrow.Proofs.Standard.Extremes
import FatArrow.Proofs.Standard.Membership
import FatArrow.Proofs.Standard.Positions
import FatArrow.Proofs.Standard.References
import FatArrow.Proofs.Standard.RoundTrip
import FatArrow.Proofs.Standard.Types
import FatArrow.Proofs.Syntax.Checked
import FatArrow.Proofs.Syntax.Cursor
import FatArrow.Proofs.Syntax.Exact
import FatArrow.Proofs.Syntax.Faultless
import FatArrow.Proofs.Syntax.Grouping
import FatArrow.Proofs.Syntax.IntegerText
import FatArrow.Proofs.Syntax.Items
import FatArrow.Proofs.Syntax.LiteralText
import FatArrow.Proofs.Syntax.Literals
import FatArrow.Proofs.Syntax.Lossless
import FatArrow.Proofs.Syntax.Numerals
import FatArrow.Proofs.Syntax.Precedence
import FatArrow.Proofs.Syntax.Reader
import FatArrow.Proofs.Syntax.Scan
import FatArrow.Proofs.Syntax.Slices
import FatArrow.Proofs.Syntax.Steady
import FatArrow.Proofs.Syntax.Sure
import FatArrow.Proofs.Syntax.Taken
import FatArrow.Proofs.Syntax.Traced
import FatArrow.Proofs.Syntax.Trial
import FatArrow.Proofs.Syntax.Undone
import FatArrow.Proofs.Syntax.Written
import FatArrow.Proofs.Text.Letter
import FatArrow.Proofs.Tree.Capture
import FatArrow.Proofs.Tree.FreshName
import FatArrow.Proofs.Tree.KeptParams
import FatArrow.Proofs.Tree.Nodes
import FatArrow.Proofs.Tree.NormalForm
import FatArrow.Proofs.Tree.Path
import FatArrow.Proofs.Types.Induction
import FatArrow.Proofs.Types.Substitution
import FatArrow.Proofs.Types.Words
import FatArrow.Proofs.Typing.Assignable
import FatArrow.Proofs.Typing.Candidates
import FatArrow.Proofs.Typing.Constant
import FatArrow.Proofs.Typing.Conversion
import FatArrow.Proofs.Typing.Folded
import FatArrow.Proofs.Typing.Judgement
import FatArrow.Proofs.Typing.Operation
import FatArrow.Proofs.Typing.Overload
import FatArrow.Proofs.Typing.Rebuilding
import FatArrow.Proofs.Typing.Rebuilt
import FatArrow.Proofs.Typing.Reconversion
import FatArrow.Proofs.Typing.Rereading
import FatArrow.Proofs.Typing.Reselection
import FatArrow.Proofs.Typing.Resolved
import FatArrow.Proofs.Typing.Shortening
import FatArrow.Proofs.Typing.Soundness
import FatArrow.Proofs.Typing.TypeArguments
import FatArrow.Proofs.Typing.WrittenIntegers
import FatArrow.Proofs.Value.GuidText
import FatArrow.Registry.Basic
import FatArrow.Registry.Lineage
import FatArrow.Registry.Module
import FatArrow.Registry.NameIndex
import FatArrow.Standard.Declare
import FatArrow.Standard.Identity
import FatArrow.Standard.Modules
import FatArrow.Standard.Numbers
import FatArrow.Standard.Primitives
import FatArrow.Standard.Sequences
import FatArrow.Standard.Surroundings
import FatArrow.Standard.Text
import FatArrow.Standard.Time
import FatArrow.Syntax.Cursor
import FatArrow.Syntax.Error
import FatArrow.Syntax.Literal
import FatArrow.Syntax.Node
import FatArrow.Syntax.ReadNode
import FatArrow.Syntax.ReadType
import FatArrow.Syntax.Scan
import FatArrow.Syntax.Token
import FatArrow.Text.Alphabetic
import FatArrow.Text.CaseTable
import FatArrow.Text.Casing
import FatArrow.Text.Letter
import FatArrow.Text.Numeric
import FatArrow.Text.Span
import FatArrow.Tree.Fold
import FatArrow.Tree.Inline
import FatArrow.Tree.Operator
import FatArrow.Tree.Path
import FatArrow.Tree.Printer
import FatArrow.Tree.Replace
import FatArrow.Tree.Term
import FatArrow.Types.Fingerprint
import FatArrow.Types.HostType
import FatArrow.Types.Primitive
import FatArrow.Types.QualifiedName
import FatArrow.Typing.Conversion
import FatArrow.Typing.Elaborate
import FatArrow.Typing.Error
import FatArrow.Typing.Name
import FatArrow.Typing.Namespaces
import FatArrow.Typing.Operator
import FatArrow.Typing.Overload
import FatArrow.Typing.Resolved
import FatArrow.Typing.Resolver
import FatArrow.Value.Basic
import FatArrow.Value.Convert
import FatArrow.Value.Guid
import FatArrow.Value.Text
