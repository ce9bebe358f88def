import Formula.Evaluation
import Formula.Expr.Written
import Formula.Library.Basic
import Formula.Library.Real
import Formula.Number.BoundedInt
import Formula.Proofs.Postorder
import Formula.Proofs.Reordering.Step
import Formula.Proofs.Reordering.Written
import Formula.Proofs.Placement
import Formula.Proofs.Reordering.Recovery
import Formula.Proofs.Reordering.Frame
import Formula.Proofs.Replacement
import Formula.Proofs.Nesting
import Formula.Proofs.Grouping
import Formula.Proofs.Reordering.Acceptance
import Formula.Proofs.Alphabet
import Formula.Proofs.Lexing
import Formula.Proofs.Symbols
import Formula.Proofs.IntegerLiteral
import Formula.Proofs.Rendering
import Formula.Proofs.Widening.Basic
import Formula.Proofs.Widening.Operators
import Formula.Proofs.Widening.Functions
import Formula.Proofs.Widening.Evaluation
import Formula.Proofs.Directory
import Formula.Proofs.Locality
import Formula.Proofs.Mention
import Formula.Proofs.Dependence
import Formula.Proofs.Naming
import Formula.Proofs.Reordering.Contents
import Formula.Proofs.LateBinding
import Formula.Proofs.Parentheses
import Formula.Proofs.RunFailures
import Formula.Proofs.Power.Exact
import Formula.Proofs.Floating.Rounding
import Formula.Proofs.Word
import Formula.Proofs.Shift
import Formula.Proofs.Bitwise
import Formula.Proofs.Power.Vanishing
import Formula.Proofs.Refusal
import Formula.Proofs.Factorial.Exact
import Formula.Proofs.Division
import Formula.Proofs.Euclid
import Formula.Proofs.ArityBalance
import Formula.Proofs.Arrangement
import Formula.Proofs.Reordering.Order
import Formula.Proofs.Reordering.Layers
import Formula.Proofs.Spelling
import Formula.Proofs.IntegerText
import Formula.Proofs.HostCalls
import Formula.Proofs.Floating.Integer
import Formula.Proofs.Factorial.Rounds
import Formula.Proofs.Factorial.Limit
