/-!
# Why a formula has no value

`Failure` lists the causes, from an unreadable character to a failing host function;
`Failure.kind` sorts them coarsely and `Failure.message` words them.  Values of the number type
occur in a cause as their text, so one type of failures serves all number types.
-/

namespace Formula

/-- Operands outside the domain of an operator. -/
inductive OutsideDomain where
  /-- The operands of a three-way comparison have no order. -/
  | unordered (lhs rhs : String)
  /-- A bitwise operator met an operand with a fractional part, or none that is finite. -/
  | notIntegral (spelling value : String)
  /-- A shift by less than no bit or by more bits than a word has. -/
  | shiftAmount (amount : Int)
  /-- A number type without fractional powers met a fractional exponent. -/
  | fractionalExponent (exponent : String)
  /-- A factorial of a value that is not a natural number. -/
  | factorial (value : String)
  deriving DecidableEq, Repr

/-- What lacks its operands. -/
inductive OperandUser where
  | operator (spelling : String)
  | function (name : String)
  /-- An argument of `callee` without any content. -/
  | emptyArgument (callee : String)
  deriving DecidableEq, Repr

/-- The cause of a failed evaluation. -/
inductive Failure where
  /-- No operator of this spelling can stand here. -/
  | misplacedOperator (spelling : String)
  /-- No lexeme begins with this character, found `offset` bytes into the text. -/
  | unexpectedCharacter (character : Char) (offset : Nat)
  /-- A name that nothing is registered under, or a function without an argument list. -/
  | unexpectedName (name : String)
  | missingOperand (user : OperandUser)
  | wrongArity (name : String) (expected found : Nat)
  /-- The formula ended with this number of values instead of one. -/
  | unbalanced (values : Nat)
  | severalDots (literal : String)
  | invalidLiteral (literal : String)
  | strayComma
  /-- A closing parenthesis, `offset` bytes into the text, with nothing to close. -/
  | unopenedParenthesis (offset : Nat)
  | mismatchedParenthesis
  | divisionByZero
  | outsideDomain (cause : OutsideDomain)
  | overflow (spelling : String)
  | functionFailed (name message : String)
  deriving DecidableEq, Repr

/-- A coarse and stable classification of the causes. -/
inductive FailureKind where
  | misplacedOperator
  | unexpectedCharacter
  | unexpectedName
  | missingOperand
  | severalDots
  | strayComma
  | unopenedParenthesis
  | mismatchedParenthesis
  | divisionByZero
  | outsideDomain
  | invalidLiteral
  | overflow
  | functionFailed
  deriving DecidableEq, Repr

/-- How a message words an operand outside a domain. -/
def OutsideDomain.message : OutsideDomain → String
  | unordered lhs rhs => s!"`{lhs} <=> {rhs}` compares unordered values"
  | notIntegral spelling value => s!"`{spelling}` requires integral operands, got {value}"
  | shiftAmount amount => s!"shift amount {amount} out of range"
  | fractionalExponent exponent => s!"non-integral exponent {exponent}"
  | factorial value => s!"factorial of {value}, expected a non-negative integer"

/-- How a message names what lacks its operands. -/
def OperandUser.describe : OperandUser → String
  | operator spelling => s!"`{spelling}`"
  | function name => s!"function `{name}`"
  | emptyArgument callee => s!"an empty argument of `{callee}`"

namespace Failure

/-- The class of a failure. -/
def kind : Failure → FailureKind
  | misplacedOperator _ => .misplacedOperator
  | unexpectedCharacter _ _ => .unexpectedCharacter
  | unexpectedName _ => .unexpectedName
  | missingOperand _ | wrongArity _ _ _ | unbalanced _ => .missingOperand
  | severalDots _ => .severalDots
  | invalidLiteral _ => .invalidLiteral
  | strayComma => .strayComma
  | unopenedParenthesis _ => .unopenedParenthesis
  | mismatchedParenthesis => .mismatchedParenthesis
  | divisionByZero => .divisionByZero
  | outsideDomain _ => .outsideDomain
  | overflow _ => .overflow
  | functionFailed _ _ => .functionFailed

/-- The wording of a failure. -/
def message : Failure → String
  | misplacedOperator spelling => s!"Unknown operator `{spelling}` in this position"
  | unexpectedCharacter character offset =>
    s!"Unexpected character '{character}' at offset {offset}"
  | unexpectedName name => s!"Unexpected token `{name}`"
  | missingOperand user => s!"Not enough operands for {user.describe}"
  | wrongArity name expected found =>
    s!"Function `{name}` expects {expected} argument(s), got {found}"
  | unbalanced values => s!"Expression left {values} values on the stack instead of one"
  | severalDots literal => s!"Numeric literal `{literal}` contains several dots"
  | invalidLiteral literal => s!"Invalid numeric literal `{literal}`"
  | strayComma => "Comma outside of a function argument list"
  | unopenedParenthesis offset =>
    s!"Closing parenthesis at offset {offset} has no matching opening parenthesis"
  | mismatchedParenthesis => "Mismatched parenthesis"
  | divisionByZero => "Division by zero"
  | outsideDomain cause => s!"Domain error: {cause.message}"
  | overflow spelling => s!"Arithmetic overflow in `{spelling}`"
  | functionFailed name message => s!"Function `{name}` failed: {message}"

end Failure

end Formula
