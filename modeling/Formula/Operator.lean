/-!
# Operators

The twenty-two operators written between their operands, the three written before and the one
written after.  `InfixOp.precedence` and `InfixOp.associatesLeft` say how strongly the former bind;
the others bind tighter than all of them.  `longestSpelling?` finds the longest spelling of any
operator at the start of a text.
-/

namespace Formula

/-- An operator that stands between its two operands. -/
inductive InfixOp where
  | or
  | xor
  | and
  | bitOr
  | bitXor
  | bitAnd
  | equal
  | notEqual
  | threeWay
  | greaterEqual
  | lessEqual
  | greater
  | less
  | shiftLeft
  | shiftRight
  | add
  | subtract
  | multiply
  | divide
  | remainder
  | truncatedDivide
  | power
  deriving DecidableEq, Repr

/-- An operator that stands before its operand. -/
inductive PrefixOp where
  | negate
  | not
  | bitNot
  deriving DecidableEq, Repr

/-- An operator that stands after its operand. -/
inductive PostfixOp where
  | factorial
  deriving DecidableEq, Repr

namespace InfixOp

/-- All infix operators, from the weakest binding to the strongest. -/
def all : List InfixOp :=
  [or, xor, and, bitOr, bitXor, bitAnd, equal, notEqual, threeWay, greaterEqual, lessEqual,
    greater, less, shiftLeft, shiftRight, add, subtract, multiply, divide, remainder, truncatedDivide,
    power]

/-- How tightly an operator binds its operands; larger is tighter. -/
def precedence : InfixOp → Nat
  | or => 1
  | xor => 2
  | and => 3
  | bitOr => 4
  | bitXor => 5
  | bitAnd => 6
  | equal | notEqual | threeWay => 7
  | greaterEqual | lessEqual | greater | less => 8
  | shiftLeft | shiftRight => 9
  | add | subtract => 10
  | multiply | divide | remainder | truncatedDivide => 11
  | power => 12

/-- Whether a chain of equally strong operators groups from the left.  Operators of one strength
group the same way. -/
def associatesLeft : InfixOp → Bool
  | power => false
  | _ => true

/-- The operator's own spelling, used in messages and in rendered token lists. -/
def spelling : InfixOp → String
  | or => "||"
  | xor => "^^"
  | and => "&&"
  | bitOr => "|"
  | bitXor => "^"
  | bitAnd => "&"
  | equal => "="
  | notEqual => "!="
  | threeWay => "<=>"
  | greaterEqual => ">="
  | lessEqual => "<="
  | greater => ">"
  | less => "<"
  | shiftLeft => "<<"
  | shiftRight => ">>"
  | add => "+"
  | subtract => "-"
  | multiply => "*"
  | divide => "/"
  | remainder => "%"
  | truncatedDivide => "//"
  | power => "**"

/-- The operator written `text`.  Besides its own spelling, equality may be written `==` and
inequality `<>`. -/
def ofSpelling? (text : String) : Option InfixOp :=
  if text = "==" then some equal
  else if text = "<>" then some notEqual
  else all.find? fun op => op.spelling == text

theorem mem_all (op : InfixOp) : op ∈ all := by
  cases op <;> decide

end InfixOp

namespace PrefixOp

/-- All prefix operators. -/
def all : List PrefixOp :=
  [negate, not, bitNot]

/-- The operator's spelling. -/
def spelling : PrefixOp → String
  | negate => "-"
  | not => "!"
  | bitNot => "~"

/-- The operator written `text`. -/
def ofSpelling? (text : String) : Option PrefixOp :=
  all.find? fun op => op.spelling == text

theorem mem_all (op : PrefixOp) : op ∈ all := by
  cases op <;> decide

end PrefixOp

namespace PostfixOp

/-- All postfix operators. -/
def all : List PostfixOp :=
  [factorial]

/-- The operator's spelling. -/
def spelling : PostfixOp → String
  | factorial => "!"

/-- The operator written `text`. -/
def ofSpelling? (text : String) : Option PostfixOp :=
  all.find? fun op => op.spelling == text

theorem mem_all (op : PostfixOp) : op ∈ all := by
  cases op; decide

end PostfixOp

/-! ## Recognising a spelling -/

/-- Every spelling of every operator, longer ones first. -/
def operatorSpellings : List String :=
  ["<=>", "**", "//", "<=", ">=", "<<", ">>", "<>", "!=", "==", "&&", "||", "^^", "+", "-", "*",
    "/", "%", "<", ">", "=", "&", "|", "^", "!", "~"]

/-- The longest operator spelling that `cs` begins with. -/
def longestSpelling? (cs : List Char) : Option String :=
  operatorSpellings.find? fun s => s.toList.isPrefixOf cs

theorem operatorSpellings_descending :
    operatorSpellings.Pairwise fun s t => t.toList.length ≤ s.toList.length := by
  decide

theorem InfixOp.ofSpelling?_spelling (op : InfixOp) : ofSpelling? op.spelling = some op := by
  cases op <;> decide

theorem PrefixOp.ofSpelling?_spelling (op : PrefixOp) : ofSpelling? op.spelling = some op := by
  cases op <;> decide

theorem PostfixOp.ofSpelling?_spelling (op : PostfixOp) : ofSpelling? op.spelling = some op := by
  cases op; decide

end Formula
