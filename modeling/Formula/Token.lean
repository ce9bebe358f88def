import Formula.Number
import Formula.Operator

/-!
# Tokens

The units of a formula once names have been resolved and the roles of its operators are known.  The
same tokens make up a formula as it is written and in postfix order.
-/

namespace Formula

/-- A unit of a formula. -/
inductive Token (α : Type) where
  | operand (a : α)
  /-- A function, with the number of arguments it had when its name was resolved. -/
  | function (name : String) (arity : Nat)
  | infixOp (op : InfixOp)
  | prefixOp (op : PrefixOp)
  | postfixOp (op : PostfixOp)
  | opening
  | closing
  | comma
  deriving DecidableEq, Repr

namespace Token

variable {α : Type}

/-- Whether an operand can end with this token, so that an operator after it is infix or
postfix. -/
def endsOperand : Token α → Bool
  | operand _ | closing | postfixOp _ => true
  | _ => false

/-- The text of a token. -/
def text [Number α] : Token α → String
  | operand a => Number.text a
  | function name _ => name
  | infixOp op => op.spelling
  | prefixOp op => op.spelling
  | postfixOp op => op.spelling
  | opening => "("
  | closing => ")"
  | comma => ","

/-- The texts of a list of tokens, with a space between each two. -/
def render [Number α] (tokens : List (Token α)) : String :=
  " ".intercalate (tokens.map text)

end Token

end Formula
