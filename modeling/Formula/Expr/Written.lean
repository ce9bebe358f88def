import Formula.Expr

/-!
# Written forms of a tree

`Written e strength ts` says that the tokens `ts` write the tree `e` in the usual notation, and how
tightly the outermost operator of that notation binds.  Parentheses may stand around any part; they
have to stand where an operand would otherwise be torn apart by its neighbours.
-/

namespace Formula

/-- How tightly a prefix operator binds: tighter than every infix operator. -/
def prefixStrength : Nat :=
  13

/-- How tightly a postfix operator binds: tighter than every prefix operator. -/
def postfixStrength : Nat :=
  14

/-- The strength of what no operator can tear apart. -/
def closedStrength : Nat :=
  15

/-- Whether something of the given strength can stand to the left of an operator without
parentheses.  An operator that groups from the left takes operands of its own strength there. -/
def InfixOp.acceptsLeft (op : InfixOp) (strength : Nat) : Prop :=
  op.precedence < strength ∨ op.associatesLeft = true ∧ strength = op.precedence

/-- Whether something of the given strength can stand to the right of an operator without
parentheses. -/
def InfixOp.acceptsRight (op : InfixOp) (strength : Nat) : Prop :=
  op.precedence < strength ∨ op.associatesLeft = false ∧ strength = op.precedence

variable {α : Type}

mutual

/-- The tokens that write a tree, with the strength of their outermost operator. -/
inductive Written : Expr α → Nat → List (Token α) → Prop
  | operand (a : α) : Written (.operand a) closedStrength [.operand a]
  | group {e : Expr α} {s : Nat} {ts : List (Token α)} (h : Written e s ts) :
      Written e closedStrength (.opening :: ts ++ [.closing])
  | callNone (name : String) :
      Written (.call name []) closedStrength [.function name 0, .opening, .closing]
  | call (name : String) {args : List (Expr α)} {ts : List (Token α)}
      (h : WrittenArguments args ts) :
      Written (.call name args) closedStrength
        (.function name args.length :: .opening :: ts ++ [.closing])
  | prefixOp (op : PrefixOp) {e : Expr α} {s : Nat} {ts : List (Token α)} (h : Written e s ts)
      (hs : prefixStrength ≤ s) : Written (.prefixOp op e) prefixStrength (.prefixOp op :: ts)
  | postfixOp (op : PostfixOp) {e : Expr α} {s : Nat} {ts : List (Token α)} (h : Written e s ts)
      (hs : postfixStrength ≤ s) :
      Written (.postfixOp op e) postfixStrength (ts ++ [.postfixOp op])
  | infixOp (op : InfixOp) {lhs rhs : Expr α} {r s : Nat} {ts us : List (Token α)}
      (hl : Written lhs r ts) (hr : Written rhs s us) (hleft : op.acceptsLeft r)
      (hright : op.acceptsRight s) :
      Written (.infixOp op lhs rhs) op.precedence (ts ++ .infixOp op :: us)

/-- The tokens that write one or more arguments, with commas between them. -/
inductive WrittenArguments : List (Expr α) → List (Token α) → Prop
  | last {e : Expr α} {s : Nat} {ts : List (Token α)} (h : Written e s ts) :
      WrittenArguments [e] ts
  | cons {e : Expr α} {s : Nat} {ts us : List (Token α)} {es : List (Expr α)}
      (h : Written e s ts) (hs : WrittenArguments es us) :
      WrittenArguments (e :: es) (ts ++ .comma :: us)

end

end Formula
