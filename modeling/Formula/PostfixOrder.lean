import Formula.Failure
import Formula.Token

/-!
# Postfix order

`toPostfix` puts the tokens of a formula into the order in which they are computed, without
parentheses and commas.  Operators are held back until their right operand is complete; a mark
among them stands for each open parenthesis.  Arguments are counted for every call, and the count
must be the arity of the function.
-/

namespace Formula

variable {α : Type}

/-- A function whose call has begun. -/
structure CallHead where
  name : String
  arity : Nat
  deriving DecidableEq, Repr

/-- What is held back until its right end is known. -/
inductive Held where
  | infixOp (op : InfixOp)
  | prefixOp (op : PrefixOp)
  /-- An open parenthesis. -/
  | mark
  deriving DecidableEq, Repr

/-- An open parenthesis, and the arguments seen in it so far. -/
structure Parenthesis where
  /-- The function it belongs to, if it opens an argument list. -/
  call : Option CallHead
  separators : Nat := 0
  /-- Whether nothing stands after the parenthesis or the last comma. -/
  slotIsEmpty : Bool := true
  deriving DecidableEq, Repr

/-- The number of arguments in a parenthesis that is closed now. -/
def Parenthesis.arguments (p : Parenthesis) : Nat :=
  if p.slotIsEmpty then 0 else p.separators + 1

namespace Held

/-- Whether this is an operator and no mark. -/
def isOperator : Held → Bool
  | mark => false
  | _ => true

/-- The token of an operator. -/
def token? : Held → Option (Token α)
  | infixOp op => some (.infixOp op)
  | prefixOp op => some (.prefixOp op)
  | mark => none

/-- Whether the right operand of this operator is complete when `op` follows.  Prefix operators
bind tighter than every infix operator. -/
def yieldsTo (op : InfixOp) : Held → Bool
  | infixOp top => op.precedence < top.precedence ||
      (top.precedence == op.precedence && op.associatesLeft)
  | prefixOp _ => true
  | mark => false

end Held

/-- The state of the reordering between two tokens. -/
structure Reordering (α : Type) where
  /-- The tokens put in order so far, the last one first. -/
  output : List (Token α) := []
  /-- The operators held back and the marks between them, the last one first. -/
  held : List Held := []
  /-- The open parentheses, the innermost first. -/
  parentheses : List Parenthesis := []
  /-- A function name whose parenthesis has to come next. -/
  awaited : Option CallHead := none
  deriving Repr

namespace Reordering

/-- Put a token at the end of the output. -/
def emit (s : Reordering α) (t : Token α) : Reordering α :=
  { s with output := t :: s.output }

/-- Hold back an operator. -/
def hold (s : Reordering α) (h : Held) : Reordering α :=
  { s with held := h :: s.held }

/-- Put the topmost operators that satisfy `p` at the end of the output. -/
def release (s : Reordering α) (p : Held → Bool) : Reordering α :=
  { s with
    output := ((s.held.takeWhile p).filterMap Held.token?).reverse ++ s.output
    held := s.held.dropWhile p }

/-- Note that the innermost parenthesis has content. -/
def noteContent (s : Reordering α) : Reordering α :=
  match s.parentheses with
  | [] => s
  | p :: ps => { s with parentheses := { p with slotIsEmpty := false } :: ps }

/-- Open a parenthesis, which is that of a call if a function name stands before it. -/
def openParenthesis (s : Reordering α) (call : Option CallHead) : Reordering α :=
  { s with held := .mark :: s.held, parentheses := { call } :: s.parentheses, awaited := none }

/-- Close the innermost parenthesis.  That of a call needs as many arguments as the function, none
of them empty, and is followed by the function in the output. -/
def closeParenthesis (s : Reordering α) : Except Failure (Reordering α) :=
  let s := s.release Held.isOperator
  match s.held, s.parentheses with
  | _ :: held, p :: parentheses =>
    let s := { s with held, parentheses }
    match p.call with
    | none => .ok s
    | some call =>
      if p.slotIsEmpty && 0 < p.separators then
        .error (.missingOperand (.emptyArgument call.name))
      else if p.arguments ≠ call.arity then
        .error (.wrongArity call.name call.arity p.arguments)
      else .ok (s.emit (.function call.name call.arity))
  | _, _ => .error .mismatchedParenthesis

/-- Begin the next argument of the innermost parenthesis, which must be that of a call. -/
def nextArgument (s : Reordering α) : Except Failure (Reordering α) :=
  let s := s.release Held.isOperator
  match s.held, s.parentheses with
  | _ :: _, p :: ps =>
    match p.call with
    | none => .error .strayComma
    | some call =>
      if p.slotIsEmpty then .error (.missingOperand (.emptyArgument call.name))
      else
        let p := { p with separators := p.separators + 1, slotIsEmpty := true }
        .ok { s with parentheses := p :: ps }
  | _, _ => .error .strayComma

/-- The state after the next token. -/
def push (s : Reordering α) (t : Token α) : Except Failure (Reordering α) :=
  match s.awaited, t with
  | some call, .opening => .ok (s.openParenthesis (some call))
  | some call, _ => .error (.unexpectedName call.name)
  | none, .operand _ => .ok (s.noteContent.emit t)
  | none, .function name arity => .ok { s.noteContent with awaited := some ⟨name, arity⟩ }
  | none, .prefixOp op => .ok (s.noteContent.hold (.prefixOp op))
  | none, .postfixOp op =>
    if s.output.isEmpty then .error (.missingOperand (.operator op.spelling))
    else .ok (s.noteContent.emit t)
  | none, .infixOp op => .ok ((s.noteContent.release (Held.yieldsTo op)).hold (.infixOp op))
  | none, .opening => .ok (s.noteContent.openParenthesis none)
  | none, .closing => s.closeParenthesis
  | none, .comma => s.nextArgument

/-- The whole output, once no token follows. -/
def result (s : Reordering α) : Except Failure (List (Token α)) :=
  match s.awaited with
  | some call => .error (.unexpectedName call.name)
  | none =>
    let s := s.release Held.isOperator
    if s.held.isEmpty then .ok s.output.reverse else .error .mismatchedParenthesis

end Reordering

/-- The tokens of a formula in the order in which they are computed. -/
def toPostfix (tokens : List (Token α)) : Except Failure (List (Token α)) := do
  (← tokens.foldlM Reordering.push {}).result

end Formula
