import Formula.Failure
import Formula.Operator.Apply
import Formula.SymbolTable
import Formula.Token

/-!
# The stack machine

`execute` runs tokens in postfix order on a stack of values.  An operator takes its operands from
the top of the stack, the right one first; a function takes as many values as its token says, which
must be the arity it has in the symbol table now.
-/

namespace Formula

variable {α : Type}

/-- The function called `name`, which must take `arity` arguments. -/
def callee (table : SymbolTable α) (name : String) (arity : Nat) :
    Except Failure (HostFunction α) :=
  match table.function? name with
  | none => .error (.unexpectedName name)
  | some f => if f.arity = arity then .ok f else .error (.wrongArity name f.arity arity)

/-- The value of a function called `name` on a list of arguments. -/
def HostFunction.call (f : HostFunction α) (name : String) (args : List α) : Except Failure α :=
  match f.apply args with
  | .ok a => .ok a
  | .error message => .error (.functionFailed name message)

/-- On a list of its arity, a function is not refused. -/
theorem HostFunction.call_of_length_eq {f : HostFunction α} {args : List α}
    (h : args.length = f.arity) (name : String) :
    f.call name args =
      match f.body args with
      | .ok a => .ok a
      | .error message => .error (.functionFailed name message) := by
  rw [call, apply, if_pos h]

/-- Call the function `name` with the topmost `arity` values.  The top of a stack is the head of
the list, so the arguments come in reverse. -/
def callFunction (table : SymbolTable α) (name : String) (arity : Nat) (stack : List α) :
    Except Failure (List α) := do
  let f ← callee table name arity
  if stack.length < arity then .error (.missingOperand (.function name))
  else return (← f.call name (stack.take arity).reverse) :: stack.drop arity

variable [Number α]

/-- The stack after one token. -/
def step (table : SymbolTable α) (stack : List α) : Token α → Except Failure (List α)
  | .operand a => .ok (a :: stack)
  | .infixOp op =>
    match stack with
    | rhs :: lhs :: stack => return (← op.apply lhs rhs) :: stack
    | _ => .error (.missingOperand (.operator op.spelling))
  | .prefixOp op =>
    match stack with
    | a :: stack => return (← op.apply a) :: stack
    | [] => .error (.missingOperand (.operator op.spelling))
  | .postfixOp op =>
    match stack with
    | a :: stack => return (← op.apply a) :: stack
    | [] => .error (.missingOperand (.operator op.spelling))
  | .function name arity => callFunction table name arity stack
  | .opening | .closing => .error .mismatchedParenthesis
  | .comma => .error .strayComma

/-- The stack after a list of tokens. -/
def run (table : SymbolTable α) (stack : List α) (tokens : List (Token α)) :
    Except Failure (List α) :=
  tokens.foldlM (step table) stack

/-- The value of tokens in postfix order: the only one that is left on the stack. -/
def execute (table : SymbolTable α) (tokens : List (Token α)) : Except Failure α := do
  match ← run table [] tokens with
  | [a] => return a
  | values => .error (.unbalanced values.length)

end Formula
