import Formula.Machine
import Formula.PostfixOrder
import Formula.Token.Reading

/-!
# Evaluating formulas

A formula is read, put into postfix order and run.  `parse` stops before the last step; its result
can be run any number of times, also with another symbol table.  Functions are looked up when the
tokens are run, constants when the text is read.
-/

namespace Formula

variable {α : Type} [Number α]

/-- The tokens of a formula in postfix order. -/
def parse (table : SymbolTable α) (formula : String) : Except Failure (List (Token α)) := do
  toPostfix (← tokenize table formula)

/-- The value of a formula. -/
def evaluate (table : SymbolTable α) (formula : String) : Except Failure α := do
  execute table (← parse table formula)

/-- The values of independent formulas, in their order. -/
def evaluateAll (table : SymbolTable α) (formulas : List String) : List (Except Failure α) :=
  formulas.map (evaluate table)

end Formula
