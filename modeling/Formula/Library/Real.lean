import Formula.Floating.Circular
import Formula.Floating.Number
import Formula.Library.Basic

/-!
# Functions of real numbers

Circular and exponential functions, roots and rounding for floating-point numbers, and the constants
`pi` and `e`.  Roots, logarithms and inverse functions refuse arguments outside their domain.
-/

namespace Formula.Library

variable {F : Format}

open Number

/-- A value that a sine or a cosine can have. -/
def requireUnitRange (x : Floating F) : Except String (Floating F) :=
  if lessEqual x.abs one then .ok x
  else .error s!"{x.text} is outside [-1, 1]"

/-- A value that has a logarithm. -/
def requirePositive (x : Floating F) : Except String (Floating F) :=
  if less zero x then .ok x
  else .error s!"Logarithm of non-positive {x.text}"

/-- The square root, refused for negative values. -/
def sqrt (x : Floating F) : Except String (Floating F) :=
  if Number.isNegative x then .error s!"Square root of negative {x.text}" else .ok x.sqrt

/-- The logarithm of `x` in a base, as the quotient of their natural logarithms. -/
def log (x base : Floating F) : Except String (Floating F) := do
  let x ← requirePositive x
  let base ← requirePositive base
  if equal base one then .error "Logarithm in base 1" else .ok (x.ln.div base.ln)

/-- The functions that only floating-point numbers have. -/
def realFunctions (F : Format) : List (String × HostFunction (Floating F)) :=
  [("sin", .of fun x : Floating F => x.sin),
    ("cos", .of fun x : Floating F => x.cos),
    ("tan", .of fun x : Floating F => x.tan),
    ("asin", .of fun x : Floating F => (requireUnitRange x).map Floating.asin),
    ("acos", .of fun x : Floating F => (requireUnitRange x).map Floating.acos),
    ("atan", .of fun x : Floating F => x.atan),
    ("atan2", .of fun y x : Floating F => y.atan2 x),
    ("sqrt", .of fun x : Floating F => sqrt x),
    ("exp", .of fun x : Floating F => x.exp),
    ("ln", .of fun x : Floating F => (requirePositive x).map Floating.ln),
    ("log10", .of fun x : Floating F => (requirePositive x).map Floating.log10),
    ("log", .of fun x base : Floating F => log x base),
    ("hypot", .of fun x y : Floating F => x.hypot y),
    ("floor", .of fun x : Floating F => x.floor),
    ("ceil", .of fun x : Floating F => x.ceil),
    ("round", .of fun x : Floating F => x.round),
    ("trunc", .of fun x : Floating F => x.trunc)]

/-- The constants of the real library. -/
def realConstants (F : Format) : List (String × Floating F) :=
  [("pi", Floating.pi), ("e", Floating.exp one)]

/-- A table with more constants, each replacing what its name referred to. -/
def addConstants {α : Type} (table : SymbolTable α) (constants : List (String × α)) :
    SymbolTable α :=
  constants.foldl (fun table c => (table.insertConstant c.1 c.2).1) table

/-- A table with all functions of floating-point numbers and the constants. -/
def addReal (table : SymbolTable (Floating F)) : SymbolTable (Floating F) :=
  addConstants (addFunctions (addBasic table) (realFunctions F)) (realConstants F)

end Formula.Library
