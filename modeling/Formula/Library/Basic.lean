import Formula.Number
import Formula.SymbolTable

/-!
# Functions for every number type

`abs`, `min`, `max`, `sign` and `gcd`, as host functions.
-/

namespace Formula.Library

variable {α : Type} [Number α]

open Number

/-- The magnitude of a value.  The least integer of a width has none. -/
def magnitude (x : α) : Except String α :=
  if isNegative x then
    match neg? x with
    | some y => .ok y
    | none => .error s!"Magnitude of {text x} overflows"
  else .ok x

/-- The lesser of two values, the first if neither is less. -/
def minimum (a b : α) : α :=
  if less b a then b else a

/-- The greater of two values, the first if neither is greater. -/
def maximum (a b : α) : α :=
  if less a b then b else a

/-- One or minus one for positive and negative values; zeros and NaN are their own sign. -/
def sign (x : α) : α :=
  if less zero x then one
  else if isNegative x then (neg? one).getD x
  else x

/-- The greatest common divisor of two magnitudes, by at most `rounds` divisions. -/
def gcdWithin : Nat → α → α → Except String α
  | 0, a, _ => .ok a
  | rounds + 1, a, b =>
    if isZero b then .ok a
    else match remainder? a b with
      | some r => gcdWithin rounds b r
      | none => .error s!"Remainder of {text a} by {text b} overflows"

/-- The greatest common divisor of two integral values.  Each division makes the divisor smaller, so
as many rounds as its magnitude are enough. -/
def gcd (a b : α) : Except String α :=
  match toInt? a, toInt? b with
  | some _, some n => do
    let x ← magnitude a
    let y ← magnitude b
    gcdWithin n.natAbs x y
  | _, _ => .error s!"Expected integers, got {text a} and {text b}"

/-- The functions that every number type has. -/
def basicFunctions (α : Type) [Number α] : List (String × HostFunction α) :=
  [("abs", .of fun x : α => magnitude x),
    ("min", .of fun a b : α => minimum a b),
    ("max", .of fun a b : α => maximum a b),
    ("sign", .of fun x : α => sign x),
    ("gcd", .of fun a b : α => gcd a b)]

/-- A table with more functions, each replacing what its name referred to. -/
def addFunctions (table : SymbolTable α) (functions : List (String × HostFunction α)) :
    SymbolTable α :=
  functions.foldl (fun table f => (table.insertFunction f.1 f.2).1) table

/-- A table with the functions that every number type has. -/
def addBasic (table : SymbolTable α) : SymbolTable α :=
  addFunctions table (basicFunctions α)

end Formula.Library
