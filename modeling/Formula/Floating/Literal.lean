import Formula.Floating.Basic
import Formula.Text.Decimal

/-!
# Reading floating-point numbers

A number is written as an optional sign, digits with at most one point among or around them, and an
optional exponent of ten; or as the name of an infinity or of NaN in any case of letters.  It is
rounded once, from its exact decimal value.
-/

namespace Formula.Floating

variable {F : Format}

/-- The value nearest to `n * 10 ^ exponent`.  Exponents that leave no doubt are settled without
computing the power: ten is more than two, so `exponent` decimal places are more than as many binary
ones. -/
def ofDecimal (negative : Bool) (n : Nat) (exponent : Int) : Floating F :=
  if n = 0 then zero negative
  else
    let places := (Decimal.digits n).length + exponent
    if places > F.maxShift + 1 then infinite negative
    else if places < -(F.unitBits : Int) then zero negative
    else if exponent < 0 then ofRatio negative (n * F.unitsPerOne) (Nat.pow 10 exponent.natAbs)
    else ofRatio negative (n * Nat.pow 10 exponent.natAbs * F.unitsPerOne) 1

/-- The exponent of ten written after the digits: nothing, or a letter and an integer. -/
def readExponent? : List Char → Option Int
  | [] => some 0
  | c :: cs => if c = 'e' ∨ c = 'E' then Decimal.toInt? cs else none

/-- The value of digits, a point and an exponent, all but one digit being optional. -/
def readDigits? (negative : Bool) (cs : List Char) : Option (Floating F) :=
  let whole := cs.takeWhile Char.isDigit
  let rest := cs.dropWhile Char.isDigit
  let tail := if rest.head? = some '.' then rest.tail else []
  let fraction := tail.takeWhile Char.isDigit
  let rest := if rest.head? = some '.' then tail.dropWhile Char.isDigit else rest
  if (whole ++ fraction).isEmpty then none
  else (readExponent? rest).map fun exponent =>
    ofDecimal negative (Decimal.value (whole ++ fraction)) (exponent - fraction.length)

/-- The value written by `cs`, without a sign. -/
def readMagnitude? (negative : Bool) (cs : List Char) : Option (Floating F) :=
  let name := cs.map Char.toLower
  if name = ['n', 'a', 'n'] then some nan
  else if name = ['i', 'n', 'f'] ∨ name = ['i', 'n', 'f', 'i', 'n', 'i', 't', 'y'] then
    some (infinite negative)
  else readDigits? negative cs

/-- The value written by `cs`. -/
def ofChars? : List Char → Option (Floating F)
  | '-' :: cs => readMagnitude? true cs
  | '+' :: cs => readMagnitude? false cs
  | cs => readMagnitude? false cs

/-- The value of a literal, which must have a digit. -/
def ofLiteral? (cs : List Char) : Option (Floating F) :=
  if cs.any Char.isDigit then ofChars? cs else none

end Formula.Floating
