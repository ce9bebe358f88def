/-!
# Decimal notation of whole numbers

`Decimal.digits` writes a natural number and `Decimal.value` reads a run of digits;
`Decimal.ofInt` and `Decimal.toInt?` do the same for integers with a sign.  A sign is written only
for negative numbers, but either sign is read.
-/

namespace Formula.Decimal

/-- The decimal digits of `n`, most significant first and without leading zeros. -/
def digits (n : Nat) : List Char :=
  Nat.toDigits 10 n

/-- The number written by a run of decimal digits, 0 for the empty run. -/
def value (cs : List Char) : Nat :=
  Nat.ofDigitChars 10 cs 0

/-- The number written by `cs`, if `cs` is a nonempty run of ASCII digits. -/
def toNat? (cs : List Char) : Option Nat :=
  if cs.isEmpty || !cs.all Char.isDigit then none else some (value cs)

/-- The decimal text of `n`, with a `-` in front if `n` is negative. -/
def ofInt (n : Int) : List Char :=
  if n < 0 then '-' :: digits n.natAbs else digits n.natAbs

/-- The integer written by `cs`: an optional sign and a nonempty run of ASCII digits. -/
def toInt? : List Char → Option Int
  | '-' :: cs => (toNat? cs).map fun n => -(n : Int)
  | '+' :: cs => (toNat? cs).map fun n => (n : Int)
  | cs => (toNat? cs).map fun n => (n : Int)

@[simp]
theorem value_digits (n : Nat) : value (digits n) = n :=
  Nat.ofDigitChars_toDigits (by decide) (by decide)

theorem isDigit_of_mem_digits {n : Nat} {c : Char} (h : c ∈ digits n) : c.isDigit = true :=
  Nat.isDigit_of_mem_toDigits (by decide) (by decide) h

end Formula.Decimal
