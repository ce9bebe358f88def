import Formula.Text.Letter
import Formula.Text.Numeral

/-!
# Identifiers

A function or a constant is named by a letter or `_` followed by letters, numerals and `_`.
-/

namespace Formula

/-- Whether `c` may begin an identifier. -/
def startsIdentifier (c : Char) : Bool :=
  isLetter c || c == '_'

/-- Whether `c` may stand in an identifier after its first character. -/
def continuesIdentifier (c : Char) : Bool :=
  isLetter c || isNumeral c || c == '_'

/-- Whether the characters `cs` are exactly one identifier. -/
def isIdentifierChars : List Char → Bool
  | [] => false
  | c :: cs => startsIdentifier c && cs.all continuesIdentifier

/-- Whether `name` is exactly one identifier. -/
def isIdentifier (name : String) : Bool :=
  isIdentifierChars name.toList

theorem continuesIdentifier_of_startsIdentifier {c : Char} (h : startsIdentifier c = true) :
    continuesIdentifier c = true := by
  simp only [startsIdentifier, Bool.or_eq_true] at h
  rcases h with h | h <;> simp [continuesIdentifier, h]

end Formula
