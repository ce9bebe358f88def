import Formula.Operator
import Formula.Text.Blank
import Formula.Text.Identifier

/-!
# Lexemes

`lexemes` cuts a text into lexemes, each as long as it can be.  Nothing is lost: the characters of
the lexemes, one after the other, are the text (`lexemes_flatMap_chars`).  A character that begins
no lexeme is one of its own, so that cutting never fails; it is refused when the lexeme is read.
-/

namespace Formula

/-- A smallest piece of a formula's text. -/
inductive Lexeme where
  | blank (c : Char)
  /-- A run of ASCII digits and dots. -/
  | literal (cs : List Char)
  /-- An identifier. -/
  | word (cs : List Char)
  | opening
  | closing
  | comma
  | operator (spelling : String)
  | unknown (c : Char)
  deriving DecidableEq, Repr

/-- Whether `c` belongs to a numeric literal. -/
def isLiteralChar (c : Char) : Bool :=
  c.isDigit || c == '.'

namespace Lexeme

/-- The characters of a lexeme. -/
def chars : Lexeme → List Char
  | blank c => [c]
  | literal cs => cs
  | word cs => cs
  | opening => ['(']
  | closing => [')']
  | comma => [',']
  | operator spelling => spelling.toList
  | unknown c => [c]

/-- The number of bytes of a lexeme in UTF-8. -/
def byteSize (l : Lexeme) : Nat :=
  l.chars.foldr (fun c n => c.utf8Size + n) 0

/-- The first lexeme of a text that begins with `c`, and the text after it. -/
def first (c : Char) (cs : List Char) : Lexeme × List Char :=
  if isBlank c then (blank c, cs)
  else if isLiteralChar c then
    (literal (c :: cs.takeWhile isLiteralChar), cs.dropWhile isLiteralChar)
  else if startsIdentifier c then
    (word (c :: cs.takeWhile continuesIdentifier), cs.dropWhile continuesIdentifier)
  else if c = '(' then (opening, cs)
  else if c = ')' then (closing, cs)
  else if c = ',' then (comma, cs)
  else match longestSpelling? (c :: cs) with
    | some spelling => (operator spelling, cs.drop (spelling.toList.length - 1))
    | none => (unknown c, cs)

theorem length_first_le (c : Char) (cs : List Char) : (first c cs).2.length ≤ cs.length := by
  unfold first
  have hd : ∀ p : Char → Bool, (cs.dropWhile p).length ≤ cs.length := fun p =>
    (List.dropWhile_sublist p).length_le
  split
  · exact Nat.le_refl _
  split
  · exact hd _
  split
  · exact hd _
  split
  · exact Nat.le_refl _
  split
  · exact Nat.le_refl _
  split
  · exact Nat.le_refl _
  split
  · simp
  · exact Nat.le_refl _

end Lexeme

/-- The lexemes of a text. -/
def lexemes : List Char → List Lexeme
  | [] => []
  | c :: cs => (Lexeme.first c cs).1 :: lexemes (Lexeme.first c cs).2
termination_by cs => cs.length
decreasing_by
  have := Lexeme.length_first_le c cs
  simp only [List.length_cons]
  omega

theorem exists_eq_append_of_longestSpelling? {cs : List Char} {spelling : String}
    (h : longestSpelling? cs = some spelling) :
    spelling ∈ operatorSpellings ∧ ∃ rest, cs = spelling.toList ++ rest := by
  refine ⟨List.mem_of_find?_eq_some h, ?_⟩
  have hp : spelling.toList.isPrefixOf cs = true :=
    List.find?_some (p := fun s : String => s.toList.isPrefixOf cs) h
  obtain ⟨rest, hr⟩ := List.isPrefixOf_iff_prefix.1 hp
  exact ⟨rest, hr.symm⟩

namespace Lexeme

theorem chars_first_append (c : Char) (cs : List Char) :
    (first c cs).1.chars ++ (first c cs).2 = c :: cs := by
  unfold first
  split
  · rfl
  split
  · simp [chars, List.takeWhile_append_dropWhile]
  split
  · simp [chars, List.takeWhile_append_dropWhile]
  split
  · rename_i h; simp [chars, h]
  split
  · rename_i h; simp [chars, h]
  split
  · rename_i h; simp [chars, h]
  split
  · rename_i spelling h
    obtain ⟨hm, rest, hr⟩ := exists_eq_append_of_longestSpelling? h
    have hne : ∀ s ∈ operatorSpellings, s.toList ≠ [] := by decide
    rcases hs : spelling.toList with _ | ⟨d, ds⟩
    · exact absurd hs (hne _ hm)
    · rw [hs] at hr
      obtain ⟨rfl, rfl⟩ := List.cons.inj hr
      simp [chars, hs]
  · rfl

end Lexeme

theorem lexemes_flatMap_chars (cs : List Char) : (lexemes cs).flatMap Lexeme.chars = cs := by
  fun_induction lexemes cs with
  | case1 => rfl
  | case2 c cs ih => rw [List.flatMap_cons, ih, Lexeme.chars_first_append]

end Formula
