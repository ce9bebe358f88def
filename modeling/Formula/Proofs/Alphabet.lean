import Mathlib.Tactic.ByContra
import Formula.Lexeme

/-!
# Characters of different kinds

A blank character belongs to no literal and to no identifier, the first character of an identifier
to no literal, and no operator spelling holds a character of these kinds, a parenthesis or a comma.
So the first character of a lexeme decides its kind, and a blank character ends every lexeme.
-/

namespace Formula

/-! ## Classes beyond ASCII -/

theorem inRanges_eq_false_of_disjoint {rs qs : List (Nat × Nat)} {c : Char}
    (h : ∀ r ∈ rs, ∀ q ∈ qs, r.2 < q.1 ∨ q.2 < r.1) (hc : inRanges rs c = true) :
    inRanges qs c = false := by
  rw [Bool.eq_false_iff, ne_eq, inRanges_eq_true_iff]
  rintro ⟨q, hq, hql, hqr⟩
  obtain ⟨r, hr, hrl, hrr⟩ := inRanges_eq_true_iff.1 hc
  have := h r hr q hq
  omega

theorem blankRanges_disjoint_letterRanges :
    ∀ r ∈ blankRanges, ∀ q ∈ letterRanges, r.2 < q.1 ∨ q.2 < r.1 := by
  decide +kernel

theorem blankRanges_disjoint_numeralRanges :
    ∀ r ∈ blankRanges, ∀ q ∈ numeralRanges, r.2 < q.1 ∨ q.2 < r.1 := by
  decide +kernel

theorem toNat_lt_of_isLiteralChar {c : Char} (h : isLiteralChar c = true) : c.toNat < 0x80 := by
  simp only [isLiteralChar, Bool.or_eq_true, beq_iff_eq] at h
  rcases h with h | rfl
  · have hdigit := (Char.isDigit_iff_toNat.1 h).2
    have hnine : '9'.toNat = 57 := rfl
    omega
  · decide

/-- The kinds of the ASCII characters, checked on their code points. -/
theorem kinds_of_ascii {c : Char} (hc : c.toNat < 0x80) :
    (isBlank c = true → isLiteralChar c = false ∧ continuesIdentifier c = false) ∧
      (isLiteralChar c = true → startsIdentifier c = false) := by
  have h : ∀ n < 0x80,
      (isBlank (Char.ofNat n) = true →
        isLiteralChar (Char.ofNat n) = false ∧ continuesIdentifier (Char.ofNat n) = false) ∧
      (isLiteralChar (Char.ofNat n) = true → startsIdentifier (Char.ofNat n) = false) := by
    decide +kernel
  have hn := h c.toNat hc
  rwa [Char.ofNat_toNat] at hn

/-! ## Kinds of characters -/

theorem isLiteralChar_eq_false_of_isBlank {c : Char} (h : isBlank c = true) :
    isLiteralChar c = false := by
  by_contra hc
  have hascii := toNat_lt_of_isLiteralChar (Bool.of_not_eq_false hc)
  exact hc ((kinds_of_ascii hascii).1 h).1

theorem continuesIdentifier_eq_false_of_isBlank {c : Char} (h : isBlank c = true) :
    continuesIdentifier c = false := by
  by_cases hc : c.toNat < 0x80
  · exact ((kinds_of_ascii hc).1 h).2
  · have hne : c ≠ '_' := by
      rintro rfl
      exact hc (by decide)
    simp only [continuesIdentifier, isLetter, isNumeral, if_neg hc,
      inRanges_eq_false_of_disjoint blankRanges_disjoint_letterRanges h,
      inRanges_eq_false_of_disjoint blankRanges_disjoint_numeralRanges h, Bool.false_or,
      beq_eq_false_iff_ne]
    exact hne

theorem isBlank_eq_false_of_isLiteralChar {c : Char} (h : isLiteralChar c = true) :
    isBlank c = false := by
  by_contra hc
  rw [isLiteralChar_eq_false_of_isBlank (Bool.of_not_eq_false hc)] at h
  cases h

theorem isBlank_eq_false_of_startsIdentifier {c : Char} (h : startsIdentifier c = true) :
    isBlank c = false := by
  by_contra hc
  have hcontinues := continuesIdentifier_of_startsIdentifier h
  rw [continuesIdentifier_eq_false_of_isBlank (Bool.of_not_eq_false hc)] at hcontinues
  cases hcontinues

theorem isLiteralChar_eq_false_of_startsIdentifier {c : Char} (h : startsIdentifier c = true) :
    isLiteralChar c = false := by
  by_contra hc
  have hliteral := Bool.of_not_eq_false hc
  rw [(kinds_of_ascii (toNat_lt_of_isLiteralChar hliteral)).2 hliteral] at h
  cases h

theorem isIdentifierChars_iff {cs : List Char} :
    isIdentifierChars cs = true ↔ ∃ d ds, cs = d :: ds ∧ startsIdentifier d = true ∧
      ∀ e ∈ ds, continuesIdentifier e = true := by
  cases cs with
  | nil => simp [isIdentifierChars]
  | cons c cs =>
    rw [isIdentifierChars, Bool.and_eq_true, List.all_eq_true]
    constructor
    · rintro ⟨hc, hcs⟩
      exact ⟨c, cs, rfl, hc, hcs⟩
    · rintro ⟨d, ds, hcons, hd, hds⟩
      cases hcons
      exact ⟨hd, hds⟩

/-- Whether `c` begins a lexeme that is neither blank nor a literal, an identifier, a parenthesis or
a comma. -/
structure BeginsOperator (c : Char) : Prop where
  isBlank_eq_false : isBlank c = false
  isLiteralChar_eq_false : isLiteralChar c = false
  startsIdentifier_eq_false : startsIdentifier c = false
  ne_opening : c ≠ '('
  ne_closing : c ≠ ')'
  ne_comma : c ≠ ','

theorem beginsOperator_of_mem_spelling {s : String} (hs : s ∈ operatorSpellings) {c : Char}
    (hc : c ∈ s.toList) : BeginsOperator c := by
  have h : ∀ s ∈ operatorSpellings, (s.toList.all fun c => !isBlank c && !isLiteralChar c &&
      !startsIdentifier c && c != '(' && c != ')' && c != ',') = true := by
    decide +kernel
  have hkinds := List.all_eq_true.1 (h s hs) c hc
  simp only [Bool.and_eq_true, Bool.not_eq_true', bne_iff_ne] at hkinds
  obtain ⟨⟨⟨⟨⟨hblank, hliteral⟩, hstart⟩, hopening⟩, hclosing⟩, hcomma⟩ := hkinds
  exact ⟨hblank, hliteral, hstart, hopening, hclosing, hcomma⟩

theorem ne_nil_of_mem_operatorSpellings {s : String} (hs : s ∈ operatorSpellings) :
    s.toList ≠ [] := by
  have h : ∀ s ∈ operatorSpellings, s.toList ≠ [] := by decide
  exact h s hs

end Formula
