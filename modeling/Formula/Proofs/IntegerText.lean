import Formula.Evaluation
import Formula.Proofs.Refusal
import Formula.Proofs.Rendering
import Formula.Proofs.Reordering.Written
import Formula.Proofs.Width

/-!
# The text of an integer as a formula

The text of an integer is a formula for it, also inside blank characters and parentheses
(`BoundedInt.evaluate_text`).  It is not read as one literal: the sign of a negative integer is a
prefix operator, and the digits behind it have to be an integer on their own.  Those of the smallest
integer are none.

`ReadsAs` and `FailsWith` say how a text is read wherever an operand is due; so they pass from a text
to the text in parentheses and to the text behind an operator.
-/

namespace Formula

/-- Whether a text is `core` inside any number of blank characters and pairs of parentheses. -/
inductive Surrounded (core : List Char) : List Char → Prop
  | core : Surrounded core core
  | blankBefore {c : Char} {cs : List Char} (blank : isBlank c = true) (h : Surrounded core cs) :
      Surrounded core (c :: cs)
  | blankBehind {c : Char} {cs : List Char} (blank : isBlank c = true) (h : Surrounded core cs) :
      Surrounded core (cs ++ [c])
  | parentheses {cs : List Char} (h : Surrounded core cs) : Surrounded core ('(' :: (cs ++ [')']))

variable {α : Type}

/-- Whether an operand is due behind the tokens `before`. -/
def OperandDue (before : List (Token α)) : Prop :=
  before.getLast?.any Token.endsOperand = false

theorem operandDue_nil : OperandDue ([] : List (Token α)) :=
  rfl

theorem operandDue_concat {before : List (Token α)} {t : Token α} (ht : t.endsOperand = false) :
    OperandDue (before ++ [t]) := by
  rw [OperandDue, List.getLast?_concat, Option.any_some, ht]

theorem ends_literal_cons_of_isBlank {c : Char} (hc : isBlank c = true) (rest : List Char) :
    Ends isLiteralChar (c :: rest) := by
  rintro d ⟨⟩
  exact isLiteralChar_eq_false_of_isBlank hc

theorem ends_literal_closing (rest : List Char) : Ends isLiteralChar (')' :: rest) := by
  rintro d ⟨⟩
  rfl

variable [Number α] {table : SymbolTable α}

theorem isLexeme_negate {before : List (Token α)} (hbefore : OperandDue before)
    (rest : List Char) : IsLexeme table before ['-'] rest (.prefixOp .negate) := by
  have hne : PrefixOp.negate ≠ .not := nofun
  exact .operator (PrefixOp.longestSpelling hne rest) (.prefixOp hbefore rfl)

/-! ## Texts with tokens -/

/-- Whether a text has the tokens `ts` wherever an operand is due, unless it is continued like a
literal. -/
structure ReadsAs (table : SymbolTable α) (cs : List Char) (ts : List (Token α)) : Prop where
  balanced : Balanced ts
  lexed : ∀ before rest, OperandDue before → Ends isLiteralChar rest →
    LexedUpTo table rest before cs ts

namespace ReadsAs

variable {cs : List Char} {ts : List (Token α)}

theorem of_lexeme {t : Token α} (ht : t.weight = 0)
    (h : ∀ before rest, Ends isLiteralChar rest → IsLexeme table before cs rest t) :
    ReadsAs table cs [t] := by
  refine ⟨balanced_singleton ht, fun before rest _ hrest => ?_⟩
  have hlexed : LexedUpTo table rest before (cs ++ []) [t] := .lexeme (h before rest hrest) .done
  rwa [List.append_nil] at hlexed

theorem blankBefore {c : Char} (hc : isBlank c = true) (h : ReadsAs table cs ts) :
    ReadsAs table (c :: cs) ts :=
  ⟨h.balanced, fun before rest hbefore hrest => .blank hc (h.lexed before rest hbefore hrest)⟩

theorem blankBehind {c : Char} (hc : isBlank c = true) (h : ReadsAs table cs ts) :
    ReadsAs table (cs ++ [c]) ts := by
  refine ⟨h.balanced, fun before rest hbefore _ => ?_⟩
  have hlexed := h.lexed before (c :: rest) hbefore (ends_literal_cons_of_isBlank hc rest)
  have hblank : LexedUpTo table rest (before ++ ts) [c] [] := .blank hc .done
  have hboth := hlexed.append hblank
  rwa [List.append_nil] at hboth

theorem parentheses (h : ReadsAs table cs ts) :
    ReadsAs table ('(' :: (cs ++ [')'])) (.opening :: ts ++ [.closing]) := by
  refine ⟨h.balanced.group, fun before rest _ _ => ?_⟩
  have hinner := h.lexed (before ++ [.opening]) (')' :: rest) (operandDue_concat rfl)
    (ends_literal_closing rest)
  have hunclosed : Unclosed (before ++ [.opening] ++ ts) :=
    ⟨before, ts, (List.append_cons before .opening ts).symm, h.balanced.nested⟩
  have hclosing : LexedUpTo table rest (before ++ [.opening] ++ ts) [')'] [.closing] :=
    .lexeme (.closing hunclosed) .done
  exact .lexeme .opening (hinner.append hclosing)

theorem negate (h : ReadsAs table cs ts) : ReadsAs table ('-' :: cs) (.prefixOp .negate :: ts) := by
  refine ⟨(balanced_singleton rfl).append h.balanced, fun before rest hbefore hrest => ?_⟩
  exact .lexeme (isLexeme_negate hbefore _) (h.lexed _ rest (operandDue_concat rfl) hrest)

theorem tokenize_eq {formula : String} (h : ReadsAs table formula.toList ts) :
    tokenize table formula = .ok ts :=
  tokenize_eq_ok_iff_lexed.2 (h.lexed [] [] operandDue_nil nofun).lexed

end ReadsAs

/-! ## Texts without tokens -/

/-- Whether a text fails with `e` wherever an operand is due, unless it is continued like a
literal. -/
def FailsWith (table : SymbolTable α) (cs : List Char) (e : Failure) : Prop :=
  ∀ before rest, OperandDue before → Ends isLiteralChar rest → ∃ pre post ts,
    cs ++ rest = pre ++ post ∧ LexedUpTo table post before pre ts ∧
      ∀ offset, IsRefused table (before ++ ts) offset post e

namespace FailsWith

variable {cs : List Char} {e : Failure}

theorem of_isRefused (h : ∀ before rest offset, Ends isLiteralChar rest →
    IsRefused table before offset (cs ++ rest) e) : FailsWith table cs e := by
  intro before rest _ hrest
  refine ⟨[], cs ++ rest, [], rfl, .done, fun offset => ?_⟩
  rw [List.append_nil]
  exact h before rest offset hrest

theorem blankBefore {c : Char} (hc : isBlank c = true) (h : FailsWith table cs e) :
    FailsWith table (c :: cs) e := by
  intro before rest hbefore hrest
  obtain ⟨pre, post, ts, hsplit, hlexed, hrefused⟩ := h before rest hbefore hrest
  exact ⟨c :: pre, post, ts, congrArg (c :: ·) hsplit, .blank hc hlexed, hrefused⟩

/-- What stands behind is not read any more. -/
theorem append {ds : List Char} (hds : ∀ rest, Ends isLiteralChar (ds ++ rest))
    (h : FailsWith table cs e) : FailsWith table (cs ++ ds) e := by
  intro before rest hbefore _
  rw [List.append_assoc]
  exact h before (ds ++ rest) hbefore (hds rest)

theorem lexeme_append {lexeme : List Char} {t : Token α} (ht : t.endsOperand = false)
    (hlexeme : ∀ before rest, OperandDue before → IsLexeme table before lexeme rest t)
    (h : FailsWith table cs e) : FailsWith table (lexeme ++ cs) e := by
  intro before rest hbefore hrest
  obtain ⟨pre, post, ts, hsplit, hlexed, hrefused⟩ :=
    h (before ++ [t]) rest (operandDue_concat ht) hrest
  refine ⟨lexeme ++ pre, post, t :: ts, ?_, .lexeme (hlexeme before _ hbefore) hlexed, ?_⟩
  · rw [List.append_assoc, hsplit, List.append_assoc]
  · rwa [List.append_cons]

theorem parentheses (h : FailsWith table cs e) : FailsWith table ('(' :: (cs ++ [')'])) e := by
  have hopening : ∀ before rest, OperandDue before → IsLexeme table before ['('] rest .opening :=
    fun _ _ _ => .opening
  exact (h.append ends_literal_closing).lexeme_append rfl hopening

theorem negate (h : FailsWith table cs e) : FailsWith table ('-' :: cs) e := by
  have hnegate : ∀ before rest, OperandDue before →
      IsLexeme table before ['-'] rest (.prefixOp .negate) := fun _ rest hbefore =>
    isLexeme_negate hbefore rest
  exact h.lexeme_append rfl hnegate

theorem tokenize_eq {formula : String} (h : FailsWith table formula.toList e) :
    tokenize table formula = .error e := by
  obtain ⟨pre, post, ts, hsplit, hlexed, hrefused⟩ := h [] [] operandDue_nil nofun
  rw [List.append_nil] at hsplit
  exact tokenize_eq_error_iff.2 ⟨pre, post, ts, hsplit, hlexed, hrefused _⟩

end FailsWith

/-! ## Surrounded texts -/

namespace Surrounded

variable {core cs : List Char}

theorem exists_readsAs (h : Surrounded core cs) {e : Expr α} {s : Nat} {ts : List (Token α)}
    (hcore : ReadsAs table core ts) (hwritten : Written e s ts) :
    ∃ s us, ReadsAs table cs us ∧ Written e s us := by
  induction h with
  | core => exact ⟨s, ts, hcore, hwritten⟩
  | blankBefore hblank _ ih =>
    obtain ⟨s, us, hreads, hwritten⟩ := ih
    exact ⟨s, us, hreads.blankBefore hblank, hwritten⟩
  | blankBehind hblank _ ih =>
    obtain ⟨s, us, hreads, hwritten⟩ := ih
    exact ⟨s, us, hreads.blankBehind hblank, hwritten⟩
  | parentheses _ ih =>
    obtain ⟨s, us, hreads, hwritten⟩ := ih
    exact ⟨closedStrength, _, hreads.parentheses, .group hwritten⟩

theorem failsWith (h : Surrounded core cs) {e : Failure} (hcore : FailsWith table core e) :
    FailsWith table cs e := by
  induction h with
  | core => exact hcore
  | blankBefore hblank _ ih => exact ih.blankBefore hblank
  | blankBehind hblank _ ih => exact ih.append (ends_literal_cons_of_isBlank hblank)
  | parentheses _ ih => exact ih.parentheses

variable {formula : String}

/-- What surrounds a text that writes a tree does not change the value of the tree. -/
theorem evaluate_eq_eval (h : Surrounded core formula.toList) {e : Expr α} {s : Nat}
    {ts : List (Token α)} (hcore : ReadsAs table core ts) (hwritten : Written e s ts) :
    evaluate table formula = e.eval table := by
  obtain ⟨s, us, hreads, hus⟩ := h.exists_readsAs hcore hwritten
  have hparse : parse table formula = .ok e.postorder :=
    bind_eq_ok_iff.2 ⟨us, hreads.tokenize_eq, hus.toPostfix_eq_ok⟩
  rw [evaluate, hparse]
  exact Expr.execute_postorder table e

theorem evaluate_eq_error (h : Surrounded core formula.toList) {e : Failure}
    (hcore : FailsWith table core e) : evaluate table formula = .error e :=
  bind_eq_error_iff.2 (.inl (bind_eq_error_iff.2 (.inl (h.failsWith hcore).tokenize_eq)))

end Surrounded

/-! ## Integers -/

namespace BoundedInt

variable {w : Width} {table : SymbolTable (BoundedInt w)}

theorem readsAs_text_of_nonneg {a : BoundedInt w} (ha : 0 ≤ a.val) :
    ReadsAs table (Number.text a).toList [.operand a] := by
  obtain ⟨hne, hrun, hdots, hvalue⟩ := readsBack ha
  exact .of_lexeme rfl fun _ _ hrest => .literal hne hrun hrest hdots hvalue

theorem failsWith_digits {n : Nat} (hn : (ofInt? n : Option (BoundedInt w)) = none) :
    FailsWith table (Decimal.digits n) (.invalidLiteral (String.ofList (Decimal.digits n))) := by
  have hrun : ∀ c ∈ Decimal.digits n, isLiteralChar c = true := fun c =>
    Decimal.isLiteralChar_of_mem_digits
  have hdots : (Decimal.digits n).count '.' ≤ 1 := by
    rw [Decimal.count_dot_digits]
    exact Nat.zero_le 1
  have hvalue : (ofLiteral? (Decimal.digits n) : Option (BoundedInt w)) = none :=
    (ofLiteral?_digits n).trans hn
  exact .of_isRefused fun _ _ _ hrest => .literal Nat.toDigits_ne_nil hrun hrest hdots hvalue

theorem text_of_neg {a : BoundedInt w} (ha : a.val < 0) :
    Number.text a = "-" ++ String.ofList (Decimal.digits a.val.natAbs) := by
  have htext : Number.text a = String.ofList (Decimal.ofInt a.val) := rfl
  rw [htext, Decimal.ofInt, if_pos ha, String.ofList_cons]
  rfl

theorem toList_text_of_neg {a : BoundedInt w} (ha : a.val < 0) :
    (Number.text a).toList = '-' :: Decimal.digits a.val.natAbs := by
  have htext : (Number.text a).toList = Decimal.ofInt a.val := String.toList_ofList
  rw [htext, Decimal.ofInt, if_pos ha]

/-- A negative integer is written as the negation of its opposite, if that is an integer. -/
theorem readsAs_text_of_neg {a b : BoundedInt w} (hb : 0 < b.val) (hab : a.val = -b.val) :
    ReadsAs table (Number.text a).toList [.prefixOp .negate, .operand b] := by
  have habs : b.val.natAbs = a.val.natAbs := by omega
  have hnonneg : 0 ≤ b.val := Int.le_of_lt hb
  have hreads : ReadsAs table (Number.text b).toList [.operand b] := readsAs_text_of_nonneg hnonneg
  rw [toList_text_of_nonneg hnonneg, habs] at hreads
  rw [toList_text_of_neg (by omega)]
  exact hreads.negate

theorem eval_negate {a b : BoundedInt w} (hab : a.val = -b.val) :
    (Expr.prefixOp .negate (.operand b)).eval table = .ok a := by
  have hneg : Number.neg? b = some a := ofInt?_eq_some_iff.2 hab
  have happly : PrefixOp.negate.apply b = .ok a := by simp only [PrefixOp.apply, hneg]
  exact happly

/-- The text of an integer is a formula for it, with any blank characters and parentheses around it,
unless it is the smallest integer.  In its text the digits behind the sign are a literal of no
integer, since the sign is an operator and not a part of the literal. -/
theorem evaluate_text (table : SymbolTable (BoundedInt w)) (a : BoundedInt w) (formula : String)
    (h : Surrounded (Number.text a).toList formula.toList) :
    (a.val ≠ -w.bound → evaluate table formula = .ok a) ∧
      (a.val = -w.bound → ∃ digits, Number.text a = "-" ++ digits ∧
        evaluate table formula = .error (.invalidLiteral digits)) := by
  have hbound := w.one_lt_bound
  have hbelow := a.neg_bound_le
  have habove := a.lt_bound
  constructor
  · intro ha
    rcases Int.lt_or_le a.val 0 with hneg | hnonneg
    · let b : BoundedInt w := ⟨-a.val, by omega, by omega⟩
      have hb : 0 < b.val := Int.neg_pos_of_neg hneg
      have hab : a.val = -b.val := (Int.neg_neg a.val).symm
      rw [h.evaluate_eq_eval (readsAs_text_of_neg hb hab)
        (.prefixOp .negate (.operand b) (by decide)), eval_negate hab]
    · rw [h.evaluate_eq_eval (readsAs_text_of_nonneg hnonneg) (.operand a)]
      rfl
  · intro ha
    have hneg : a.val < 0 := by omega
    have hnone : (ofInt? (a.val.natAbs : Int) : Option (BoundedInt w)) = none :=
      ofInt?_eq_none_iff.2 (by omega)
    refine ⟨_, text_of_neg hneg, h.evaluate_eq_error ?_⟩
    rw [toList_text_of_neg hneg]
    exact (failsWith_digits hnone).negate

/-- The second smallest integer in two pairs of parentheses with blank characters between them, and
the smallest one in one pair. -/
theorem evaluate_text_in_parentheses :
    let table : SymbolTable (BoundedInt .w32) := (SymbolTable.empty.insertConstant "x" .one).1
    Surrounded "-2147483647".toList "( (\t-2147483647)) ".toList ∧
    evaluate table "( (\t-2147483647)) " = .ok ⟨-2147483647, by decide, by decide⟩ ∧
    Surrounded "-2147483648".toList " (-2147483648)".toList ∧
    evaluate table " (-2147483648)" = .error (.invalidLiteral "2147483648") := by
  intro table
  have hsecond : Number.text (⟨-2147483647, by decide, by decide⟩ : BoundedInt .w32) =
      "-2147483647" := by
    decide +kernel
  have hsmallest : Number.text (⟨-2147483648, by decide, by decide⟩ : BoundedInt .w32) =
      "-" ++ "2147483648" := by
    decide +kernel
  have hpairs : Surrounded "-2147483647".toList "( (\t-2147483647)) ".toList := by
    have hsplit : "( (\t-2147483647)) ".toList =
        '(' :: (' ' :: '(' :: ('\t' :: "-2147483647".toList ++ [')']) ++ [')']) ++ [' '] := by
      decide +kernel
    rw [hsplit]
    exact .blankBehind (by decide) (.parentheses (.blankBefore (by decide)
      (.parentheses (.blankBefore (by decide) .core))))
  have hpair : Surrounded "-2147483648".toList " (-2147483648)".toList := by
    have hsplit : " (-2147483648)".toList = ' ' :: '(' :: ("-2147483648".toList ++ [')']) := by
      decide +kernel
    rw [hsplit]
    exact .blankBefore (by decide) (.parentheses .core)
  obtain ⟨hvalue, -⟩ := evaluate_text table ⟨-2147483647, by decide, by decide⟩
    "( (\t-2147483647)) " (by rw [hsecond]; exact hpairs)
  obtain ⟨-, hfailure⟩ := evaluate_text table ⟨-2147483648, by decide, by decide⟩
    " (-2147483648)" (by rw [hsmallest]; exact hpair)
  obtain ⟨digits, hdigits, hrun⟩ := hfailure (by decide)
  rw [hsmallest] at hdigits
  obtain rfl := (String.append_right_inj _).1 hdigits
  exact ⟨hpairs, hvalue (by decide), hpair, hrun⟩

end BoundedInt

end Formula
