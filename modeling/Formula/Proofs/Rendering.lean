import Formula.Proofs.IntegerLiteral
import Formula.Proofs.Lexing
import Formula.Proofs.Symbols

/-!
# Reading rendered tokens

The tokens of a text, written out with blank characters between them, are read as the same tokens
again: the blanks end every lexeme, and what a spelling stands for depends on the token before it
only.  Aliases of operators are written in one way, and constants as literals, so that a value must
have a literal (`ReadsBack`).  Integers from zero on do (`BoundedInt.readsBack`), and no others come
out of a text unless a constant is negative (`tokenize_render_and_spaced`).
-/

namespace Formula

variable {α : Type} [Number α]

/-! ## Rendered texts -/

/-- Whether a text consists of the texts of the tokens `ts`, with one or more blank characters
between each two. -/
inductive Spaced : List (Token α) → List Char → Prop
  | nil : Spaced [] []
  | singleton (t : Token α) : Spaced [t] t.text.toList
  | cons (gap : List Char) {cs : List Char} {t u : Token α} {ts : List (Token α)}
      (ne_nil : gap ≠ []) (blank : ∀ c ∈ gap, isBlank c = true) (tail : Spaced (u :: ts) cs) :
      Spaced (t :: u :: ts) (t.text.toList ++ (gap ++ cs))

theorem spaced_render : ∀ ts : List (Token α), Spaced ts (Token.render ts).toList
  | [] => .nil
  | [t] => by
    have htext : Token.render [t] = t.text := by simp [Token.render]
    rw [htext]
    exact .singleton t
  | t :: u :: ts => by
    have htail := spaced_render (u :: ts)
    have htext : Token.render (t :: u :: ts) = t.text ++ " " ++ Token.render (u :: ts) :=
      String.intercalate_cons_cons
    rw [htext, String.toList_append, String.toList_append, List.append_assoc]
    exact .cons [' '] nofun (List.all_eq_true.1 rfl) htail

/-! ## One token -/

/-- Whether the text of a value is a literal of the value. -/
structure ReadsBack (a : α) : Prop where
  ne_nil : (Number.text a).toList ≠ []
  run : ∀ c ∈ (Number.text a).toList, isLiteralChar c = true
  dots : (Number.text a).toList.count '.' ≤ 1
  value : Number.ofLiteral? (Number.text a).toList = some a

/-- Whether a text is empty or begins with a blank character. -/
abbrev BlankNext (rest : List Char) : Prop :=
  Ends (fun c => !isBlank c) rest

omit [Number α] in
theorem BlankNext.ends {rest : List Char} (h : BlankNext rest) {p : Char → Bool}
    (hp : ∀ {c}, isBlank c = true → p c = false) : Ends p rest :=
  fun c hc => hp (by simpa using h c hc)

theorem Token.toList_text_opening : (opening : Token α).text.toList = ['('] := by
  simp [text]

theorem Token.toList_text_closing : (closing : Token α).text.toList = [')'] := by
  simp [text]

theorem Token.toList_text_comma : (comma : Token α).text.toList = [','] := by
  simp [text]

theorem longestSpelling_append {s : String} {rest : List Char} (hs : s ∈ operatorSpellings)
    (hrest : BlankNext rest) : LongestSpelling s (s.toList ++ rest) := by
  refine ⟨hs, List.prefix_append _ _, fun s' hs' hpre => ?_⟩
  rcases List.prefix_or_prefix_of_prefix hpre (List.prefix_append _ _) with h | ⟨us, hus⟩
  · exact h.length_le
  · rw [← hus, List.prefix_append_right_inj] at hpre
    rcases us with _ | ⟨c, us⟩
    · rw [← hus, List.append_nil]
    · -- A longer spelling would hold the blank character behind `s`.
      have hblank : isBlank c = true := by
        obtain ⟨vs, rfl⟩ := hpre
        simpa using hrest c rfl
      have hc := (beginsOperator_of_mem_spelling hs' (c := c) (by simp [← hus])).isBlank_eq_false
      rw [hblank] at hc
      cases hc

theorem InfixOp.spelling_mem (op : InfixOp) : op.spelling ∈ operatorSpellings := by
  cases op <;> decide

theorem PrefixOp.spelling_mem (op : PrefixOp) : op.spelling ∈ operatorSpellings := by
  cases op <;> decide

theorem PostfixOp.spelling_mem (op : PostfixOp) : op.spelling ∈ operatorSpellings := by
  cases op; decide

theorem InfixOp.spelling_ne_postfix (op : InfixOp) (op' : PostfixOp) :
    op.spelling ≠ op'.spelling := by
  cases op' with
  | factorial => cases op <;> decide

/-- An operator has no alias in place of a spelling that it shares with a prefix operator. -/
theorem InfixOp.IsSpelling.spelling_ne_prefix {op : InfixOp} {s : String} (hs : op.IsSpelling s)
    (h : ∀ op' : PrefixOp, s ≠ op'.spelling) (op' : PrefixOp) : op.spelling ≠ op'.spelling := by
  rcases hs with rfl | ⟨rfl, -⟩ | ⟨rfl, -⟩
  · exact h op'
  · cases op' <;> decide
  · cases op' <;> decide

theorem StandsFor.text {afterOperand : Bool} {s : String} {t : Token α}
    (h : StandsFor afterOperand s t) :
    t.text ∈ operatorSpellings ∧ StandsFor afterOperand t.text t := by
  cases h with
  | @postfixOp op hafter => exact ⟨op.spelling_mem, .postfixOp hafter rfl⟩
  | @prefixOp op hafter => exact ⟨op.spelling_mem, .prefixOp hafter rfl⟩
  | @infixOp op hpost hpre hspelling =>
    exact ⟨op.spelling_mem, .infixOp (fun _ => op.spelling_ne_postfix)
      (fun hbefore => hspelling.spelling_ne_prefix (hpre hbefore)) (.inl rfl)⟩

theorem IsLexeme.text {table : SymbolTable α} {before : List (Token α)}
    {lexeme rest rest' : List Char} {t : Token α} (h : IsLexeme table before lexeme rest t)
    (hread : ∀ a, t = .operand a → ReadsBack a) (hrest : BlankNext rest') :
    IsLexeme table before t.text.toList rest' t := by
  have hliteral := hrest.ends isLiteralChar_eq_false_of_isBlank
  have hword := hrest.ends continuesIdentifier_eq_false_of_isBlank
  cases h with
  | @literal _ _ a | @constant _ _ a =>
    obtain ⟨hne, hrun, hdots, hvalue⟩ := hread a rfl
    exact .literal hne hrun hliteral hdots hvalue
  | @function lexeme _ f hrun _ hlookup =>
    have htext : (Token.function (String.ofList lexeme) f.arity : Token α).text.toList = lexeme :=
      String.toList_ofList
    rw [htext]
    exact .function hrun hword hlookup
  | opening =>
    rw [Token.toList_text_opening]
    exact .opening
  | closing hunclosed =>
    rw [Token.toList_text_closing]
    exact .closing hunclosed
  | comma hunclosed =>
    rw [Token.toList_text_comma]
    exact .comma hunclosed
  | operator _ hrole =>
    obtain ⟨hmem, hrole⟩ := hrole.text
    exact .operator (longestSpelling_append hmem hrest) hrole

/-! ## Whole texts -/

theorem Lexed.of_spaced {table : SymbolTable α} {before : List (Token α)} {cs cs' : List Char}
    {ts : List (Token α)} (h : Lexed table before cs ts)
    (hread : ∀ before lexeme rest a, IsLexeme table before lexeme rest (.operand a) → ReadsBack a)
    (hspaced : Spaced ts cs') : Lexed table before cs' ts := by
  induction h generalizing cs' with
  | done =>
    cases hspaced
    exact .done nofun
  | @lexeme before _ _ _ t ts _ hhead _ ih =>
    have htext : ∀ {rest'}, BlankNext rest' → IsLexeme table before t.text.toList rest' t :=
      hhead.text fun a ha => hread before _ _ a (ha ▸ hhead)
    cases hspaced with
    | singleton =>
      have hlast : Lexed table before (t.text.toList ++ []) [t] := .cons (htext nofun) (.done nofun)
      rwa [List.append_nil] at hlast
    | @cons gap cs _ _ _ hne hblank htail =>
      have hnext : BlankNext (gap ++ cs) := by
        obtain ⟨c, gap, rfl⟩ := List.exists_cons_of_ne_nil hne
        rintro d ⟨⟩
        simpa using hblank c List.mem_cons_self
      exact .cons (htext hnext) ((ih htail).gap_append hblank)

/-! ## Integers -/

theorem Decimal.isLiteralChar_of_mem_digits {n : Nat} {c : Char} (hc : c ∈ digits n) :
    isLiteralChar c = true := by
  rw [isLiteralChar, isDigit_of_mem_digits hc, Bool.true_or]

theorem Decimal.count_dot_digits (n : Nat) : (digits n).count '.' = 0 :=
  List.count_eq_zero.2 fun hdot => by cases isDigit_of_mem_digits hdot

namespace BoundedInt

variable {w : Width}

theorem nonneg_of_ofLiteral? {cs : List Char} {a : BoundedInt w}
    (hcs : ∀ c ∈ cs, isLiteralChar c = true) (h : ofLiteral? cs = some a) : 0 ≤ a.val := by
  obtain ⟨-, whole, hwhole, hv⟩ := ofLiteral?_eq_some_iff.1 h
  generalize a.val = v at hv
  rcases hv with ⟨-, rfl⟩ | hv
  · exact Int.le_refl 0
  · cases hv with
    | unsigned _ => exact Int.natCast_nonneg _
    | plus _ => exact Int.natCast_nonneg _
    | minus _ => cases hcs '-' (hwhole.subset List.mem_cons_self)

theorem toList_text_of_nonneg {a : BoundedInt w} (ha : 0 ≤ a.val) :
    (Number.text a).toList = Decimal.digits a.val.natAbs := by
  have htext : (Number.text a).toList = Decimal.ofInt a.val := String.toList_ofList
  rw [htext, Decimal.ofInt, if_neg (Int.not_lt.2 ha)]

theorem ofLiteral?_digits (n : Nat) :
    (ofLiteral? (Decimal.digits n) : Option (BoundedInt w)) = ofInt? n :=
  ofLiteral?_of_writesInt (.unsigned (Decimal.writes_digits n))

theorem readsBack {a : BoundedInt w} (ha : 0 ≤ a.val) : ReadsBack a := by
  refine ⟨?_, ?_, ?_, ?_⟩ <;> rw [toList_text_of_nonneg ha]
  · exact Nat.toDigits_ne_nil
  · exact fun c => Decimal.isLiteralChar_of_mem_digits
  · rw [Decimal.count_dot_digits]
    exact Nat.zero_le 1
  · change ofLiteral? _ = _
    rw [ofLiteral?_digits, Int.natAbs_of_nonneg ha, ofInt?_val]

end BoundedInt

section Rendering

variable {w : Width} {table : SymbolTable (BoundedInt w)}

theorem SymbolTable.constant?_of_lookup? {β : Type} {table : SymbolTable β} {name : String} {a : β}
    (h : table.lookup? name = some (.constant a)) : table.constant? name = some a := by
  unfold lookup? at h
  split at h
  · cases h
  · obtain ⟨b, hb, hab⟩ := Option.map_eq_some_iff.1 h
    cases hab
    exact hb

theorem IsLexeme.readsBack {before : List (Token (BoundedInt w))} {lexeme rest : List Char}
    {a : BoundedInt w} (hconstant : ∀ name a, table.constant? name = some a → 0 ≤ a.val)
    (h : IsLexeme table before lexeme rest (.operand a)) : ReadsBack a := by
  apply BoundedInt.readsBack
  cases h with
  | literal _ hrun _ _ hvalue => exact BoundedInt.nonneg_of_ofLiteral? hrun hvalue
  | constant _ _ hlookup => exact hconstant _ a (SymbolTable.constant?_of_lookup? hlookup)
  | operator _ hrole => cases hrole

/-- The tokens of a text of integers are the tokens of their rendering too, and of every text that
has blank characters in place of its spaces, unless a constant is negative. -/
theorem tokenize_render_and_spaced {formula : String} {ts : List (Token (BoundedInt w))}
    (hconstant : ∀ name a, table.constant? name = some a → 0 ≤ a.val)
    (h : tokenize table formula = .ok ts) :
    tokenize table (Token.render ts) = .ok ts ∧
      ∀ text : String, Spaced ts text.toList → tokenize table text = .ok ts := by
  have hlexed := lexed_of_readTokens ReadingContext.describes_start h
  have hread : ∀ text : String, Spaced ts text.toList → tokenize table text = .ok ts :=
    fun text hspaced =>
      (hlexed.of_spaced (fun _ _ _ _ => IsLexeme.readsBack hconstant) hspaced).readTokens_eq
        ReadingContext.describes_start
  exact ⟨hread _ (spaced_render ts), hread⟩

/-- With 1 called `x`, the tokens of `-x<>5!` are those of their rendering, and of the rendering
with other blank characters. -/
theorem tokenize_negated_constant_unlike_factorial :
    (∀ name a, (SymbolTable.empty.insertConstant "x" (.one : BoundedInt .w32)).1.constant? name =
      some a → 0 ≤ a.val) ∧
    ∃ ts, tokenize (SymbolTable.empty.insertConstant "x" (.one : BoundedInt .w32)).1 "-x<>5!" =
        .ok ts ∧
      tokenize (SymbolTable.empty.insertConstant "x" (.one : BoundedInt .w32)).1 "- 1 != 5 !" =
        .ok ts ∧
      tokenize (SymbolTable.empty.insertConstant "x" (.one : BoundedInt .w32)).1 "-\t1\n!=  5 !" =
        .ok ts := by
  have hconstant : ∀ name a,
      (SymbolTable.empty.insertConstant "x" (.one : BoundedInt .w32)).1.constant? name = some a →
        0 ≤ a.val := by
    intro name a h
    rw [SymbolTable.constant?_insertConstant (by decide +kernel)] at h
    split at h
    · cases h
      decide
    · cases h
  have htokens : tokenize (SymbolTable.empty.insertConstant "x" (.one : BoundedInt .w32)).1
      "-x<>5!" = .ok [.prefixOp .negate, .operand .one, .infixOp .notEqual,
        .operand ⟨5, by decide, by decide⟩, .postfixOp .factorial] := by decide +kernel
  obtain ⟨hrender, hspaced⟩ := tokenize_render_and_spaced hconstant htokens
  have htail : Spaced [.operand (.one : BoundedInt .w32), .infixOp .notEqual,
      .operand ⟨5, by decide, by decide⟩, .postfixOp .factorial] "1\n!=  5 !".toList :=
    .cons ['\n'] nofun (List.all_eq_true.1 rfl) <|
      .cons [' ', ' '] nofun (List.all_eq_true.1 rfl) <|
      .cons [' '] nofun (List.all_eq_true.1 rfl) <| .singleton _
  exact ⟨hconstant, _, htokens, hrender,
    hspaced _ (.cons ['\t'] nofun (List.all_eq_true.1 rfl) htail)⟩

end Rendering

end Formula
