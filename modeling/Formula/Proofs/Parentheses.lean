import Formula.Number.BoundedInt
import Formula.Library.Basic
import Formula.Proofs.Lexing
import Formula.Proofs.Reordering.Acceptance

/-!
# Parentheses in the text, in the tokens and in the reordering

The text of a formula, its tokens and the state of the reordering agree on how many parentheses are
open: the tokens have the depth of their text (`Lexed.depth_eq`), and the reordering has a
parenthesis and a mark for each one (`Reordering.isOpen_of_feed`).  Since the reading admits a
closing parenthesis and a comma only behind an open parenthesis, the reordering finds one whenever
it looks for one (`isOpen_of_tokenize`).  `toPostfix_eq_error_cases` lists what is left for it to
complain about.
-/

namespace Formula

variable {α : Type}

/-! ## Texts -/

/-- The number of parentheses that a text opens, less the number of those that it closes. -/
def textDepth (cs : List Char) : Int :=
  cs.count '(' - cs.count ')'

theorem textDepth_append (cs ds : List Char) :
    textDepth (cs ++ ds) = textDepth cs + textDepth ds := by
  unfold textDepth
  rw [List.count_append, List.count_append]
  omega

theorem textDepth_eq_zero {p : Char → Bool} {cs : List Char} (hcs : ∀ c ∈ cs, p c = true)
    (hopening : p '(' = false) (hclosing : p ')' = false) : textDepth cs = 0 := by
  have hcount : ∀ d, p d = false → cs.count d = 0 := by
    intro d hd
    apply List.count_eq_zero.2
    intro hmem
    rw [hcs d hmem] at hd
    cases hd
  unfold textDepth
  rw [hcount _ hopening, hcount _ hclosing]
  rfl

section Reading

variable [Number α] {table : SymbolTable α} {before : List (Token α)}

omit [Number α] in
theorem StandsFor.weight_eq_zero {afterOperand : Bool} {s : String} {t : Token α}
    (h : StandsFor afterOperand s t) : t.weight = 0 := by
  cases h <;> rfl

theorem textDepth_identifier {cs : List Char} (h : isIdentifierChars cs = true) :
    textDepth cs = 0 := by
  obtain ⟨d, ds, rfl, hd, hds⟩ := isIdentifierChars_iff.1 h
  have hall : ∀ c ∈ d :: ds, continuesIdentifier c = true :=
    List.forall_mem_cons.2 ⟨continuesIdentifier_of_startsIdentifier hd, hds⟩
  exact textDepth_eq_zero hall (by decide +kernel) (by decide +kernel)

/-- A lexeme opens and closes what its token does. -/
theorem IsLexeme.textDepth_eq {lexeme rest : List Char} {t : Token α}
    (h : IsLexeme table before lexeme rest t) : textDepth lexeme = t.weight := by
  cases h with
  | literal _ hrun => exact textDepth_eq_zero hrun (by decide) (by decide)
  | function hrun | constant hrun => exact textDepth_identifier hrun
  | opening | closing | comma => rfl
  | @operator s _ _ hlongest hrole =>
    have hspelling : ∀ c ∈ s.toList, (c != '(' && c != ')') = true := by
      intro c hc
      have hbegins := beginsOperator_of_mem_spelling hlongest.mem hc
      rw [Bool.and_eq_true, bne_iff_ne, bne_iff_ne]
      exact ⟨hbegins.ne_opening, hbegins.ne_closing⟩
    rw [hrole.weight_eq_zero]
    exact textDepth_eq_zero hspelling rfl rfl

theorem Lexed.depth_eq {cs : List Char} {ts : List (Token α)} (h : Lexed table before cs ts) :
    textDepth cs = depth ts := by
  have hgap : ∀ {gap : List Char}, (∀ c ∈ gap, isBlank c = true) → textDepth gap = 0 :=
    fun hblank => textDepth_eq_zero hblank (by decide +kernel) (by decide +kernel)
  induction h with
  | done hblank => exact hgap hblank
  | lexeme hblank hhead _ ih =>
    rw [textDepth_append, textDepth_append, hgap hblank, hhead.textDepth_eq, ih, depth_cons]
    omega

theorem IsLexeme.unclosed_of_comma {lexeme rest : List Char}
    (h : IsLexeme table before lexeme rest .comma) : Unclosed before := by
  cases h with
  | comma hunclosed => exact hunclosed
  | operator _ hrole => cases hrole

omit [Number α] in
theorem eq_closing_of_weight_neg {t : Token α} (h : t.weight < 0) : t = .closing := by
  cases t <;> simp [Token.weight] at h ⊢

/-- Tokens of a text close no parenthesis that is not open. -/
theorem Lexed.nested {cs : List Char} {ts : List (Token α)} (h : Lexed table before cs ts)
    (hbefore : Nested before) : Nested (before ++ ts) := by
  induction h with
  | done => rwa [List.append_nil]
  | @lexeme before gap lexeme rest t ts hblank hhead htail ih =>
    rw [List.append_cons]
    apply ih
    have hdepth := hbefore.depth_nonneg
    rw [nested_concat_iff]
    refine ⟨hbefore, ?_⟩
    by_cases ht : t = .closing
    · have hpos := (unclosed_iff_depth_pos hbefore).1 (hhead.unclosed ht)
      rw [ht, Token.weight]
      omega
    · have hweight : 0 ≤ t.weight := Int.not_lt.1 fun hneg => ht (eq_closing_of_weight_neg hneg)
      omega

/-- Every comma in a text stands in a parenthesis. -/
theorem Lexed.unclosed_of_comma {cs : List Char} {us post : List (Token α)}
    (h : Lexed table before cs (us ++ .comma :: post)) : Unclosed (before ++ us) := by
  induction us generalizing before cs with
  | nil =>
    rw [List.append_nil]
    cases h with
    | lexeme _ hhead _ => exact hhead.unclosed_of_comma
  | cons u us ih =>
    cases h with
    | lexeme _ _ htail =>
      rw [List.append_cons]
      exact ih htail

end Reading

/-! ## The reordering -/

/-- An innermost parenthesis without a call stands behind no function name. -/
theorem Enclosed.exists_group {n : Nat} {slotIsEmpty : Bool} {ps : List Parenthesis}
    {us : List (Token α)} (h : Enclosed (⟨none, n, slotIsEmpty⟩ :: ps) us) :
    ∃ pre inner, us = pre ++ .opening :: inner ∧ Balanced inner ∧ ¬ EndsInFunction pre := by
  generalize hp : (⟨none, n, slotIsEmpty⟩ : Parenthesis) = p at h
  cases h with
  | @inside ps us inner current filled call h hcall hslots hfilled =>
    obtain ⟨rfl, -, -⟩ := Parenthesis.mk.inj hp
    exact ⟨us, inner, rfl, hslots.balanced, hcall rfl⟩

namespace Reordering

theorem Tracks.depth_eq {us : List (Token α)} {s : Reordering α} (h : Tracks us s) :
    depth us = s.parentheses.length := by
  cases h with
  | settled h => exact h.depth_eq
  | awaiting call h hps =>
    rw [depth_append, h.depth_eq, hps, length_withContent]
    rfl

/-- Whether there is a mark below the topmost operators, and a parenthesis for it. -/
structure IsOpen (s : Reordering α) : Prop where
  mark : ∃ ops below, s.held = ops ++ .mark :: below ∧ ∀ x ∈ ops, x.isOperator = true
  parenthesis : ∃ p ps, s.parentheses = p :: ps

theorem IsOpen.held_release {s : Reordering α} (h : s.IsOpen) :
    ∃ below, (s.release Held.isOperator).held = .mark :: below := by
  obtain ⟨ops, below, hheld, hops⟩ := h.mark
  obtain ⟨out, held, ps, awaited⟩ := s
  obtain rfl : held = ops ++ .mark :: below := hheld
  rw [release_isOperator_append_mark hops]
  exact ⟨below, rfl⟩

/-- The reordering has an innermost parenthesis where the tokens have one. -/
theorem isOpen_of_feed {us : List (Token α)} {s : Reordering α}
    (h : ({} : Reordering α).feed us = .ok s) (hdepth : 0 < depth us) : s.IsOpen := by
  rw [(tracks_of_feed h).depth_eq] at hdepth
  have hlength : 0 < s.parentheses.length := by omega
  refine ⟨exists_eq_append_mark ?_, List.exists_cons_of_length_pos hlength⟩
  rwa [count_mark_eq_of_feed h]

/-- A run that fails, fails at one token. -/
theorem exists_push_of_feed {s : Reordering α} {ts : List (Token α)} {e : Failure}
    (h : s.feed ts = .error e) :
    ∃ us t post m, ts = us ++ t :: post ∧ s.feed us = .ok m ∧ m.push t = .error e := by
  induction ts generalizing s with
  | nil => cases h
  | cons t ts ih =>
    rw [feed_cons] at h
    cases hpush : s.push t with
    | error e' =>
      rw [hpush] at h
      cases h
      exact ⟨[], t, ts, s, rfl, rfl, hpush⟩
    | ok m =>
      rw [hpush] at h
      obtain ⟨us, u, post, m', rfl, hus, hu⟩ := ih h
      refine ⟨t :: us, u, post, m', rfl, ?_, hu⟩
      rw [feed_cons, hpush]
      exact hus

/-- What the reordering complains about at one token, if a parenthesis is open where one is closed
or a comma stands. -/
theorem push_eq_error_cases {s : Reordering α} {t : Token α} {e : Failure}
    (hopen : t = .closing ∨ t = .comma → s.IsOpen) (h : s.push t = .error e) :
    (∃ name, e = .unexpectedName name) ∨ (∃ user, e = .missingOperand user) ∨
      (∃ name expected found, e = .wrongArity name expected found) ∨
      e = .strayComma ∧ t = .comma ∧ s.awaited = none ∧
        ∃ n slotIsEmpty ps, s.parentheses = ⟨none, n, slotIsEmpty⟩ :: ps := by
  obtain ⟨out, held, ps, _ | call⟩ := s
  · cases t with
    | operand _ | function _ _ | prefixOp _ | infixOp _ | opening => cases h
    | postfixOp op =>
      simp only [push] at h
      split at h
      · cases h
        exact .inr (.inl ⟨_, rfl⟩)
      · cases h
    | closing =>
      obtain ⟨⟨ops, below, rfl, hops⟩, p, ps, rfl⟩ := hopen (.inl rfl)
      simp only [push, closeParenthesis, release_isOperator_append_mark hops] at h
      obtain ⟨_ | call, n, slotIsEmpty⟩ := p
      · cases h
      · dsimp only at h
        split at h
        · cases h
          exact .inr (.inl ⟨_, rfl⟩)
        · split at h
          · cases h
            exact .inr (.inr (.inl ⟨_, _, _, rfl⟩))
          · cases h
    | comma =>
      obtain ⟨⟨ops, below, rfl, hops⟩, p, ps, rfl⟩ := hopen (.inr rfl)
      simp only [push, nextArgument, release_isOperator_append_mark hops] at h
      obtain ⟨_ | call, n, _ | _⟩ := p
      · cases h
        exact .inr (.inr (.inr ⟨rfl, rfl, rfl, _, _, _, rfl⟩))
      · cases h
        exact .inr (.inr (.inr ⟨rfl, rfl, rfl, _, _, _, rfl⟩))
      · cases h
      · cases h
        exact .inr (.inl ⟨_, rfl⟩)
  · cases t with
    | opening => cases h
    | operand _ | function _ _ | prefixOp _ | postfixOp _ | infixOp _ | closing | comma =>
      cases h
      exact .inl ⟨_, rfl⟩

/-- What the reordering complains about at the end. -/
theorem result_eq_error_cases {s : Reordering α} {e : Failure} (h : s.result = .error e) :
    (∃ name, e = .unexpectedName name) ∨ e = .mismatchedParenthesis ∧ 0 < s.held.count .mark := by
  obtain ⟨out, held, ps, _ | call⟩ := s
  · obtain ⟨ops, rest, rfl, hops, rfl | ⟨below, rfl⟩⟩ := Held.exists_split_isOperator held
    · have hnil : ∀ h ∈ ([] : List Held).head?, h.isOperator = false := by simp
      rw [result, release_append hops hnil] at h
      cases h
    · rw [result, release_isOperator_append_mark hops] at h
      cases h
      exact .inr ⟨rfl, List.count_pos_iff.2 (by simp)⟩
  · cases h
    exact .inl ⟨_, rfl⟩

end Reordering

/-! ## Formulas -/

section Formulas

open Reordering

variable [Number α] {table : SymbolTable α} {formula : String} {ts : List (Token α)}

theorem nested_of_tokenize (h : tokenize table formula = .ok ts) : Nested ts :=
  (tokenize_eq_ok_iff_lexed.1 h).nested nested_nil

theorem unclosed_of_tokenize (h : tokenize table formula = .ok ts) {us post : List (Token α)}
    (heq : ts = us ++ .comma :: post) : Unclosed us := by
  subst heq
  exact (tokenize_eq_ok_iff_lexed.1 h).unclosed_of_comma

theorem depth_of_tokenize (h : tokenize table formula = .ok ts) :
    depth ts = textDepth formula.toList :=
  (tokenize_eq_ok_iff_lexed.1 h).depth_eq.symm

/-- In the tokens of a text, a parenthesis is open wherever one is closed or a comma stands. -/
theorem depth_pos_of_tokenize (h : tokenize table formula = .ok ts) {us post : List (Token α)}
    {t : Token α} (heq : ts = us ++ t :: post) (ht : t = .closing ∨ t = .comma) :
    0 < depth us := by
  have hnested := nested_of_tokenize h
  rw [heq] at hnested
  rcases ht with rfl | rfl
  · rw [List.append_cons] at hnested
    have hdepth := (nested_concat_iff.1 hnested.of_append).2
    rw [Token.weight] at hdepth
    omega
  · exact (unclosed_iff_depth_pos hnested.of_append).1 (unclosed_of_tokenize h heq)

theorem isOpen_of_tokenize (h : tokenize table formula = .ok ts) {us post : List (Token α)}
    {t : Token α} {s : Reordering α} (heq : ts = us ++ t :: post)
    (ht : t = .closing ∨ t = .comma) (hs : ({} : Reordering α).feed us = .ok s) : s.IsOpen :=
  isOpen_of_feed hs (depth_pos_of_tokenize h heq ht)

/-- What is wrong with the tokens of a text that have no postfix order. -/
theorem toPostfix_eq_error_cases (h : tokenize table formula = .ok ts) {e : Failure}
    (he : toPostfix ts = .error e) :
    (∃ name, e = .unexpectedName name) ∨ (∃ user, e = .missingOperand user) ∨
      (∃ name expected found, e = .wrongArity name expected found) ∨
      (e = .strayComma ∧ ∃ pre inner post, ts = pre ++ .opening :: (inner ++ .comma :: post) ∧
        Balanced inner ∧ ¬ EndsInFunction pre) ∨
      e = .mismatchedParenthesis ∧ 0 < depth ts := by
  rw [toPostfix_eq] at he
  cases hfeed : ({} : Reordering α).feed ts with
  | error e' =>
    rw [hfeed] at he
    cases he
    obtain ⟨us, t, post, s, heq, hs, hpush⟩ := exists_push_of_feed hfeed
    have hopen : t = .closing ∨ t = .comma → s.IsOpen := fun ht => isOpen_of_tokenize h heq ht hs
    rcases push_eq_error_cases hopen hpush with
      hname | huser | harity | ⟨rfl, rfl, hawaited, n, slotIsEmpty, ps, hps⟩
    · exact .inl hname
    · exact .inr (.inl huser)
    · exact .inr (.inr (.inl harity))
    · obtain ⟨out, held, ps', awaited⟩ := s
      obtain rfl : awaited = none := hawaited
      obtain rfl : ps' = ⟨none, n, slotIsEmpty⟩ :: ps := hps
      cases tracks_of_feed hs with
      | settled henclosed _ =>
        obtain ⟨pre, inner, rfl, hinner, hpre⟩ := henclosed.exists_group
        refine .inr (.inr (.inr (.inl ⟨rfl, pre, inner, post, ?_, hinner, hpre⟩)))
        rw [heq, List.append_assoc, List.cons_append]
  | ok s =>
    rw [hfeed] at he
    rcases result_eq_error_cases he with hname | ⟨rfl, hmarks⟩
    · exact .inl hname
    · refine .inr (.inr (.inr (.inr ⟨rfl, ?_⟩)))
      rw [(tracks_of_feed hfeed).depth_eq, ← count_mark_eq_of_feed hfeed]
      omega

omit [Number α] in
theorem depth_eq_zero_of_toPostfix {p : List (Token α)} (hp : toPostfix ts = .ok p) :
    depth ts = 0 := by
  obtain ⟨s, hs, hresult⟩ := bind_eq_ok_iff.1 hp
  exact ((tracks_of_feed hs).exists_result_iff (count_mark_eq_of_feed hs)).1 ⟨p, hresult⟩ |>.1

/-- The reading and the reordering of a formula agree on its parentheses.  No prefix of the tokens
closes more than it opens, and every comma stands in a parenthesis, so that the reordering has a
mark and a parenthesis wherever it meets a closing parenthesis or a comma.  It complains about
parentheses only if the text opens more than it closes, and then it complains in any case; it
complains about a comma only if the innermost parenthesis around some comma is not that of a
call. -/
theorem parentheses_of_tokenize (h : tokenize table formula = .ok ts) :
    Nested ts ∧
    (∀ us post, ts = us ++ .comma :: post → Unclosed us) ∧
    (∀ us t post s, ts = us ++ t :: post → t = .closing ∨ t = .comma →
      ({} : Reordering α).feed us = .ok s →
        (∃ below, (s.release Held.isOperator).held = .mark :: below) ∧ s.parentheses ≠ []) ∧
    (toPostfix ts = .error .mismatchedParenthesis →
      formula.toList.count ')' < formula.toList.count '(') ∧
    (formula.toList.count ')' < formula.toList.count '(' → ∃ e, toPostfix ts = .error e) ∧
    (toPostfix ts = .error .strayComma →
      ∃ pre inner post, ts = pre ++ .opening :: (inner ++ .comma :: post) ∧ Balanced inner ∧
        ¬ EndsInFunction pre) := by
  have hdepth : depth ts = formula.toList.count '(' - formula.toList.count ')' :=
    depth_of_tokenize h
  refine ⟨nested_of_tokenize h, fun us post heq => unclosed_of_tokenize h heq,
    fun us t post s heq ht hs => ?_, fun he => ?_, fun hcount => ?_, fun he => ?_⟩
  · have hopen := isOpen_of_tokenize h heq ht hs
    obtain ⟨p, ps, hps⟩ := hopen.parenthesis
    refine ⟨hopen.held_release, ?_⟩
    rw [hps]
    exact List.cons_ne_nil p ps
  · rcases toPostfix_eq_error_cases h he with
      ⟨_, he⟩ | ⟨_, he⟩ | ⟨_, _, _, he⟩ | ⟨he, -⟩ | ⟨-, hpos⟩
    · cases he
    · cases he
    · cases he
    · cases he
    · omega
  · cases hp : toPostfix ts with
    | error e => exact ⟨e, rfl⟩
    | ok p =>
      have hzero := depth_eq_zero_of_toPostfix hp
      omega
  · rcases toPostfix_eq_error_cases h he with
      ⟨_, he⟩ | ⟨_, he⟩ | ⟨_, _, _, he⟩ | ⟨-, hgroup⟩ | ⟨he, -⟩
    · cases he
    · cases he
    · cases he
    · exact hgroup
    · cases he

/-- In `max((1, 2), 3)` the first comma stands in a parenthesis that is no call's, and `max(1, (2)`
leaves a parenthesis open. -/
theorem parentheses_of_tokenize_maximum :
    (∃ ts, tokenize (Library.addBasic SymbolTable.empty : SymbolTable (BoundedInt .w64))
        "max((1, 2), 3)" = .ok ts ∧ toPostfix ts = .error .strayComma ∧
      ∃ pre inner post, ts = pre ++ .opening :: (inner ++ .comma :: post) ∧ Balanced inner ∧
        ¬ EndsInFunction pre) ∧
    ∃ ts, tokenize (Library.addBasic SymbolTable.empty : SymbolTable (BoundedInt .w64))
        "max(1, (2)" = .ok ts ∧ Nested ts ∧ toPostfix ts = .error .mismatchedParenthesis ∧
      "max(1, (2)".toList.count ')' < "max(1, (2)".toList.count '(' := by
  constructor
  · have hts : tokenize (Library.addBasic SymbolTable.empty : SymbolTable (BoundedInt .w64))
        "max((1, 2), 3)" = .ok [.function "max" 2, .opening, .opening, .operand .one, .comma,
          .operand ⟨2, by decide, by decide⟩, .closing, .comma,
          .operand ⟨3, by decide, by decide⟩, .closing] := by decide +kernel
    obtain ⟨-, -, -, -, -, hstray⟩ := parentheses_of_tokenize hts
    exact ⟨_, hts, rfl, hstray rfl⟩
  · have hts : tokenize (Library.addBasic SymbolTable.empty : SymbolTable (BoundedInt .w64))
        "max(1, (2)" = .ok [.function "max" 2, .opening, .operand .one, .comma, .opening,
          .operand ⟨2, by decide, by decide⟩, .closing] := by decide +kernel
    obtain ⟨hnested, -, -, hmismatched, -, -⟩ := parentheses_of_tokenize hts
    exact ⟨_, hts, hnested, rfl, hmismatched rfl⟩

end Formulas

end Formula
