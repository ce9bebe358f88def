import Mathlib.Data.List.Infix
import Formula.Proofs.Parentheses

/-!
# Where the reading of a text fails

A text has no tokens exactly if it begins with lexemes behind which a piece stands that is refused
(`tokenize_eq_error_iff`).  `LexedUpTo` is the lexical grammar for a text that goes on, and
`IsRefused` says which pieces are refused and why; both leave open how the pieces are found.

Lexemes that end in front of something stay lexemes when the text is cut off behind them and when it
is continued at its end: a run that has ended stays ended, and every beginning of an operator
spelling is an operator spelling itself, so that none was waiting for its last character.  So the
failure of a text says something about all its continuations.
-/

namespace Formula

variable {α : Type}

/-! ## Operator spellings -/

theorem ofList_mem_operatorSpellings {s : String} (hs : s ∈ operatorSpellings) {cs : List Char}
    (hcs : cs ≠ []) (hpre : cs <+: s.toList) : String.ofList cs ∈ operatorSpellings := by
  have h : ∀ s ∈ operatorSpellings, ∀ cs ∈ s.toList.inits, cs ≠ [] →
      String.ofList cs ∈ operatorSpellings := by
    decide +kernel
  exact h s hs cs ((List.mem_inits _ _).2 hpre) hcs

theorem head?_of_prefix_cons {s : String} (hs : s ∈ operatorSpellings) {c : Char} {cs : List Char}
    (hpre : s.toList <+: c :: cs) : s.toList.head? = some c := by
  obtain ⟨d, ds, hds⟩ := List.exists_cons_of_ne_nil (ne_nil_of_mem_operatorSpellings hs)
  rw [hds, List.cons_prefix_cons] at hpre
  rw [hds, hpre.1, List.head?_cons]

theorem longestSpelling?_eq_none_iff {c : Char} {cs : List Char} :
    longestSpelling? (c :: cs) = none ↔ ∀ s ∈ operatorSpellings, s.toList.head? ≠ some c := by
  unfold longestSpelling?
  rw [List.find?_eq_none]
  constructor
  · intro h s hs hhead
    -- The first character of a spelling is a spelling.
    obtain ⟨ds, hds⟩ := List.head?_eq_some_iff.1 hhead
    have hpre : [c] <+: s.toList := hds ▸ ⟨ds, rfl⟩
    apply h _ (ofList_mem_operatorSpellings hs (List.cons_ne_nil c []) hpre)
    rw [String.toList_ofList, List.isPrefixOf_iff_prefix]
    exact ⟨cs, rfl⟩
  · intro h s hs hpre
    exact h s hs (head?_of_prefix_cons hs (List.isPrefixOf_iff_prefix.1 hpre))

namespace LongestSpelling

variable {s : String} {cs rest : List Char}

theorem truncate (h : LongestSpelling s (s.toList ++ (cs ++ rest))) :
    LongestSpelling s (s.toList ++ cs) := by
  refine ⟨h.mem, List.prefix_append _ _, fun s' hs' hpre => h.length_le s' hs' ?_⟩
  rw [← List.append_assoc]
  exact hpre.trans (List.prefix_append _ _)

/-- A spelling with something behind it does not grow with the text. -/
theorem extend (h : LongestSpelling s (s.toList ++ rest)) (hrest : rest ≠ []) (us : List Char) :
    LongestSpelling s (s.toList ++ (rest ++ us)) := by
  refine ⟨h.mem, List.prefix_append _ _, fun s' hs' hpre => ?_⟩
  by_contra hlonger
  have hlength := List.length_pos_iff.2 hrest
  -- One character more than `s` would be a spelling in the shorter text already.
  have htake := List.take_prefix (s.toList.length + 1) s'.toList
  have hshort : s'.toList.take (s.toList.length + 1) <+: s.toList ++ rest := by
    refine List.prefix_of_prefix_length_le (htake.trans hpre) ?_ ?_
    · rw [← List.append_assoc]
      exact List.prefix_append _ _
    · rw [List.length_take, List.length_append]
      omega
  have hne : s'.toList.take (s.toList.length + 1) ≠ [] := by
    rw [← List.length_pos_iff, List.length_take]
    omega
  have hle := h.length_le _ (ofList_mem_operatorSpellings hs' hne htake)
    (by rwa [String.toList_ofList])
  rw [String.toList_ofList, List.length_take] at hle
  omega

end LongestSpelling

/-- No other spelling begins like that of the negation or that of the complement. -/
theorem PrefixOp.longestSpelling {op : PrefixOp} (hop : op ≠ .not) (rest : List Char) :
    LongestSpelling op.spelling (op.spelling.toList ++ rest) := by
  have h : ∀ s ∈ operatorSpellings, s.toList.head? = some '-' ∨ s.toList.head? = some '~' →
      s.toList.length ≤ 1 := by
    decide
  refine ⟨?_, List.prefix_append _ _, fun s hs hpre => ?_⟩
  · cases op <;> decide
  · cases op with
    | negate => exact h s hs (.inl (head?_of_prefix_cons hs hpre))
    | not => exact absurd rfl hop
    | bitNot => exact h s hs (.inr (head?_of_prefix_cons hs hpre))

/-- What an operator spelling is refused for. -/
theorem readOperator_eq_error {afterOperand : Bool} {s : String} {e : Failure}
    (h : (readOperator afterOperand s : Except Failure (Token α)) = .error e) :
    e = .misplacedOperator s ∧ InfixOp.ofSpelling? s = none ∧
      (PostfixOp.ofSpelling? s = none ∨ PrefixOp.ofSpelling? s = none) := by
  have hreadInfix : (readInfix s : Except Failure (Token α)) = .error e →
      e = .misplacedOperator s ∧ InfixOp.ofSpelling? s = none := by
    intro h
    unfold readInfix at h
    split at h
    · cases h
    · cases h
      exact ⟨rfl, ‹_›⟩
  unfold readOperator at h
  split at h
  · split at h
    · cases h
    · rename_i hpost
      obtain ⟨he, hinfix⟩ := hreadInfix h
      exact ⟨he, hinfix, .inl hpost⟩
  · split at h
    · cases h
    · rename_i hpre
      obtain ⟨he, hinfix⟩ := hreadInfix h
      exact ⟨he, hinfix, .inr hpre⟩

theorem readOperator_eq_error_iff {afterOperand : Bool} {s : String} {e : Failure} :
    (readOperator afterOperand s : Except Failure (Token α)) = .error e ↔
      e = .misplacedOperator s ∧ ∀ t : Token α, ¬ StandsFor afterOperand s t := by
  constructor
  · intro h
    refine ⟨(readOperator_eq_error h).1, fun t ht => ?_⟩
    rw [ht.readOperator_eq] at h
    cases h
  · rintro ⟨rfl, hrole⟩
    cases h : (readOperator afterOperand s : Except Failure (Token α)) with
    | ok t => exact absurd (standsFor_of_readOperator h) (hrole t)
    | error e => rw [(readOperator_eq_error h).1]

/-- Only the complement has places where it is no operator. -/
theorem eq_bitNot_of_forall_not_standsFor {afterOperand : Bool} {s : String}
    (hs : s ∈ operatorSpellings) (h : ∀ t : Token α, ¬ StandsFor afterOperand s t) :
    s = PrefixOp.bitNot.spelling := by
  have hspellings : ∀ s ∈ operatorSpellings, InfixOp.ofSpelling? s = none →
      PostfixOp.ofSpelling? s = none ∨ PrefixOp.ofSpelling? s = none →
        s = PrefixOp.bitNot.spelling := by
    decide
  obtain ⟨-, hinfix, hother⟩ := readOperator_eq_error (readOperator_eq_error_iff.2 ⟨rfl, h⟩)
  exact hspellings s hs hinfix hother

theorem Ends.truncate {p : Char → Bool} {cs rest : List Char} (h : Ends p (cs ++ rest)) :
    Ends p cs := by
  intro c hc
  exact h c (List.mem_head?_append_of_mem_head? hc)

theorem Ends.extend {p : Char → Bool} {rest : List Char} (h : Ends p rest) (hrest : rest ≠ [])
    (us : List Char) : Ends p (rest ++ us) := by
  intro c hc
  rw [List.head?_append_of_ne_nil _ hrest] at hc
  exact h c hc

/-! ## Lexemes in front of something -/

section Grammar

variable [Number α] {table : SymbolTable α} {before : List (Token α)}

namespace IsLexeme

variable {lexeme cs rest : List Char} {t : Token α}

/-- A lexeme asks of the text behind it that its run ends there or that its spelling is the longest. -/
theorem change_rest {rest' : List Char} (h : IsLexeme table before lexeme rest t)
    (hends : ∀ p, Ends p rest → Ends p rest')
    (hlongest : ∀ s, LongestSpelling s (s.toList ++ rest) → LongestSpelling s (s.toList ++ rest')) :
    IsLexeme table before lexeme rest' t := by
  cases h with
  | literal hne hrun hend hdots hvalue => exact .literal hne hrun (hends _ hend) hdots hvalue
  | function hrun hend hlookup => exact .function hrun (hends _ hend) hlookup
  | constant hrun hend hlookup => exact .constant hrun (hends _ hend) hlookup
  | opening => exact .opening
  | closing hunclosed => exact .closing hunclosed
  | comma hunclosed => exact .comma hunclosed
  | operator hspelling hrole => exact .operator (hlongest _ hspelling) hrole

theorem truncate (h : IsLexeme table before lexeme (cs ++ rest) t) :
    IsLexeme table before lexeme cs t :=
  h.change_rest (fun _ hend => hend.truncate) (fun _ hspelling => hspelling.truncate)

theorem extend (h : IsLexeme table before lexeme rest t) (hrest : rest ≠ []) (us : List Char) :
    IsLexeme table before lexeme (rest ++ us) t :=
  h.change_rest (fun _ hend => hend.extend hrest us) (fun _ hspelling => hspelling.extend hrest us)

end IsLexeme

/-- Whether a text, which the text `rest` follows and the tokens `before` precede, is a sequence of
lexemes with the tokens `ts`, with any blank characters before, between and after them. -/
inductive LexedUpTo (table : SymbolTable α) (rest : List Char) :
    List (Token α) → List Char → List (Token α) → Prop
  | done {before : List (Token α)} : LexedUpTo table rest before [] []
  | blank {before : List (Token α)} {c : Char} {cs : List Char} {ts : List (Token α)}
      (blank : isBlank c = true) (tail : LexedUpTo table rest before cs ts) :
      LexedUpTo table rest before (c :: cs) ts
  | lexeme {before : List (Token α)} {lexeme cs : List Char} {t : Token α} {ts : List (Token α)}
      (head : IsLexeme table before lexeme (cs ++ rest) t)
      (tail : LexedUpTo table rest (before ++ [t]) cs ts) :
      LexedUpTo table rest before (lexeme ++ cs) (t :: ts)

namespace LexedUpTo

variable {cs rest : List Char} {ts : List (Token α)}

/-- Without what follows it, the text is one that can be read to its end. -/
theorem lexed (h : LexedUpTo table rest before cs ts) : Lexed table before cs ts := by
  induction h with
  | done => exact .done (by simp)
  | blank hblank _ ih =>
    have hgap : ∀ d ∈ [_], isBlank d = true := List.forall_mem_singleton.2 hblank
    exact ih.gap_append hgap
  | lexeme hhead _ ih => exact .cons hhead.truncate ih

/-- What follows the text may be continued. -/
theorem extend (h : LexedUpTo table rest before cs ts) (hrest : rest ≠ []) (us : List Char) :
    LexedUpTo table (rest ++ us) before cs ts := by
  induction h with
  | done => exact .done
  | blank hblank _ ih => exact .blank hblank ih
  | lexeme hhead _ ih =>
    have hextended := hhead.extend (List.append_ne_nil_of_right_ne_nil _ hrest) us
    rw [List.append_assoc] at hextended
    exact .lexeme hextended ih

theorem append {ds : List Char} {us : List (Token α)}
    (h : LexedUpTo table (ds ++ rest) before cs ts)
    (hnext : LexedUpTo table rest (before ++ ts) ds us) :
    LexedUpTo table rest before (cs ++ ds) (ts ++ us) := by
  induction h with
  | done => rwa [List.append_nil] at hnext
  | blank hblank _ ih => exact .blank hblank (ih hnext)
  | lexeme hhead _ ih =>
    rw [List.append_cons] at hnext
    rw [← List.append_assoc] at hhead
    rw [List.append_assoc]
    exact .lexeme hhead (ih hnext)

end LexedUpTo

/-! ## Refused pieces -/

/-- Whether a text is refused for the piece it begins with, `offset` bytes behind the start of the
whole text and behind the tokens `before`. -/
inductive IsRefused (table : SymbolTable α) (before : List (Token α)) (offset : Nat) :
    List Char → Failure → Prop
  /-- A character that begins no lexeme. -/
  | unknown {c : Char} {rest : List Char} (kind : BeginsOperator c)
      (no_spelling : ∀ s ∈ operatorSpellings, s.toList.head? ≠ some c) :
      IsRefused table before offset (c :: rest) (.unexpectedCharacter c offset)
  | closing {rest : List Char} (closed : ¬ Unclosed before) :
      IsRefused table before offset (')' :: rest) (.unopenedParenthesis offset)
  | comma {rest : List Char} (closed : ¬ Unclosed before) :
      IsRefused table before offset (',' :: rest) .strayComma
  /-- A longest operator spelling that stands for no operator here. -/
  | operator {s : String} {rest : List Char} (longest : LongestSpelling s (s.toList ++ rest))
      (no_role : ∀ t : Token α, ¬ StandsFor (before.getLast?.any Token.endsOperand) s t) :
      IsRefused table before offset (s.toList ++ rest) (.misplacedOperator s)
  /-- A longest run of digits and dots, with more dots than one. -/
  | dots {lexeme rest : List Char} (run : ∀ c ∈ lexeme, isLiteralChar c = true)
      (ends : Ends isLiteralChar rest) (dots : 1 < lexeme.count '.') :
      IsRefused table before offset (lexeme ++ rest) (.severalDots (String.ofList lexeme))
  /-- A longest run of digits and dots that is the literal of no number. -/
  | literal {lexeme rest : List Char} (ne_nil : lexeme ≠ [])
      (run : ∀ c ∈ lexeme, isLiteralChar c = true) (ends : Ends isLiteralChar rest)
      (dots : lexeme.count '.' ≤ 1) (no_value : (Number.ofLiteral? lexeme : Option α) = none) :
      IsRefused table before offset (lexeme ++ rest) (.invalidLiteral (String.ofList lexeme))
  /-- A longest identifier that is no name. -/
  | name {lexeme rest : List Char} (run : isIdentifierChars lexeme = true)
      (ends : Ends continuesIdentifier rest)
      (no_symbol : table.lookup? (String.ofList lexeme) = none) :
      IsRefused table before offset (lexeme ++ rest) (.unexpectedName (String.ofList lexeme))

theorem Lexeme.first_unknown {c : Char} (hc : BeginsOperator c)
    (hspellings : ∀ s ∈ operatorSpellings, s.toList.head? ≠ some c) (cs : List Char) :
    Lexeme.first c cs = (.unknown c, cs) := by
  simp only [Lexeme.first, hc.isBlank_eq_false, hc.isLiteralChar_eq_false,
    hc.startsIdentifier_eq_false, hc.ne_opening, hc.ne_closing, hc.ne_comma, Bool.false_eq_true,
    if_false, longestSpelling?_eq_none_iff.2 hspellings]

section Piece

variable {ctx : ReadingContext} {e : Failure}

theorem isRefused_of_readLiteral {offset : Nat} {lexeme rest : List Char} (hne : lexeme ≠ [])
    (hrun : ∀ c ∈ lexeme, isLiteralChar c = true) (hends : Ends isLiteralChar rest)
    (he : (readLiteral lexeme : Except Failure (Token α)) = .error e) :
    IsRefused table before offset (lexeme ++ rest) e := by
  unfold readLiteral at he
  split at he
  · cases he
    exact .dots hrun hends ‹_›
  · rename_i hdots
    split at he
    · cases he
    · rename_i hvalue
      cases he
      exact .literal hne hrun hends (Nat.not_lt.1 hdots) hvalue

theorem isRefused_of_readName {offset : Nat} {lexeme rest : List Char}
    (hrun : isIdentifierChars lexeme = true) (hends : Ends continuesIdentifier rest)
    (he : readName table (String.ofList lexeme) = .error e) :
    IsRefused table before offset (lexeme ++ rest) e := by
  unfold readName at he
  split at he
  · cases he
  · cases he
  · rename_i hlookup
    cases he
    exact .name hrun hends hlookup

theorem isRefused_of_first {c : Char} {cs : List Char} (hctx : ctx.Describes before)
    (he : (Lexeme.first c cs).1.token? table ctx = .error e) :
    IsRefused table before ctx.offset (c :: cs) e := by
  have hrun : ∀ {p : Char → Bool}, p c = true → ∀ d ∈ c :: cs.takeWhile p, p d = true :=
    fun hc => List.forall_mem_cons.2 ⟨hc, fun _ => List.mem_takeWhile_imp⟩
  have hchars := Lexeme.chars_first_append c cs
  revert he hchars
  unfold Lexeme.first
  split
  · intro he _
    cases he
  rename_i hblank
  split
  · intro he hchars
    rw [← hchars]
    exact isRefused_of_readLiteral (List.cons_ne_nil _ _) (hrun ‹_›) (ends_dropWhile _ _)
      (map_some_eq_error_iff.1 he)
  rename_i hliteral
  split
  · rename_i hstart
    intro he hchars
    have hidentifier : isIdentifierChars (c :: cs.takeWhile continuesIdentifier) = true := by
      rw [isIdentifierChars, hstart, Bool.true_and, List.all_eq_true]
      exact fun _ => List.mem_takeWhile_imp
    rw [← hchars]
    exact isRefused_of_readName hidentifier (ends_dropWhile _ _) (map_some_eq_error_iff.1 he)
  rename_i hstart
  split
  · intro he _
    cases he
  rename_i hopening
  split
  · rename_i hclosing
    intro he _
    simp only [Lexeme.token?] at he
    split at he
    · cases he
      rw [hclosing]
      exact .closing (hctx.depth_eq_zero_iff.1 ‹_›)
    · cases he
  rename_i hclosing
  split
  · rename_i hcomma
    intro he _
    simp only [Lexeme.token?] at he
    split at he
    · cases he
      rw [hcomma]
      exact .comma (hctx.depth_eq_zero_iff.1 ‹_›)
    · cases he
  rename_i hcomma
  split
  · rename_i s hs
    intro he hchars
    obtain ⟨rfl, hrole⟩ := readOperator_eq_error_iff.1 (map_some_eq_error_iff.1 he)
    rw [hctx.afterOperand_eq] at hrole
    have hlongest := longestSpelling?_eq_some_iff.1 hs
    rw [← hchars] at hlongest ⊢
    exact .operator hlongest hrole
  · rename_i hs
    intro he _
    cases he
    have hkind : BeginsOperator c :=
      ⟨Bool.eq_false_iff.2 hblank, Bool.eq_false_iff.2 hliteral, Bool.eq_false_iff.2 hstart,
        hopening, hclosing, hcomma⟩
    exact .unknown hkind (longestSpelling?_eq_none_iff.1 hs)

theorem IsRefused.first_eq {cs : List Char} (hctx : ctx.Describes before)
    (h : IsRefused table before ctx.offset cs e) :
    ∃ c ds, cs = c :: ds ∧ (Lexeme.first c ds).1.token? table ctx = .error e := by
  generalize hoffset : ctx.offset = offset at h
  cases h with
  | @unknown c rest hkind hspellings =>
    refine ⟨c, rest, rfl, ?_⟩
    rw [Lexeme.first_unknown hkind hspellings, Lexeme.token?, hoffset]
  | @closing rest hclosed =>
    refine ⟨')', rest, rfl, ?_⟩
    rw [← hoffset]
    exact if_pos (hctx.depth_eq_zero_iff.2 hclosed)
  | @comma rest hclosed => exact ⟨',', rest, rfl, if_pos (hctx.depth_eq_zero_iff.2 hclosed)⟩
  | @operator s rest hlongest hrole =>
    obtain ⟨c, cs, hs⟩ := List.exists_cons_of_ne_nil (ne_nil_of_mem_operatorSpellings hlongest.mem)
    rw [hs] at hlongest ⊢
    rw [← hctx.afterOperand_eq] at hrole
    refine ⟨c, cs ++ rest, rfl, ?_⟩
    rw [Lexeme.first_operator hlongest hs]
    exact map_some_eq_error_iff.2 (readOperator_eq_error_iff.2 ⟨rfl, hrole⟩)
  | @dots lexeme rest hrun hends hdots =>
    obtain ⟨c, cs, rfl⟩ := List.exists_cons_of_ne_nil (List.ne_nil_of_length_pos
      (Nat.zero_lt_of_lt (hdots.trans_le List.count_le_length)))
    obtain ⟨hc, hcs⟩ := List.forall_mem_cons.1 hrun
    refine ⟨c, cs ++ rest, rfl, ?_⟩
    rw [Lexeme.first_literal hc hcs hends]
    exact map_some_eq_error_iff.2 (if_pos hdots)
  | @literal lexeme rest hne hrun hends hdots hvalue =>
    obtain ⟨c, cs, rfl⟩ := List.exists_cons_of_ne_nil hne
    obtain ⟨hc, hcs⟩ := List.forall_mem_cons.1 hrun
    refine ⟨c, cs ++ rest, rfl, ?_⟩
    rw [Lexeme.first_literal hc hcs hends]
    refine map_some_eq_error_iff.2 ?_
    simp only [readLiteral, Nat.not_lt.2 hdots, if_false, hvalue]
  | @name lexeme rest hrun hends hlookup =>
    obtain ⟨c, cs, rfl, hc, hcs⟩ := isIdentifierChars_iff.1 hrun
    refine ⟨c, cs ++ rest, rfl, ?_⟩
    rw [Lexeme.first_word hc hcs hends]
    refine map_some_eq_error_iff.2 ?_
    simp only [readName, hlookup]

end Piece

/-! ## Refused pieces in a longer text -/

namespace IsRefused

variable {offset : Nat} {cs : List Char} {e : Failure}

theorem ne_nil (h : IsRefused table before offset cs e) : cs ≠ [] := by
  cases h with
  | unknown | closing | comma => exact List.cons_ne_nil _ _
  | operator hlongest =>
    exact List.append_ne_nil_of_left_ne_nil (ne_nil_of_mem_operatorSpellings hlongest.mem) _
  | dots _ _ hdots =>
    refine List.append_ne_nil_of_left_ne_nil ?_ _
    rintro rfl
    simp at hdots
  | literal hne => exact List.append_ne_nil_of_left_ne_nil hne _
  | name hrun =>
    refine List.append_ne_nil_of_left_ne_nil ?_ _
    rintro rfl
    simp [isIdentifierChars] at hrun

/-- A piece is refused for the same reason in every longer text, unless the reason is the name or
the literal that it begins with. -/
theorem extend (h : IsRefused table before offset cs e)
    (he : e.kind ∈ [.unexpectedCharacter, .unopenedParenthesis, .strayComma, .misplacedOperator])
    (us : List Char) : IsRefused table before offset (cs ++ us) e := by
  cases h with
  | unknown hkind hspellings => exact .unknown hkind hspellings
  | closing hclosed => exact .closing hclosed
  | comma hclosed => exact .comma hclosed
  | operator hlongest hrole =>
    obtain rfl := eq_bitNot_of_forall_not_standsFor hlongest.mem hrole
    rw [List.append_assoc]
    exact .operator (PrefixOp.longestSpelling (by decide) _) hrole
  | dots | literal | name => simp [Failure.kind] at he

/-- A literal with several dots has several dots in every longer text, where it may be longer. -/
theorem extend_of_severalDots {literal : String}
    (h : IsRefused table before offset cs (.severalDots literal)) (us : List Char) :
    ∃ vs ws, us = vs ++ ws ∧
      IsRefused table before offset (cs ++ us) (.severalDots (literal ++ String.ofList vs)) := by
  cases h with
  | @dots lexeme rest hrun hends hdots =>
    by_cases hrest : rest = []
    · subst hrest
      refine ⟨us.takeWhile isLiteralChar, us.dropWhile isLiteralChar,
        List.takeWhile_append_dropWhile.symm, ?_⟩
      have hlonger : ∀ c ∈ lexeme ++ us.takeWhile isLiteralChar, isLiteralChar c = true :=
        List.forall_mem_append.2 ⟨hrun, fun _ => List.mem_takeWhile_imp⟩
      have hcount : 1 < (lexeme ++ us.takeWhile isLiteralChar).count '.' := by
        rw [List.count_append]
        omega
      have hrefused : IsRefused table before offset
          (lexeme ++ us.takeWhile isLiteralChar ++ us.dropWhile isLiteralChar)
          (.severalDots (String.ofList (lexeme ++ us.takeWhile isLiteralChar))) :=
        .dots hlonger (ends_dropWhile isLiteralChar us) hcount
      rw [List.append_assoc, List.takeWhile_append_dropWhile, String.ofList_append] at hrefused
      rwa [List.append_nil]
    · refine ⟨[], us, rfl, ?_⟩
      rw [String.ofList_nil, String.append_empty, List.append_assoc]
      exact .dots hrun (hends.extend hrest us) hdots

end IsRefused

/-! ## Whole texts -/

theorem Lexeme.byteSize_eq (l : Lexeme) : l.byteSize = (String.ofList l.chars).utf8ByteSize := by
  unfold Lexeme.byteSize
  induction l.chars with
  | nil => rfl
  | cons c cs ih =>
    rw [List.foldr_cons, ih, String.ofList_cons, String.utf8ByteSize_append,
      String.utf8ByteSize_singleton]

namespace ReadingContext

variable (ctx : ReadingContext) (l : Lexeme) (cs : List Char)

theorem offset_skip_add : (ctx.skip l).offset + (String.ofList cs).utf8ByteSize =
    ctx.offset + (String.ofList (l.chars ++ cs)).utf8ByteSize := by
  rw [String.ofList_append, String.utf8ByteSize_append, ← l.byteSize_eq, ← Nat.add_assoc]
  rfl

omit [Number α] in
theorem offset_after_add (t : Token α) :
    (ctx.after l t).offset + (String.ofList cs).utf8ByteSize =
      ctx.offset + (String.ofList (l.chars ++ cs)).utf8ByteSize :=
  ctx.offset_skip_add l cs

end ReadingContext

section Text

variable {ctx : ReadingContext} {cs rest : List Char} {ts : List (Token α)} {e : Failure}

/-- A text that cannot be read is refused for some piece of it. -/
theorem exists_isRefused_of_readTokens (hctx : ctx.Describes before)
    (he : readTokens table ctx (lexemes cs) = .error e) :
    ∃ pre rest ts, cs = pre ++ rest ∧ LexedUpTo table rest before pre ts ∧
      IsRefused table (before ++ ts) (ctx.offset + (String.ofList pre).utf8ByteSize) rest e := by
  fun_induction lexemes cs generalizing ctx before with
  | case1 => cases he
  | case2 c cs ih =>
    have hchars := Lexeme.chars_first_append c cs
    rw [readTokens] at he
    rcases bind_eq_error_iff.1 he with ht | ⟨t?, ht, hrest⟩
    · refine ⟨[], c :: cs, [], rfl, .done, ?_⟩
      rw [List.append_nil]
      exact isRefused_of_first hctx ht
    cases t? with
    | none =>
      obtain ⟨d, hd⟩ := exists_eq_blank_of_token? ht
      have hc := Lexeme.isBlank_of_first_eq hd
      rw [Lexeme.first_blank hc] at ih hrest
      obtain ⟨pre, rest, ts, rfl, hlexed, hrefused⟩ := ih (hctx.skip _) hrest
      refine ⟨c :: pre, rest, ts, rfl, .blank hc hlexed, ?_⟩
      rwa [ReadingContext.offset_skip_add] at hrefused
    | some t =>
      rcases bind_eq_error_iff.1 hrest with herror | ⟨ts, -, hcons⟩
      · have hlexeme := isLexeme_of_first hctx ht
        obtain ⟨pre, rest, ts, hcs, hlexed, hrefused⟩ :=
          ih (hctx.after _ hlexeme.unclosed) herror
        rw [hcs] at hlexeme hchars
        refine ⟨(Lexeme.first c cs).1.chars ++ pre, rest, t :: ts, ?_, .lexeme hlexeme hlexed, ?_⟩
        · rw [← hchars, List.append_assoc]
        · rwa [ReadingContext.offset_after_add, ← List.append_cons] at hrefused
      · cases hcons

/-- A piece that is refused behind lexemes is refused when it is read. -/
theorem LexedUpTo.readTokens_eq (h : LexedUpTo table rest before cs ts)
    (hctx : ctx.Describes before)
    (hrefused : IsRefused table (before ++ ts)
      (ctx.offset + (String.ofList cs).utf8ByteSize) rest e) :
    readTokens table ctx (lexemes (cs ++ rest)) = .error e := by
  induction h generalizing ctx with
  | done =>
    rw [List.append_nil] at hrefused
    obtain ⟨c, ds, rfl, ht⟩ := hrefused.first_eq hctx
    rw [List.nil_append, lexemes, readTokens]
    exact bind_eq_error_iff.2 (.inl ht)
  | @blank before c cs ts hblank _ ih =>
    rw [List.cons_append, lexemes, Lexeme.first_blank hblank]
    apply ih (hctx.skip _)
    rwa [ReadingContext.offset_skip_add]
  | @lexeme before lexeme cs t ts hhead _ ih =>
    obtain ⟨c, ds, l, hcs, hfirst, ht⟩ := hhead.first_eq hctx
    have hchars : l.chars = lexeme := by
      have happend := Lexeme.chars_first_append c ds
      rw [hfirst, ← hcs] at happend
      exact List.append_cancel_right happend
    rw [List.append_assoc, hcs, lexemes, hfirst, readTokens]
    refine bind_eq_error_iff.2 (.inr ⟨some t, ht, bind_eq_error_iff.2 (.inl ?_)⟩)
    apply ih (hctx.after l hhead.unclosed)
    rwa [ReadingContext.offset_after_add, hchars, ← List.append_cons]

/-- A text has no tokens exactly if a piece of it is refused behind lexemes. -/
theorem tokenize_eq_error_iff {formula : String} :
    tokenize table formula = .error e ↔
      ∃ pre rest ts, formula.toList = pre ++ rest ∧ LexedUpTo table rest [] pre ts ∧
        IsRefused table ts (String.ofList pre).utf8ByteSize rest e := by
  have hsize : ∀ cs, ReadingContext.start.offset + (String.ofList cs).utf8ByteSize =
      (String.ofList cs).utf8ByteSize := fun cs => Nat.zero_add _
  constructor
  · intro he
    obtain ⟨pre, rest, ts, hformula, hlexed, hrefused⟩ :=
      exists_isRefused_of_readTokens ReadingContext.describes_start he
    rw [List.nil_append, hsize] at hrefused
    exact ⟨pre, rest, ts, hformula, hlexed, hrefused⟩
  · rintro ⟨pre, rest, ts, hformula, hlexed, hrefused⟩
    rw [← List.nil_append ts, ← hsize] at hrefused
    rw [tokenize, hformula]
    exact hlexed.readTokens_eq ReadingContext.describes_start hrefused

/-- The text in front of a refused piece has tokens. -/
theorem LexedUpTo.tokenize_eq (h : LexedUpTo table rest [] cs ts) :
    tokenize table (String.ofList cs) = .ok ts := by
  rw [tokenize_eq_ok_iff_lexed, String.toList_ofList]
  exact h.lexed

theorem LexedUpTo.count_eq (h : LexedUpTo table rest [] cs ts) (hclosed : ¬ Unclosed ts) :
    cs.count '(' = cs.count ')' := by
  have hnested : Nested ts := h.lexed.nested nested_nil
  have hnonneg := hnested.depth_nonneg
  have hdepth := h.lexed.depth_eq
  rw [unclosed_iff_depth_pos hnested] at hclosed
  rw [textDepth] at hdepth
  omega

end Text

/-- A character that cannot be read, and a closing parenthesis without an opening one, are reported
with the number of bytes before them, and the text before them has tokens, which leave no
parenthesis open if it is a closing parenthesis that is reported.  Unless the text fails for the
name or the literal that it ends in, it fails in the same way however it is continued; a literal
with several dots goes on to have several dots. -/
theorem tokenize_error_located_and_lasting {formula : String} {e : Failure}
    (h : tokenize table formula = .error e) :
    (∀ c offset, e = .unexpectedCharacter c offset →
      ∃ pre post : String, formula = pre ++ String.singleton c ++ post ∧
        pre.utf8ByteSize = offset ∧ ∃ ts, tokenize table pre = .ok ts) ∧
    (∀ offset, e = .unopenedParenthesis offset →
      ∃ pre post : String, formula = pre ++ ")" ++ post ∧ pre.utf8ByteSize = offset ∧
        (∃ ts, tokenize table pre = .ok ts) ∧ pre.toList.count '(' = pre.toList.count ')') ∧
    (e.kind ∈ [.unexpectedCharacter, .unopenedParenthesis, .strayComma, .misplacedOperator] →
      ∀ more, tokenize table (formula ++ more) = .error e) ∧
    (∀ literal, e = .severalDots literal →
      ∀ more, ∃ digits post, more = digits ++ post ∧
        tokenize table (formula ++ more) = .error (.severalDots (literal ++ digits))) := by
  obtain ⟨pre, rest, ts, hformula, hlexed, hrefused⟩ := tokenize_eq_error_iff.1 h
  have hofList : formula = String.ofList (pre ++ rest) := by rw [← hformula, String.ofList_toList]
  have hmore : ∀ more : String, (formula ++ more).toList = pre ++ (rest ++ more.toList) := by
    intro more
    rw [String.toList_append, hformula, List.append_assoc]
  refine ⟨?_, ?_, fun hkind more => ?_, ?_⟩
  · rintro c offset rfl
    cases hrefused with
    | @unknown _ post =>
      refine ⟨String.ofList pre, String.ofList post, ?_, rfl, ts, hlexed.tokenize_eq⟩
      rw [hofList, String.ofList_append, String.ofList_cons, String.append_assoc]
  · rintro offset rfl
    cases hrefused with
    | @closing post hclosed =>
      refine ⟨String.ofList pre, String.ofList post, ?_, rfl, ⟨ts, hlexed.tokenize_eq⟩, ?_⟩
      · rw [hofList, String.ofList_append, String.ofList_cons, String.append_assoc]
        rfl
      · rw [String.toList_ofList]
        exact hlexed.count_eq hclosed
  · have hextended := hlexed.extend hrefused.ne_nil more.toList
    exact tokenize_eq_error_iff.2
      ⟨pre, rest ++ more.toList, ts, hmore more, hextended, hrefused.extend hkind _⟩
  · rintro literal rfl more
    have hextended := hlexed.extend hrefused.ne_nil more.toList
    obtain ⟨digits, post, hsplit, hlonger⟩ := hrefused.extend_of_severalDots more.toList
    refine ⟨String.ofList digits, String.ofList post, ?_, ?_⟩
    · rw [← String.ofList_append, ← hsplit, String.ofList_toList]
    · exact tokenize_eq_error_iff.2
        ⟨pre, rest ++ more.toList, ts, hmore more, hextended, hlonger⟩

/-- With a constant `größe`, whose name has seven bytes: a character that is no part of a formula
behind it, a closing parenthesis too many, and a literal that goes on. -/
theorem tokenize_error_located_and_lasting_behind_constant :
    let table : SymbolTable (BoundedInt .w64) :=
      (SymbolTable.empty.insertConstant "größe" .one).1
    (tokenize table "größe # 2" = .error (.unexpectedCharacter '#' 8) ∧
      (∃ pre post : String, "größe # 2" = pre ++ String.singleton '#' ++ post ∧
        pre.utf8ByteSize = 8 ∧ ∃ ts, tokenize table pre = .ok ts) ∧
      ∀ more, tokenize table ("größe # 2" ++ more) = .error (.unexpectedCharacter '#' 8)) ∧
    (tokenize table "(größe))" = .error (.unopenedParenthesis 9) ∧
      ∃ pre post : String, "(größe))" = pre ++ ")" ++ post ∧ pre.utf8ByteSize = 9 ∧
        (∃ ts, tokenize table pre = .ok ts) ∧ pre.toList.count '(' = pre.toList.count ')') ∧
    tokenize table "1.2." = .error (.severalDots "1.2.") ∧
      ∀ more, ∃ digits post, more = digits ++ post ∧
        tokenize table ("1.2." ++ more) = .error (.severalDots ("1.2." ++ digits)) := by
  intro table
  have hunknown : tokenize table "größe # 2" = .error (.unexpectedCharacter '#' 8) := by
    decide +kernel
  have hclosing : tokenize table "(größe))" = .error (.unopenedParenthesis 9) := by
    decide +kernel
  have hdots : tokenize table "1.2." = .error (.severalDots "1.2.") := by
    decide +kernel
  obtain ⟨hlocated, -, hlasting, -⟩ := tokenize_error_located_and_lasting hunknown
  obtain ⟨-, hbalanced, -, -⟩ := tokenize_error_located_and_lasting hclosing
  obtain ⟨-, -, -, hlonger⟩ := tokenize_error_located_and_lasting hdots
  exact ⟨⟨hunknown, hlocated _ _ rfl, hlasting (by decide)⟩, ⟨hclosing, hbalanced _ rfl⟩, hdots,
    hlonger _ rfl⟩

end Grammar

end Formula
