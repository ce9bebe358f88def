import Mathlib.Data.List.TakeWhile
import Formula.Proofs.Alphabet
import Formula.Proofs.Nesting
import Formula.Proofs.Success
import Formula.Token.Reading

/-!
# The lexical grammar

`IsLexeme table before lexeme rest t` says what a lexeme is, without saying how it is found: a run
that is as long as it can be, or a parenthesis, a comma or the longest operator spelling where the
tokens `before` admit it.  What an operator spelling stands for depends on whether these tokens end
with an operand, a closing parenthesis or a postfix operator (`any_endsOperand_getLast?_iff`).
`Lexed` strings lexemes together, with blank characters between them.  A text has tokens exactly if
the grammar derives them (`tokenize_eq_ok_iff_lexed`).

The reading keeps a count of open parentheses and a flag; `ReadingContext.Describes` ties them to
the tokens read before.
-/

namespace Formula

variable {α : Type}

/-! ## Runs -/

/-- Whether a text does not go on with a character of the class `p`. -/
def Ends (p : Char → Bool) (rest : List Char) : Prop :=
  ∀ c ∈ rest.head?, p c = false

theorem ends_dropWhile (p : Char → Bool) (cs : List Char) : Ends p (cs.dropWhile p) := by
  intro c hc
  have hhead := List.head?_dropWhile_not p cs
  rw [hc] at hhead
  exact hhead

section Runs

variable {p : Char → Bool} {cs rest : List Char}

theorem takeWhile_append_of_ends (hcs : ∀ c ∈ cs, p c = true) (hrest : Ends p rest) :
    (cs ++ rest).takeWhile p = cs := by
  rw [List.takeWhile_append_of_pos hcs]
  cases rest with
  | nil => exact List.append_nil cs
  | cons d rest =>
    rw [List.takeWhile_cons_of_neg (Bool.eq_false_iff.1 (hrest d rfl)), List.append_nil]

theorem dropWhile_append_of_ends (hcs : ∀ c ∈ cs, p c = true) (hrest : Ends p rest) :
    (cs ++ rest).dropWhile p = rest := by
  rw [List.dropWhile_append_of_pos hcs]
  cases rest with
  | nil => rfl
  | cons d rest => rw [List.dropWhile_cons_of_neg (Bool.eq_false_iff.1 (hrest d rfl))]

end Runs

/-! ## Operators -/

/-- Whether `s` is the longest operator spelling that a text begins with. -/
structure LongestSpelling (s : String) (cs : List Char) : Prop where
  mem : s ∈ operatorSpellings
  isPrefix : s.toList <+: cs
  length_le : ∀ s' ∈ operatorSpellings, s'.toList <+: cs → s'.toList.length ≤ s.toList.length

theorem longestSpelling_of_longestSpelling? {cs : List Char} {s : String}
    (h : longestSpelling? cs = some s) : LongestSpelling s cs := by
  obtain ⟨hs, as, bs, hsplit, has⟩ := List.find?_eq_some_iff_append.1 h
  refine ⟨by simp [hsplit], List.isPrefixOf_iff_prefix.1 hs, fun s' hs' hpre => ?_⟩
  rw [hsplit, List.mem_append, List.mem_cons] at hs'
  rcases hs' with hs' | rfl | hs'
  · have hno := has s' hs'
    rw [List.isPrefixOf_iff_prefix.2 hpre] at hno
    cases hno
  · exact Nat.le_refl _
  · -- Behind `s` the spellings are not longer.
    have hdescending := operatorSpellings_descending
    rw [hsplit, List.pairwise_append, List.pairwise_cons] at hdescending
    exact hdescending.2.1.1 s' hs'

theorem longestSpelling?_eq_some_iff {cs : List Char} {s : String} :
    longestSpelling? cs = some s ↔ LongestSpelling s cs := by
  refine ⟨longestSpelling_of_longestSpelling?, fun h => ?_⟩
  have hfound : (longestSpelling? cs).isSome :=
    List.find?_isSome.2 ⟨s, h.mem, List.isPrefixOf_iff_prefix.2 h.isPrefix⟩
  obtain ⟨s', hs'⟩ := Option.isSome_iff_exists.1 hfound
  have h' := longestSpelling_of_longestSpelling? hs'
  have hlength : s'.toList.length = s.toList.length :=
    Nat.le_antisymm (h.length_le s' h'.mem h'.isPrefix) (h'.length_le s h.mem h.isPrefix)
  have hpre := List.prefix_of_prefix_length_le h'.isPrefix h.isPrefix hlength.le
  rw [hs', String.toList_injective (hpre.eq_of_length hlength)]

/-- Whether an infix operator may be written `s`. -/
def InfixOp.IsSpelling (op : InfixOp) (s : String) : Prop :=
  s = op.spelling ∨ op = .equal ∧ s = "==" ∨ op = .notEqual ∧ s = "<>"

theorem InfixOp.ofSpelling?_eq_some_iff {op : InfixOp} {s : String} :
    ofSpelling? s = some op ↔ op.IsSpelling s := by
  constructor
  · intro h
    unfold ofSpelling? at h
    split at h
    · cases h
      exact .inr (.inl ⟨rfl, ‹_›⟩)
    split at h
    · cases h
      exact .inr (.inr ⟨rfl, ‹_›⟩)
    · have hspelling := List.find?_some h
      exact .inl (beq_iff_eq.1 hspelling).symm
  · rintro (rfl | ⟨rfl, rfl⟩ | ⟨rfl, rfl⟩)
    · exact ofSpelling?_spelling op
    · rfl
    · rfl

theorem PrefixOp.ofSpelling?_eq_some_iff {op : PrefixOp} {s : String} :
    ofSpelling? s = some op ↔ s = op.spelling := by
  constructor
  · intro h
    have hspelling := List.find?_some h
    exact (beq_iff_eq.1 hspelling).symm
  · rintro rfl
    exact ofSpelling?_spelling op

theorem PostfixOp.ofSpelling?_eq_some_iff {op : PostfixOp} {s : String} :
    ofSpelling? s = some op ↔ s = op.spelling := by
  constructor
  · intro h
    have hspelling := List.find?_some h
    exact (beq_iff_eq.1 hspelling).symm
  · rintro rfl
    exact ofSpelling?_spelling op

theorem PrefixOp.ofSpelling?_eq_none_iff {s : String} :
    ofSpelling? s = none ↔ ∀ op : PrefixOp, s ≠ op.spelling := by
  simp only [Option.eq_none_iff_forall_ne_some, ne_eq, ofSpelling?_eq_some_iff]

theorem PostfixOp.ofSpelling?_eq_none_iff {s : String} :
    ofSpelling? s = none ↔ ∀ op : PostfixOp, s ≠ op.spelling := by
  simp only [Option.eq_none_iff_forall_ne_some, ne_eq, ofSpelling?_eq_some_iff]

/-- The operators that a spelling stands for, where it is known whether an operand ends before it:
behind an operand a postfix operator if there is one of this spelling, elsewhere a prefix operator
if there is one, and otherwise an infix operator. -/
inductive StandsFor (afterOperand : Bool) (s : String) : Token α → Prop
  | postfixOp {op : PostfixOp} (after : afterOperand = true) (spelling : s = op.spelling) :
      StandsFor afterOperand s (.postfixOp op)
  | prefixOp {op : PrefixOp} (after : afterOperand = false) (spelling : s = op.spelling) :
      StandsFor afterOperand s (.prefixOp op)
  | infixOp {op : InfixOp} (no_postfixOp : afterOperand = true → ∀ op : PostfixOp, s ≠ op.spelling)
      (no_prefixOp : afterOperand = false → ∀ op : PrefixOp, s ≠ op.spelling)
      (spelling : op.IsSpelling s) : StandsFor afterOperand s (.infixOp op)

theorem readInfix_eq_ok_iff {s : String} {t : Token α} :
    readInfix s = .ok t ↔ ∃ op : InfixOp, op.IsSpelling s ∧ t = .infixOp op := by
  simp only [readInfix, ← InfixOp.ofSpelling?_eq_some_iff]
  cases InfixOp.ofSpelling? s with
  | none => simp
  | some op => simp [eq_comm]

theorem standsFor_of_readOperator {afterOperand : Bool} {s : String} {t : Token α}
    (h : readOperator afterOperand s = .ok t) : StandsFor afterOperand s t := by
  unfold readOperator at h
  split at h
  · rename_i hafter
    split at h
    · rename_i hpost
      cases h
      exact .postfixOp hafter (PostfixOp.ofSpelling?_eq_some_iff.1 hpost)
    · rename_i hpost
      obtain ⟨op, hspelling, rfl⟩ := readInfix_eq_ok_iff.1 h
      exact .infixOp (fun _ => PostfixOp.ofSpelling?_eq_none_iff.1 hpost)
        (fun hbefore => by simp [hbefore] at hafter) hspelling
  · rename_i hafter
    have hbefore : afterOperand = false := Bool.eq_false_iff.2 hafter
    split at h
    · rename_i hpre
      cases h
      exact .prefixOp hbefore (PrefixOp.ofSpelling?_eq_some_iff.1 hpre)
    · rename_i hpre
      obtain ⟨op, hspelling, rfl⟩ := readInfix_eq_ok_iff.1 h
      exact .infixOp (fun h => absurd h hafter)
        (fun _ => PrefixOp.ofSpelling?_eq_none_iff.1 hpre) hspelling

theorem StandsFor.readOperator_eq {afterOperand : Bool} {s : String} {t : Token α}
    (h : StandsFor afterOperand s t) : readOperator afterOperand s = .ok t := by
  cases h with
  | postfixOp hafter hspelling =>
    simp only [readOperator, hafter, if_true, PostfixOp.ofSpelling?_eq_some_iff.2 hspelling]
  | prefixOp hbefore hspelling =>
    simp only [readOperator, hbefore, Bool.false_eq_true, if_false,
      PrefixOp.ofSpelling?_eq_some_iff.2 hspelling]
  | @infixOp op hpost hpre hspelling =>
    have hinfix : readInfix s = .ok (.infixOp op : Token α) :=
      readInfix_eq_ok_iff.2 ⟨op, hspelling, rfl⟩
    cases afterOperand with
    | true =>
      rwa [readOperator, if_pos rfl, PostfixOp.ofSpelling?_eq_none_iff.2 (hpost rfl)]
    | false =>
      rwa [readOperator, if_neg Bool.false_ne_true,
        PrefixOp.ofSpelling?_eq_none_iff.2 (hpre rfl)]

/-! ## The grammar -/

/-- A token ends an operand if it is one, a closing parenthesis or a postfix operator. -/
theorem Token.endsOperand_iff {t : Token α} :
    t.endsOperand = true ↔ (∃ a, t = .operand a) ∨ t = .closing ∨ ∃ op, t = .postfixOp op := by
  cases t with
  | operand a => exact ⟨fun _ => .inl ⟨a, rfl⟩, fun _ => rfl⟩
  | closing => exact ⟨fun _ => .inr (.inl rfl), fun _ => rfl⟩
  | postfixOp op => exact ⟨fun _ => .inr (.inr ⟨op, rfl⟩), fun _ => rfl⟩
  | function _ _ | infixOp _ | prefixOp _ | opening | comma => simp [Token.endsOperand]

/-- A lexeme is behind an operand if the last token before it ends one; the first one is not. -/
theorem any_endsOperand_getLast?_iff {before : List (Token α)} :
    before.getLast?.any Token.endsOperand = true ↔
      ∃ earlier, (∃ a, before = earlier ++ [.operand a]) ∨ before = earlier ++ [.closing] ∨
        ∃ op, before = earlier ++ [.postfixOp op] := by
  rw [Option.any_eq_true]
  constructor
  · rintro ⟨t, hlast, hends⟩
    obtain ⟨earlier, rfl⟩ := List.getLast?_eq_some_iff.1 hlast
    refine ⟨earlier, ?_⟩
    rcases Token.endsOperand_iff.1 hends with ⟨a, rfl⟩ | rfl | ⟨op, rfl⟩
    · exact .inl ⟨a, rfl⟩
    · exact .inr (.inl rfl)
    · exact .inr (.inr ⟨op, rfl⟩)
  · rintro ⟨earlier, ⟨a, rfl⟩ | rfl | ⟨op, rfl⟩⟩
    · exact ⟨_, List.getLast?_concat, rfl⟩
    · exact ⟨_, List.getLast?_concat, rfl⟩
    · exact ⟨_, List.getLast?_concat, rfl⟩

section Grammar

variable [Number α]

/-- Whether `lexeme`, which the text `rest` follows and the tokens `before` precede, is a lexeme
with the token `t`. -/
inductive IsLexeme (table : SymbolTable α) (before : List (Token α)) :
    List Char → List Char → Token α → Prop
  /-- A longest run of digits and dots. -/
  | literal {lexeme rest : List Char} {a : α} (ne_nil : lexeme ≠ [])
      (run : ∀ c ∈ lexeme, isLiteralChar c = true) (ends : Ends isLiteralChar rest)
      (dots : lexeme.count '.' ≤ 1) (value : Number.ofLiteral? lexeme = some a) :
      IsLexeme table before lexeme rest (.operand a)
  /-- A longest identifier, which is the name of a function. -/
  | function {lexeme rest : List Char} {f : HostFunction α}
      (run : isIdentifierChars lexeme = true) (ends : Ends continuesIdentifier rest)
      (lookup : table.lookup? (String.ofList lexeme) = some (.function f)) :
      IsLexeme table before lexeme rest (.function (String.ofList lexeme) f.arity)
  /-- A longest identifier, which is the name of a constant. -/
  | constant {lexeme rest : List Char} {a : α} (run : isIdentifierChars lexeme = true)
      (ends : Ends continuesIdentifier rest)
      (lookup : table.lookup? (String.ofList lexeme) = some (.constant a)) :
      IsLexeme table before lexeme rest (.operand a)
  | opening {rest : List Char} : IsLexeme table before ['('] rest .opening
  | closing {rest : List Char} (unclosed : Unclosed before) :
      IsLexeme table before [')'] rest .closing
  | comma {rest : List Char} (unclosed : Unclosed before) :
      IsLexeme table before [','] rest .comma
  /-- The longest operator spelling, in the role that it has behind an operand or elsewhere. -/
  | operator {s : String} {rest : List Char} {t : Token α}
      (longest : LongestSpelling s (s.toList ++ rest))
      (role : StandsFor (before.getLast?.any Token.endsOperand) s t) :
      IsLexeme table before s.toList rest t

/-- Whether a text, which the tokens `before` precede, is a sequence of lexemes with the tokens
`ts`, with any blank characters before, between and after them. -/
inductive Lexed (table : SymbolTable α) :
    List (Token α) → List Char → List (Token α) → Prop
  | done {before : List (Token α)} {gap : List Char} (blank : ∀ c ∈ gap, isBlank c = true) :
      Lexed table before gap []
  | lexeme {before : List (Token α)} {gap lexeme rest : List Char} {t : Token α}
      {ts : List (Token α)} (blank : ∀ c ∈ gap, isBlank c = true)
      (head : IsLexeme table before lexeme rest t) (tail : Lexed table (before ++ [t]) rest ts) :
      Lexed table before (gap ++ (lexeme ++ rest)) (t :: ts)

variable {table : SymbolTable α} {before : List (Token α)}

theorem IsLexeme.unclosed {lexeme rest : List Char} {t : Token α}
    (h : IsLexeme table before lexeme rest t) (ht : t = .closing) : Unclosed before := by
  cases h with
  | closing hunclosed => exact hunclosed
  | operator _ hrole => cases hrole <;> cases ht
  | literal | function | constant | opening | comma => cases ht

theorem Lexed.cons {lexeme rest : List Char} {t : Token α} {ts : List (Token α)}
    (head : IsLexeme table before lexeme rest t) (tail : Lexed table (before ++ [t]) rest ts) :
    Lexed table before (lexeme ++ rest) (t :: ts) := by
  have hblank : ∀ c ∈ ([] : List Char), isBlank c = true := nofun
  exact .lexeme hblank head tail

theorem Lexed.gap_append {gap cs : List Char} {ts : List (Token α)}
    (hgap : ∀ c ∈ gap, isBlank c = true) (h : Lexed table before cs ts) :
    Lexed table before (gap ++ cs) ts := by
  cases h with
  | done hblank => exact .done (List.forall_mem_append.2 ⟨hgap, hblank⟩)
  | lexeme hblank hhead htail =>
    rw [← List.append_assoc]
    exact .lexeme (List.forall_mem_append.2 ⟨hgap, hblank⟩) hhead htail

end Grammar

/-! ## What the reading keeps track of -/

namespace ReadingContext

/-- Whether a context is that behind the tokens `before`. -/
structure Describes (ctx : ReadingContext) (before : List (Token α)) : Prop where
  nested : Nested before
  depth_eq : (ctx.depth : Int) = Formula.depth before
  afterOperand_eq : ctx.afterOperand = before.getLast?.any Token.endsOperand

variable {ctx : ReadingContext} {before : List (Token α)}

theorem describes_start : start.Describes ([] : List (Token α)) :=
  ⟨nested_nil, rfl, rfl⟩

theorem Describes.skip (h : ctx.Describes before) (l : Lexeme) : (ctx.skip l).Describes before :=
  ⟨h.nested, h.depth_eq, h.afterOperand_eq⟩

theorem Describes.depth_eq_zero_iff (h : ctx.Describes before) :
    ctx.depth = 0 ↔ ¬ Unclosed before := by
  rw [unclosed_iff_depth_pos h.nested, ← h.depth_eq]
  omega

theorem Describes.after (h : ctx.Describes before) (l : Lexeme) {t : Token α}
    (ht : t = .closing → Unclosed before) : (ctx.after l t).Describes (before ++ [t]) := by
  have hdepth : ((ctx.after l t).depth : Int) = Formula.depth (before ++ [t]) := by
    rw [depth_append, depth_cons, depth_nil, ← h.depth_eq]
    cases t with
    | opening => simp [ReadingContext.after, Token.weight]
    | closing =>
      have hpos : ctx.depth ≠ 0 := fun hzero => h.depth_eq_zero_iff.1 hzero (ht rfl)
      simp only [ReadingContext.after, Token.weight]
      omega
    | operand _ | function _ _ | infixOp _ | prefixOp _ | postfixOp _ | comma =>
      simp [ReadingContext.after, Token.weight]
  refine ⟨nested_concat_iff.2 ⟨h.nested, ?_⟩, hdepth, by simp [ReadingContext.after]⟩
  rw [depth_append, depth_cons, depth_nil, Int.add_zero] at hdepth
  omega

end ReadingContext

/-! ## One lexeme -/

namespace Lexeme

theorem first_blank {c : Char} (hc : isBlank c = true) (cs : List Char) :
    first c cs = (blank c, cs) := by
  rw [first, if_pos hc]

theorem first_literal {c : Char} {cs rest : List Char} (hc : isLiteralChar c = true)
    (hcs : ∀ d ∈ cs, isLiteralChar d = true) (hends : Ends isLiteralChar rest) :
    first c (cs ++ rest) = (literal (c :: cs), rest) := by
  simp only [first, isBlank_eq_false_of_isLiteralChar hc, hc, Bool.false_eq_true, if_false, if_true,
    takeWhile_append_of_ends hcs hends, dropWhile_append_of_ends hcs hends]

theorem first_word {c : Char} {cs rest : List Char} (hc : startsIdentifier c = true)
    (hcs : ∀ d ∈ cs, continuesIdentifier d = true) (hends : Ends continuesIdentifier rest) :
    first c (cs ++ rest) = (word (c :: cs), rest) := by
  simp only [first, isBlank_eq_false_of_startsIdentifier hc,
    isLiteralChar_eq_false_of_startsIdentifier hc, hc, Bool.false_eq_true, if_false, if_true,
    takeWhile_append_of_ends hcs hends, dropWhile_append_of_ends hcs hends]

theorem first_operator {c : Char} {cs rest : List Char} {s : String}
    (hlongest : LongestSpelling s (c :: cs ++ rest)) (hs : s.toList = c :: cs) :
    first c (cs ++ rest) = (operator s, rest) := by
  have hc : BeginsOperator c := beginsOperator_of_mem_spelling hlongest.mem (by simp [hs])
  have hfound := longestSpelling?_eq_some_iff.2 hlongest
  rw [List.cons_append] at hfound
  simp only [first, hc.isBlank_eq_false, hc.isLiteralChar_eq_false, hc.startsIdentifier_eq_false,
    hc.ne_opening, hc.ne_closing, hc.ne_comma, Bool.false_eq_true, if_false, hfound, hs,
    List.length_cons, Nat.add_sub_cancel, List.drop_left]

theorem isBlank_of_first_eq {c d : Char} {cs : List Char} (h : (first c cs).1 = blank d) :
    isBlank c = true := by
  by_contra hc
  unfold first at h
  rw [if_neg hc] at h
  split at h
  · cases h
  split at h
  · cases h
  split at h
  · cases h
  split at h
  · cases h
  split at h
  · cases h
  split at h
  · cases h
  · cases h

end Lexeme

section Reading

variable [Number α] {table : SymbolTable α} {before : List (Token α)} {ctx : ReadingContext}

theorem isLexeme_of_readLiteral {lexeme rest : List Char} {t : Token α} (hne : lexeme ≠ [])
    (hrun : ∀ c ∈ lexeme, isLiteralChar c = true) (hends : Ends isLiteralChar rest)
    (ht : readLiteral lexeme = .ok t) : IsLexeme table before lexeme rest t := by
  unfold readLiteral at ht
  split at ht
  · cases ht
  · rename_i hdots
    split at ht
    · rename_i hvalue
      cases ht
      exact .literal hne hrun hends (Nat.not_lt.1 hdots) hvalue
    · cases ht

theorem isLexeme_of_readName {lexeme rest : List Char} {t : Token α}
    (hrun : isIdentifierChars lexeme = true) (hends : Ends continuesIdentifier rest)
    (ht : readName table (String.ofList lexeme) = .ok t) : IsLexeme table before lexeme rest t := by
  unfold readName at ht
  split at ht
  · cases ht
    exact .function hrun hends ‹_›
  · cases ht
    exact .constant hrun hends ‹_›
  · cases ht

theorem isLexeme_of_first {c : Char} {cs : List Char} {t : Token α} (hctx : ctx.Describes before)
    (ht : (Lexeme.first c cs).1.token? table ctx = .ok (some t)) :
    IsLexeme table before (Lexeme.first c cs).1.chars (Lexeme.first c cs).2 t := by
  have hrun : ∀ {p : Char → Bool}, p c = true → ∀ d ∈ c :: cs.takeWhile p, p d = true :=
    fun hc => List.forall_mem_cons.2 ⟨hc, fun _ => List.mem_takeWhile_imp⟩
  have hunclosed : ctx.depth ≠ 0 → Unclosed before := fun hdepth =>
    Classical.not_not.1 fun h => hdepth (hctx.depth_eq_zero_iff.2 h)
  have hchars := Lexeme.chars_first_append c cs
  revert ht hchars
  unfold Lexeme.first
  split
  · intro ht _
    cases ht
  split
  · intro ht _
    exact isLexeme_of_readLiteral (List.cons_ne_nil _ _) (hrun ‹_›) (ends_dropWhile _ _)
      (map_some_eq_ok_iff.1 ht)
  split
  · rename_i hstart
    intro ht _
    have hidentifier : isIdentifierChars (c :: cs.takeWhile continuesIdentifier) = true := by
      rw [isIdentifierChars, hstart, Bool.true_and, List.all_eq_true]
      exact fun _ => List.mem_takeWhile_imp
    exact isLexeme_of_readName hidentifier (ends_dropWhile _ _) (map_some_eq_ok_iff.1 ht)
  split
  · rintro ⟨⟩ _
    exact .opening
  split
  · intro ht _
    simp only [Lexeme.token?] at ht
    split at ht
    · cases ht
    · cases ht
      exact .closing (hunclosed ‹_›)
  split
  · intro ht _
    simp only [Lexeme.token?] at ht
    split at ht
    · cases ht
    · cases ht
      exact .comma (hunclosed ‹_›)
  split
  · rename_i s hs
    intro ht hchars
    have hrole := standsFor_of_readOperator (map_some_eq_ok_iff.1 ht)
    rw [hctx.afterOperand_eq] at hrole
    have hlongest := longestSpelling?_eq_some_iff.1 hs
    rw [← hchars] at hlongest
    exact .operator hlongest hrole
  · intro ht _
    cases ht

theorem IsLexeme.first_eq {lexeme rest : List Char} {t : Token α} (hctx : ctx.Describes before)
    (h : IsLexeme table before lexeme rest t) :
    ∃ c cs l, lexeme ++ rest = c :: cs ∧ Lexeme.first c cs = (l, rest) ∧
      l.token? table ctx = .ok (some t) := by
  have hdepth : Unclosed before → ctx.depth ≠ 0 := fun h hzero => hctx.depth_eq_zero_iff.1 hzero h
  cases h with
  | literal hne hrun hends hdots hvalue =>
    obtain ⟨c, cs, rfl⟩ := List.exists_cons_of_ne_nil hne
    obtain ⟨hc, hcs⟩ := List.forall_mem_cons.1 hrun
    refine ⟨c, cs ++ rest, _, rfl, Lexeme.first_literal hc hcs hends, map_some_eq_ok_iff.2 ?_⟩
    simp only [readLiteral, Nat.not_lt.2 hdots, if_false, hvalue]
  | function hrun hends hlookup =>
    obtain ⟨c, cs, rfl, hc, hcs⟩ := isIdentifierChars_iff.1 hrun
    refine ⟨c, cs ++ rest, _, rfl, Lexeme.first_word hc hcs hends, map_some_eq_ok_iff.2 ?_⟩
    simp only [readName, hlookup]
  | constant hrun hends hlookup =>
    obtain ⟨c, cs, rfl, hc, hcs⟩ := isIdentifierChars_iff.1 hrun
    refine ⟨c, cs ++ rest, _, rfl, Lexeme.first_word hc hcs hends, map_some_eq_ok_iff.2 ?_⟩
    simp only [readName, hlookup]
  | opening => exact ⟨'(', rest, .opening, rfl, rfl, rfl⟩
  | closing hunclosed => exact ⟨')', rest, .closing, rfl, rfl, if_neg (hdepth hunclosed)⟩
  | comma hunclosed => exact ⟨',', rest, .comma, rfl, rfl, if_neg (hdepth hunclosed)⟩
  | @operator s _ _ hlongest hrole =>
    obtain ⟨c, cs, hs⟩ := List.exists_cons_of_ne_nil (ne_nil_of_mem_operatorSpellings hlongest.mem)
    rw [hs] at hlongest ⊢
    rw [← hctx.afterOperand_eq] at hrole
    exact ⟨c, cs ++ rest, _, rfl, Lexeme.first_operator hlongest hs,
      map_some_eq_ok_iff.2 hrole.readOperator_eq⟩

/-! ## Whole texts -/

theorem exists_eq_blank_of_token? {l : Lexeme} (h : l.token? table ctx = .ok none) :
    ∃ c, l = .blank c := by
  cases l with
  | blank c => exact ⟨c, rfl⟩
  | literal cs => exact absurd h map_some_ne_ok_none
  | word cs => exact absurd h map_some_ne_ok_none
  | operator s => exact absurd h map_some_ne_ok_none
  | opening => cases h
  | closing | comma =>
    simp only [Lexeme.token?] at h
    split at h <;> cases h
  | unknown c => cases h

theorem lexed_of_readTokens {cs : List Char} {ts : List (Token α)} (hctx : ctx.Describes before)
    (h : readTokens table ctx (lexemes cs) = .ok ts) : Lexed table before cs ts := by
  fun_induction lexemes cs generalizing ctx before ts with
  | case1 =>
    cases h
    exact .done (by simp)
  | case2 c cs ih =>
    rw [readTokens] at h
    obtain ⟨t?, ht, hrest⟩ := bind_eq_ok_iff.1 h
    cases t? with
    | none =>
      obtain ⟨d, hd⟩ := exists_eq_blank_of_token? ht
      have hc := Lexeme.isBlank_of_first_eq hd
      rw [Lexeme.first_blank hc] at ih hrest
      have hblank : ∀ d ∈ [c], isBlank d = true := by simpa using hc
      exact (ih (hctx.skip _) hrest).gap_append hblank
    | some t =>
      obtain ⟨ts, hts, hcons⟩ := bind_eq_ok_iff.1 hrest
      cases hcons
      have hlexeme := isLexeme_of_first hctx ht
      have htail := ih (hctx.after _ hlexeme.unclosed) hts
      rw [← Lexeme.chars_first_append c cs]
      exact .cons hlexeme htail

theorem readTokens_gap {gap cs : List Char} {ts : List (Token α)} (hctx : ctx.Describes before)
    (hgap : ∀ c ∈ gap, isBlank c = true)
    (h : ∀ {ctx' : ReadingContext}, ctx'.Describes before →
      readTokens table ctx' (lexemes cs) = .ok ts) :
    readTokens table ctx (lexemes (gap ++ cs)) = .ok ts := by
  induction gap generalizing ctx with
  | nil => exact h hctx
  | cons c gap ih =>
    obtain ⟨hc, hgap⟩ := List.forall_mem_cons.1 hgap
    rw [List.cons_append, lexemes, Lexeme.first_blank hc]
    exact ih (hctx.skip _) hgap

theorem Lexed.readTokens_eq {cs : List Char} {ts : List (Token α)} (h : Lexed table before cs ts)
    (hctx : ctx.Describes before) : readTokens table ctx (lexemes cs) = .ok ts := by
  induction h generalizing ctx with
  | @done _ gap hblank =>
    rw [← List.append_nil gap]
    refine readTokens_gap hctx hblank fun _ => ?_
    rw [lexemes, readTokens]
  | lexeme hblank hhead _ ih =>
    refine readTokens_gap hctx hblank fun hctx' => ?_
    obtain ⟨c, cs, l, hcs, hfirst, ht⟩ := hhead.first_eq hctx'
    rw [hcs, lexemes, hfirst, readTokens, ht]
    have htail := ih (hctx'.after l hhead.unclosed)
    exact bind_eq_ok_iff.2 ⟨some _, rfl, bind_eq_ok_iff.2 ⟨_, htail, rfl⟩⟩

/-- A text has tokens exactly if it is a sequence of lexemes with these tokens. -/
theorem tokenize_eq_ok_iff_lexed {formula : String} {ts : List (Token α)} :
    tokenize table formula = .ok ts ↔ Lexed table [] formula.toList ts :=
  ⟨lexed_of_readTokens ReadingContext.describes_start,
    fun h => h.readTokens_eq ReadingContext.describes_start⟩

end Reading

end Formula
