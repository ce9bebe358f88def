import Formula.Proofs.Locality
import Formula.Proofs.Refusal

/-!
# The identifiers that a formula mentions

`Meets table formula name` says that the reading of a formula comes to the identifier `name`: lexemes
are in front of it, and no letter that would make it longer stands behind it.  The reading looks up
these names and no others (`tokenize_congr`).  It ends at a name that is not there, and behind this
or any other failure nothing is met.
-/

namespace Formula

variable {α : Type} [Number α] {table table' : SymbolTable α} {before : List (Token α)}
  {cs : List Char} {name : String}

/-! ## Meeting an identifier -/

/-- Whether the reading of a text, which the tokens `before` precede, comes to the identifier
`name`. -/
def MeetsBehind (table : SymbolTable α) (before : List (Token α)) (cs : List Char)
    (name : String) : Prop :=
  ∃ pre rest ts, cs = pre ++ (name.toList ++ rest) ∧
    LexedUpTo table (name.toList ++ rest) before pre ts ∧
    isIdentifier name = true ∧ Ends continuesIdentifier rest

/-- Whether the reading of a formula comes to the identifier `name`. -/
def Meets (table : SymbolTable α) (formula name : String) : Prop :=
  MeetsBehind table [] formula.toList name

theorem Meets.isIdentifier {formula : String} (h : Meets table formula name) :
    isIdentifier name = true := by
  obtain ⟨pre, rest, ts, -, -, hname, -⟩ := h
  exact hname

theorem isIdentifier_ofList {lexeme : List Char} (h : isIdentifierChars lexeme = true) :
    isIdentifier (String.ofList lexeme) = true := by
  rwa [Formula.isIdentifier, String.toList_ofList]

namespace MeetsBehind

theorem head {lexeme rest : List Char} (hrun : isIdentifierChars lexeme = true)
    (hends : Ends continuesIdentifier rest) :
    MeetsBehind table before (lexeme ++ rest) (String.ofList lexeme) := by
  refine ⟨[], rest, [], ?_, .done, isIdentifier_ofList hrun, hends⟩
  rw [String.toList_ofList, List.nil_append]

theorem blank {c : Char} (hc : isBlank c = true) (h : MeetsBehind table before cs name) :
    MeetsBehind table before (c :: cs) name := by
  obtain ⟨pre, rest, ts, rfl, hlexed, hname⟩ := h
  exact ⟨c :: pre, rest, ts, rfl, .blank hc hlexed, hname⟩

theorem gap_append {gap : List Char} (hgap : ∀ c ∈ gap, isBlank c = true)
    (h : MeetsBehind table before cs name) : MeetsBehind table before (gap ++ cs) name := by
  induction gap with
  | nil => exact h
  | cons c gap ih =>
    obtain ⟨hc, hgap⟩ := List.forall_mem_cons.1 hgap
    exact (ih hgap).blank hc

theorem lexeme_append {lexeme : List Char} {t : Token α}
    (hhead : IsLexeme table before lexeme cs t) (h : MeetsBehind table (before ++ [t]) cs name) :
    MeetsBehind table before (lexeme ++ cs) name := by
  obtain ⟨pre, rest, ts, rfl, hlexed, hname⟩ := h
  exact ⟨lexeme ++ pre, rest, t :: ts, (List.append_assoc ..).symm, .lexeme hhead hlexed, hname⟩

end MeetsBehind

namespace Lexeme

theorem startsIdentifier_of_first {c : Char} {lexeme : List Char}
    (h : (first c cs).1 = word lexeme) : startsIdentifier c = true := by
  by_contra hc
  unfold first at h
  rw [if_neg hc] at h
  split at h
  · cases h
  split at h
  · cases h
  split at h
  · cases h
  split at h
  · cases h
  split at h
  · cases h
  split at h
  · cases h
  · cases h

theorem first_of_startsIdentifier {c : Char} (hc : startsIdentifier c = true) (cs : List Char) :
    first c cs = (word (c :: cs.takeWhile continuesIdentifier),
      cs.dropWhile continuesIdentifier) := by
  have hrun : ∀ d ∈ cs.takeWhile continuesIdentifier, continuesIdentifier d = true :=
    fun _ => List.mem_takeWhile_imp
  have hword := first_word hc hrun (ends_dropWhile _ cs)
  rwa [List.takeWhile_append_dropWhile] at hword

end Lexeme

theorem meetsBehind_of_first {c : Char} (h : (Lexeme.first c cs).1.name? = some name) :
    MeetsBehind table before (c :: cs) name := by
  obtain ⟨lexeme, hword, rfl⟩ := exists_eq_word_of_name? h
  have hchars := Lexeme.chars_first_append c cs
  have hc := Lexeme.startsIdentifier_of_first hword
  rw [Lexeme.first_of_startsIdentifier hc] at hword hchars
  cases hword
  have hrun : isIdentifierChars (c :: cs.takeWhile continuesIdentifier) = true :=
    isIdentifierChars_iff.2 ⟨c, _, rfl, hc, fun _ => List.mem_takeWhile_imp⟩
  rw [← hchars]
  exact .head hrun (ends_dropWhile _ cs)

theorem mem_names_of_meetsBehind {ctx : ReadingContext} (hctx : ctx.Describes before)
    (h : MeetsBehind table before cs name) : name ∈ (lexemes cs).filterMap Lexeme.name? := by
  obtain ⟨pre, rest, ts, rfl, hlexed, hname, hends⟩ := h
  induction hlexed generalizing ctx with
  | done =>
    obtain ⟨c, cs, hcs, hc, hrun⟩ := isIdentifierChars_iff.1 hname
    rw [List.nil_append, hcs, List.cons_append, lexemes, Lexeme.first_word hc hrun hends, ← hcs]
    refine List.mem_filterMap.2 ⟨_, List.mem_cons_self, ?_⟩
    rw [Lexeme.name?, String.ofList_toList]
  | blank hblank _ ih =>
    rw [List.cons_append, lexemes, Lexeme.first_blank hblank]
    exact mem_filterMap_cons (ih hctx)
  | lexeme hhead _ ih =>
    obtain ⟨c, cs, l, hcs, hfirst, -⟩ := hhead.first_eq hctx
    rw [List.append_assoc, hcs, lexemes, hfirst]
    exact mem_filterMap_cons (ih (hctx.after l hhead.unclosed))

theorem Meets.mem_identifiers {formula : String} (h : Meets table formula name) :
    name ∈ identifiers formula :=
  mem_names_of_meetsBehind ReadingContext.describes_start h

/-! ## Reading -/

section Reading

variable {ctx : ReadingContext} {formula : String}

theorem token?_congr {l : Lexeme}
    (h : ∀ name, l.name? = some name → readName table name = readName table' name) :
    l.token? table ctx = l.token? table' ctx := by
  cases l with
  | word cs =>
    rw [Lexeme.token?, Lexeme.token?, h _ rfl]
  | blank _ | literal _ | opening | closing | comma | operator _ | unknown _ => rfl

theorem readTokens_congr (hctx : ctx.Describes before)
    (h : ∀ name, MeetsBehind table before cs name → readName table name = readName table' name) :
    readTokens table ctx (lexemes cs) = readTokens table' ctx (lexemes cs) := by
  fun_induction lexemes cs generalizing ctx before with
  | case1 => rfl
  | case2 c cs ih =>
    have hhead : (Lexeme.first c cs).1.token? table ctx = (Lexeme.first c cs).1.token? table' ctx :=
      token?_congr fun name hname => h name (meetsBehind_of_first hname)
    have hchars := Lexeme.chars_first_append c cs
    rw [readTokens, readTokens, ← hhead]
    cases ht : (Lexeme.first c cs).1.token? table ctx with
    | error e => rfl
    | ok t? =>
      cases t? with
      | none =>
        obtain ⟨d, hd⟩ := exists_eq_blank_of_token? ht
        have hc := Lexeme.isBlank_of_first_eq hd
        rw [Lexeme.first_blank hc] at ih ⊢
        exact ih (hctx.skip _) fun name hname => h name (hname.blank hc)
      | some t =>
        have hlexeme := isLexeme_of_first hctx ht
        have htail := ih (hctx.after (Lexeme.first c cs).1 hlexeme.unclosed) fun name hname => by
          apply h
          rw [← hchars]
          exact hname.lexeme_append hlexeme
        exact congrArg (· >>= fun ts => .ok (t :: ts)) htail

/-- Two tables that read the identifiers which are met in the same way read the formula in the same
way, also where it is refused. -/
theorem tokenize_congr
    (h : ∀ name, Meets table formula name → readName table name = readName table' name) :
    tokenize table formula = tokenize table' formula :=
  readTokens_congr ReadingContext.describes_start h

theorem parse_congr
    (h : ∀ name, Meets table formula name → readName table name = readName table' name) :
    parse table formula = parse table' formula := by
  rw [parse, parse, tokenize_congr h]

/-- Every function among the tokens of a text was met by its name. -/
theorem meetsBehind_of_function_mem {ts : List (Token α)} {arity : Nat}
    (h : Lexed table before cs ts) (hmem : .function name arity ∈ ts) :
    MeetsBehind table before cs name := by
  induction h with
  | done => cases hmem
  | lexeme hblank hhead _ ih =>
    apply MeetsBehind.gap_append hblank
    rcases List.mem_cons.1 hmem with rfl | hmem
    · cases hhead with
      | function hrun hends _ => exact .head hrun hends
      | operator _ hrole => cases hrole
    · exact (ih hmem).lexeme_append hhead

theorem meets_of_function_mem {ts : List (Token α)} {arity : Nat}
    (h : tokenize table formula = .ok ts) (hmem : .function name arity ∈ ts) :
    Meets table formula name :=
  meetsBehind_of_function_mem (lexed_of_readTokens ReadingContext.describes_start h) hmem

theorem meets_of_unexpectedName (h : tokenize table formula = .error (.unexpectedName name)) :
    Meets table formula name := by
  obtain ⟨pre, rest, ts, hformula, hlexed, hrefused⟩ := tokenize_eq_error_iff.1 h
  cases hrefused with
  | @name lexeme rest hrun hends _ =>
    refine ⟨pre, rest, ts, ?_, ?_, isIdentifier_ofList hrun, hends⟩
    · rwa [String.toList_ofList]
    · rwa [String.toList_ofList]

end Reading

end Formula
