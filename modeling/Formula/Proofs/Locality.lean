import Formula.Evaluation
import Formula.Expr
import Formula.Proofs.Lexing
import Formula.Proofs.Symbols

/-!
# What a formula asks of the symbol table

Every function among the tokens of a formula is one of its identifiers (`readName_of_mem_readTokens`),
and each identifier leaves its token behind (`exists_mem_of_readTokens`).  Running tokens looks up the
functions that they name, and never a constant (`execute_congr`).
-/

namespace Formula

variable {α : Type}

namespace Lexeme

/-- The name that a lexeme consists of. -/
def name? : Lexeme → Option String
  | word cs => some (String.ofList cs)
  | _ => none

end Lexeme

/-- The identifiers of a formula, from left to right. -/
def identifiers (formula : String) : List String :=
  (lexemes formula.toList).filterMap Lexeme.name?

/-! ## Reading -/

section Reading

variable [Number α] {table table' : SymbolTable α} {ctx : ReadingContext} {ls : List Lexeme}

omit [Number α] in
theorem mem_filterMap_cons {l : Lexeme} {name : String} (h : name ∈ ls.filterMap Lexeme.name?) :
    name ∈ (l :: ls).filterMap Lexeme.name? :=
  ((List.sublist_cons_self l ls).filterMap _).subset h

omit [Number α] in
theorem readName_eq_ok_function_iff {key name : String} {arity : Nat} :
    readName table key = .ok (.function name arity) ↔
      key = name ∧ table.HasFunction name arity := by
  unfold readName
  split
  · rename_i f hf
    rw [SymbolTable.lookup?_eq_some_function_iff] at hf
    rw [Except.ok.injEq, Token.function.injEq]
    constructor
    · rintro ⟨rfl, rfl⟩
      exact ⟨rfl, f, hf, rfl⟩
    · rintro ⟨rfl, g, hg, rfl⟩
      rw [hf, Option.some.injEq] at hg
      exact ⟨rfl, by rw [hg]⟩
  · rename_i a ha
    constructor
    · nofun
    · rintro ⟨rfl, g, hg, -⟩
      rw [SymbolTable.lookup?_eq_some_function_iff.2 hg] at ha
      cases ha
  · rename_i hnone
    constructor
    · nofun
    · rintro ⟨rfl, g, hg, -⟩
      rw [SymbolTable.lookup?_eq_some_function_iff.2 hg] at hnone
      cases hnone

/-- Only a name gives the token of a function. -/
theorem name?_eq_some_of_token? {l : Lexeme} {name : String} {arity : Nat}
    (h : l.token? table ctx = .ok (some (.function name arity))) :
    l.name? = some name ∧ readName table name = .ok (.function name arity) := by
  cases l with
  | word cs =>
    have hname := map_some_eq_ok_iff.1 h
    obtain ⟨rfl, -⟩ := readName_eq_ok_function_iff.1 hname
    exact ⟨rfl, hname⟩
  | literal cs =>
    have hliteral := map_some_eq_ok_iff.1 h
    unfold readLiteral at hliteral
    split at hliteral
    · cases hliteral
    · split at hliteral <;> cases hliteral
  | operator s => cases standsFor_of_readOperator (map_some_eq_ok_iff.1 h)
  | closing | comma =>
    unfold Lexeme.token? at h
    dsimp only at h
    split at h <;> cases h
  | blank _ | opening | unknown _ => cases h

omit [Number α] in
theorem exists_eq_word_of_name? {l : Lexeme} {name : String} (h : l.name? = some name) :
    ∃ cs, l = .word cs ∧ String.ofList cs = name := by
  cases l with
  | word cs => exact ⟨cs, rfl, Option.some.inj h⟩
  | blank _ | literal _ | opening | closing | comma | operator _ | unknown _ => cases h

/-- The first lexeme gives no token or the first one. -/
theorem readTokens_cons_cases {l : Lexeme} {ts : List (Token α)}
    (h : readTokens table ctx (l :: ls) = .ok ts) :
    (l.token? table ctx = .ok none ∧ readTokens table (ctx.skip l) ls = .ok ts) ∨
      ∃ t us, l.token? table ctx = .ok (some t) ∧
        readTokens table (ctx.after l t) ls = .ok us ∧ ts = t :: us := by
  rw [readTokens] at h
  obtain ⟨t?, ht, hrest⟩ := bind_eq_ok_iff.1 h
  cases t? with
  | none => exact .inl ⟨ht, hrest⟩
  | some t =>
    obtain ⟨us, hus, hcons⟩ := bind_eq_ok_iff.1 hrest
    cases hcons
    exact .inr ⟨t, us, ht, hus, rfl⟩

/-- Every token of a function comes from an identifier. -/
theorem readName_of_mem_readTokens {ts : List (Token α)} {name : String} {arity : Nat}
    (h : readTokens table ctx ls = .ok ts) (hmem : .function name arity ∈ ts) :
    name ∈ ls.filterMap Lexeme.name? ∧ readName table name = .ok (.function name arity) := by
  induction ls generalizing ctx ts with
  | nil =>
    cases h
    cases hmem
  | cons l ls ih =>
    rcases readTokens_cons_cases h with ⟨-, hrest⟩ | ⟨t, us, ht, hus, rfl⟩
    · obtain ⟨hname, hread⟩ := ih hrest hmem
      exact ⟨mem_filterMap_cons hname, hread⟩
    · rcases List.mem_cons.1 hmem with rfl | hmem
      · obtain ⟨hname, hread⟩ := name?_eq_some_of_token? ht
        exact ⟨List.mem_filterMap.2 ⟨l, List.mem_cons_self, hname⟩, hread⟩
      · obtain ⟨hname, hread⟩ := ih hus hmem
        exact ⟨mem_filterMap_cons hname, hread⟩

/-- Every identifier gives a token, if the text has tokens at all. -/
theorem exists_mem_of_readTokens {ts : List (Token α)} {name : String}
    (h : readTokens table ctx ls = .ok ts) (hname : name ∈ ls.filterMap Lexeme.name?) :
    ∃ t ∈ ts, readName table name = .ok t := by
  induction ls generalizing ctx ts with
  | nil => cases hname
  | cons l ls ih =>
    obtain ⟨l', hl', hword⟩ := List.mem_filterMap.1 hname
    rcases List.mem_cons.1 hl' with rfl | hl'
    · -- The first lexeme is the name itself, which gives the first token.
      obtain ⟨cs, rfl, rfl⟩ := exists_eq_word_of_name? hword
      rcases readTokens_cons_cases h with ⟨hnone, -⟩ | ⟨t, us, ht, -, rfl⟩
      · exact absurd hnone map_some_ne_ok_none
      · exact ⟨t, List.mem_cons_self, map_some_eq_ok_iff.1 ht⟩
    · have hlater := List.mem_filterMap.2 ⟨l', hl', hword⟩
      rcases readTokens_cons_cases h with ⟨-, hrest⟩ | ⟨t, us, -, hus, rfl⟩
      · exact ih hrest hlater
      · obtain ⟨u, hu, hread⟩ := ih hus hlater
        exact ⟨u, List.mem_cons_of_mem _ hu, hread⟩

end Reading

/-! ## Running -/

section Running

variable {table table' : SymbolTable α}

/-- Whether every function named in the tokens is in the table, with the number of arguments that
the token says. -/
def SymbolTable.Provides (table : SymbolTable α) (ts : List (Token α)) : Prop :=
  ∀ name arity, .function name arity ∈ ts → table.HasFunction name arity

theorem SymbolTable.provides_nil : table.Provides [] :=
  fun _ _ hmem => absurd hmem List.not_mem_nil

theorem SymbolTable.provides_cons_iff {t : Token α} {ts : List (Token α)} :
    table.Provides (t :: ts) ↔ table.Provides [t] ∧ table.Provides ts := by
  constructor
  · intro h
    refine ⟨fun name arity hmem => ?_, fun name arity hmem => ?_⟩
    · exact h name arity (List.mem_cons.2 (.inl (List.mem_singleton.1 hmem)))
    · exact h name arity (List.mem_cons_of_mem _ hmem)
  · rintro ⟨ht, hts⟩ name arity hmem
    rcases List.mem_cons.1 hmem with rfl | hmem
    · exact ht name arity List.mem_cons_self
    · exact hts name arity hmem

theorem callee_eq_ok_iff {name : String} {arity : Nat} {f : HostFunction α} :
    callee table name arity = .ok f ↔ table.function? name = some f ∧ f.arity = arity := by
  unfold callee
  cases table.function? name with
  | none =>
    constructor
    · intro h
      cases h
    · rintro ⟨h, -⟩
      cases h
  | some g =>
    by_cases harity : g.arity = arity
    · simp only [if_pos harity, Except.ok.injEq, Option.some.injEq]
      exact ⟨fun h => ⟨h, h ▸ harity⟩, fun h => h.1⟩
    · simp only [if_neg harity]
      constructor
      · intro h
        cases h
      · rintro ⟨h, h'⟩
        cases h
        exact absurd h' harity

theorem callFunction_of_callee {name : String} {arity : Nat} {f : HostFunction α}
    (h : callee table name arity = .ok f) (stack : List α) :
    callFunction table name arity stack =
      if stack.length < arity then .error (.missingOperand (.function name))
      else f.call name (stack.take arity).reverse >>= fun a => .ok (a :: stack.drop arity) := by
  rw [callFunction, h]
  rfl

theorem callFunction_congr {name : String} (h : table.function? name = table'.function? name)
    (arity : Nat) (stack : List α) :
    callFunction table name arity stack = callFunction table' name arity stack := by
  unfold callFunction callee
  rw [h]

variable [Number α]

theorem step_congr {t : Token α}
    (h : ∀ name arity, t = .function name arity → table.function? name = table'.function? name)
    (stack : List α) : step table stack t = step table' stack t := by
  cases t with
  | function name arity => exact callFunction_congr (h name arity rfl) arity stack
  | operand _ | infixOp _ | prefixOp _ | postfixOp _ | opening | closing | comma => rfl

theorem run_congr {ts : List (Token α)}
    (h : ∀ name arity, .function name arity ∈ ts → table.function? name = table'.function? name)
    (stack : List α) : run table stack ts = run table' stack ts := by
  induction ts generalizing stack with
  | nil => rfl
  | cons t ts ih =>
    have hhead : step table stack t = step table' stack t := by
      apply step_congr
      rintro name arity rfl
      exact h name arity List.mem_cons_self
    have htail : ∀ stack, run table stack ts = run table' stack ts :=
      ih fun name arity hmem => h name arity (List.mem_cons_of_mem _ hmem)
    rw [Expr.run_cons, Expr.run_cons, hhead]
    simp only [htail]

/-- Two tables in which the named functions are the same run tokens in the same way, also where the
run fails. -/
theorem execute_congr {ts : List (Token α)}
    (h : ∀ name arity, .function name arity ∈ ts → table.function? name = table'.function? name) :
    execute table ts = execute table' ts := by
  rw [execute, execute, run_congr h]

end Running

end Formula
