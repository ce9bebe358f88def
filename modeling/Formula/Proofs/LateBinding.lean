import Formula.Number.BoundedInt
import Formula.Proofs.Directory
import Formula.Proofs.Mention
import Formula.Proofs.Reordering.Contents

/-!
# Running a formula with another symbol table

A formula that has been put into postfix order holds the values of its constants and the names of
its functions.  When it is run later, after any changes of the symbol table, only the functions of
that moment matter.  As long as they are there with the arities that were recorded, the run gives
what the formula means when its names stand for the constants of then and the functions of now
(`execute_eq_evaluate_of_provides`).  Otherwise the first call that is out of date ends the run,
unless something before it does (`execute_of_not_provides`).
-/

namespace Formula

variable {α : Type}

/-- What a name stands for in a formula read with the table `early` and run with `late`: a constant
was replaced by its value when the formula was read, a function is looked up when it is run. -/
def boundSymbol? (early late : SymbolTable α) (name : String) : Option (Symbol α) :=
  match early.lookup? name with
  | some (.constant a) => some (.constant a)
  | _ => (late.function? name).map .function

theorem boundSymbol?_of_function {early late : SymbolTable α} {name : String} {arity : Nat}
    (h : early.HasFunction name arity) :
    boundSymbol? early late name = (late.function? name).map .function := by
  obtain ⟨f, hf, -⟩ := h
  unfold boundSymbol?
  rw [SymbolTable.lookup?_eq_some_function_iff.2 hf]

/-- A table in which every name stands for what it is bound to: the constants of `early`, and under
all other names the functions of `late`. -/
def boundTable (early late : SymbolTable α) : SymbolTable α where
  functions := late.functions.filter fun name _ =>
    (early.function? name).isSome || (early.constant? name).isNone
  constants := early.constants.filter fun name _ => (early.function? name).isNone

theorem lookup?_boundTable (early late : SymbolTable α) (name : String) :
    (boundTable early late).lookup? name = boundSymbol? early late name := by
  unfold SymbolTable.lookup? boundSymbol? SymbolTable.lookup?
  have hfunction : (boundTable early late).function? name = (late.function? name).filter fun _ =>
      (early.function? name).isSome || (early.constant? name).isNone :=
    Std.TreeMap.getElem?_filter'
  have hconstant : (boundTable early late).constant? name = (early.constant? name).filter fun _ =>
      (early.function? name).isNone :=
    Std.TreeMap.getElem?_filter'
  rw [hfunction, hconstant]
  rcases early.function? name with _ | f
  · rcases early.constant? name with _ | a
    · rcases late.function? name with _ | g <;> rfl
    · rcases late.function? name with _ | g <;> rfl
  · rcases late.function? name with _ | g
    · rcases early.constant? name with _ | a <;> rfl
    · rfl

variable [Number α] {early late : SymbolTable α} {formula : String} {p : List (Token α)}

/-! ## Where every call is up to date -/

section Provided

variable {mixed : SymbolTable α} {ts : List (Token α)}

/-- A table with the constants of then and the functions of now reads every identifier as it was
read then. -/
theorem readName_eq_of_provides (hts : tokenize early formula = .ok ts) (hp : toPostfix ts = .ok p)
    (hlate : late.Provides p) {name : String} (hname : name ∈ identifiers formula)
    (hmixed : mixed.lookup? name = boundSymbol? early late name) :
    readName mixed name = readName early name := by
  obtain ⟨t, hmem, hread⟩ := exists_mem_of_readTokens hts hname
  have hboth := hread
  unfold readName at hread
  split at hread
  · rename_i f hf
    cases hread
    -- A function of then is called in `p`, and so it is still a function of its arity.
    have hcall : .function name f.arity ∈ p := (mem_toPostfix_iff hp).2 ⟨hmem, rfl⟩
    have hthen : early.HasFunction name f.arity :=
      ⟨f, SymbolTable.lookup?_eq_some_function_iff.1 hf, rfl⟩
    obtain ⟨g, hg, harity⟩ := hlate name f.arity hcall
    rw [boundSymbol?_of_function hthen, hg] at hmixed
    rw [hboth, readName_eq_ok_function_iff]
    exact ⟨rfl, g, SymbolTable.lookup?_eq_some_function_iff.1 hmixed, harity⟩
  · rename_i a ha
    rw [boundSymbol?, ha] at hmixed
    unfold readName
    rw [hmixed, ha]
  · cases hread

theorem function?_eq_of_provides (hts : tokenize early formula = .ok ts)
    (hp : toPostfix ts = .ok p) (hlate : late.Provides p)
    (hmixed : ∀ name ∈ identifiers formula,
      mixed.lookup? name = boundSymbol? early late name)
    {name : String} {arity : Nat} (hcall : .function name arity ∈ p) :
    late.function? name = mixed.function? name := by
  obtain ⟨hname, hread⟩ := readName_of_mem_readTokens hts ((mem_toPostfix_iff hp).1 hcall).1
  have hthen := (readName_eq_ok_function_iff.1 hread).2
  obtain ⟨g, hg, -⟩ := hlate name arity hcall
  have hnow : mixed.lookup? name = some (.function g) := by
    rw [hmixed name hname, boundSymbol?_of_function hthen, hg]
    rfl
  rw [hg, SymbolTable.lookup?_eq_some_function_iff.1 hnow]

/-- As long as no call is out of date, the run gives the value of the formula with the constants of
then and the functions of now. -/
theorem execute_eq_evaluate_of_provides (hparse : parse early formula = .ok p)
    (hlate : late.Provides p)
    (hmixed : ∀ name ∈ identifiers formula,
      mixed.lookup? name = boundSymbol? early late name) :
    execute late p = evaluate mixed formula := by
  obtain ⟨ts, hts, hp⟩ := bind_eq_ok_iff.1 hparse
  have hsame : parse mixed formula = .ok p := by
    rw [← hparse]
    exact parse_congr fun name hname =>
      readName_eq_of_provides hts hp hlate hname.mem_identifiers (hmixed name hname.mem_identifiers)
  have hrun : execute late p = execute mixed p :=
    execute_congr fun name arity hcall => function?_eq_of_provides hts hp hlate hmixed hcall
  rw [hrun, evaluate, hsame]
  rfl

end Provided

/-! ## Where a call is out of date -/

section Stale

variable {name : String} {arity : Nat}

omit [Number α] in
/-- Tokens with a call that is out of date have a first one. -/
theorem exists_first_stale (h : ¬ late.Provides p) :
    ∃ before name arity after, p = before ++ .function name arity :: after ∧
      late.Provides before ∧ ¬ late.HasFunction name arity := by
  induction p with
  | nil => exact absurd SymbolTable.provides_nil h
  | cons t p ih =>
    by_cases ht : late.Provides [t]
    · have hp : ¬ late.Provides p := fun hp => h (SymbolTable.provides_cons_iff.2 ⟨ht, hp⟩)
      obtain ⟨before, name, arity, after, rfl, hbefore, hstale⟩ := ih hp
      exact ⟨t :: before, name, arity, after, rfl,
        SymbolTable.provides_cons_iff.2 ⟨ht, hbefore⟩, hstale⟩
    · obtain ⟨name, hname⟩ := not_forall.1 ht
      obtain ⟨arity, harity⟩ := not_forall.1 hname
      obtain ⟨hmem, hstale⟩ := Classical.not_imp.1 harity
      cases List.mem_singleton.1 hmem
      exact ⟨[], name, arity, p, rfl, SymbolTable.provides_nil, hstale⟩

omit [Number α] in
theorem callee_of_not_hasFunction (h : ¬ late.HasFunction name arity) :
    (late.function? name = none ∧ callee late name arity = .error (.unexpectedName name)) ∨
      ∃ f, late.function? name = some f ∧ f.arity ≠ arity ∧
        callee late name arity = .error (.wrongArity name f.arity arity) := by
  unfold callee
  cases hf : late.function? name with
  | none => exact .inl ⟨rfl, rfl⟩
  | some f =>
    have harity : f.arity ≠ arity := fun harity => h ⟨f, hf, harity⟩
    exact .inr ⟨f, rfl, harity, if_neg harity⟩

/-- The callee is looked up before its arguments are counted, so that a call without a callee fails
on every stack. -/
theorem execute_of_callee {before after : List (Token α)} {stack : List α} {e : Failure}
    (hbefore : run late [] before = .ok stack) (hcallee : callee late name arity = .error e) :
    execute late (before ++ .function name arity :: after) = .error e := by
  have hstep : step late stack (.function name arity) = .error e := by
    rw [step, callFunction, hcallee]
    rfl
  rw [execute, Expr.run_append, hbefore]
  change (run late stack (.function name arity :: after) >>= _) = _
  rw [Expr.run_cons, hstep]
  rfl

theorem execute_of_run_error {before after : List (Token α)} {e : Failure}
    (hbefore : run late [] before = .error e) : execute late (before ++ after) = .error e := by
  rw [execute, Expr.run_append, hbefore]
  rfl

/-- The first call that is out of date ends the run, unless something before it does. -/
theorem execute_of_not_provides (h : ¬ late.Provides p) :
    ∃ before name arity after, p = before ++ .function name arity :: after ∧
      late.Provides before ∧ ¬ late.HasFunction name arity ∧
      ((∃ e, run late [] before = .error e ∧ execute late p = .error e) ∨
        ∃ stack, run late [] before = .ok stack ∧
          ((late.function? name = none ∧ execute late p = .error (.unexpectedName name)) ∨
            ∃ f, late.function? name = some f ∧ f.arity ≠ arity ∧
              execute late p = .error (.wrongArity name f.arity arity))) := by
  obtain ⟨before, name, arity, after, rfl, hbefore, hstale⟩ := exists_first_stale h
  refine ⟨before, name, arity, after, rfl, hbefore, hstale, ?_⟩
  cases hrun : run late [] before with
  | error e => exact .inl ⟨e, rfl, execute_of_run_error hrun⟩
  | ok stack =>
    refine .inr ⟨stack, rfl, ?_⟩
    rcases callee_of_not_hasFunction hstale with ⟨hnone, hcallee⟩ | ⟨f, hf, harity, hcallee⟩
    · exact .inl ⟨hnone, execute_of_callee hrun hcallee⟩
    · exact .inr ⟨f, hf, harity, execute_of_callee hrun hcallee⟩

end Stale

/-- What becomes of a formula that is run after changes of the table that it was read with.  Only the
functions after the changes matter.  If the called ones are all there, the run gives the value of
the formula with a table that has its constants as they were read, and there is such a table.
Otherwise the first call that is out of date decides, unless something before it fails. -/
theorem execute_after_changes {table : SymbolTable α} (hparse : parse table formula = .ok p)
    (changes : List (Change α)) :
    let later := table.changeAll changes
    (∀ other : SymbolTable α, (∀ name, other.function? name = later.function? name) →
      execute other p = execute later p) ∧
    (later.Provides p →
      execute later p = evaluate (boundTable table later) formula ∧
      ∀ mixed : SymbolTable α,
        (∀ name ∈ identifiers formula, mixed.lookup? name = boundSymbol? table later name) →
        execute later p = evaluate mixed formula) ∧
    (¬ later.Provides p →
      ∃ before name arity after, p = before ++ .function name arity :: after ∧
        later.Provides before ∧ ¬ later.HasFunction name arity ∧
        ((∃ e, run later [] before = .error e ∧ execute later p = .error e) ∨
          ∃ stack, run later [] before = .ok stack ∧
            ((later.function? name = none ∧ execute later p = .error (.unexpectedName name)) ∨
              ∃ f, later.function? name = some f ∧ f.arity ≠ arity ∧
                execute later p = .error (.wrongArity name f.arity arity)))) := by
  intro later
  refine ⟨fun other hother => ?_, fun hlater => ?_, fun hlater => ?_⟩
  · exact execute_congr fun name _ _ => hother name
  · have hvalue : ∀ mixed : SymbolTable α,
        (∀ name ∈ identifiers formula, mixed.lookup? name = boundSymbol? table later name) →
        execute later p = evaluate mixed formula :=
      fun mixed hmixed => execute_eq_evaluate_of_provides hparse hlater hmixed
    exact ⟨hvalue _ fun name _ => lookup?_boundTable table later name, hvalue⟩
  · exact execute_of_not_provides hlater

/-- The 64-bit integers with a constant `k` and a function `f`, the first of two arguments. -/
def firstOfTwo : SymbolTable (BoundedInt .w64) :=
  SymbolTable.empty.changeAll
    [.insertFunction "f" (.of fun a _ : BoundedInt .w64 => a),
      .insertConstant "k" ⟨12, by decide, by decide⟩]

/-- A request to enter `f` as the last of two arguments. -/
def enterLast : Change (BoundedInt .w64) :=
  .insertFunction "f" (.of fun _ b : BoundedInt .w64 => b)

/-- The postfix order of `k - f(k, 5)` with 12 for `k`. -/
def differenceTokens : List (Token (BoundedInt .w64)) :=
  [.operand ⟨12, by decide, by decide⟩, .operand ⟨12, by decide, by decide⟩,
    .operand ⟨5, by decide, by decide⟩, .function "f" 2, .infixOp .subtract]

/-- The tokens of `k - f(k, 5)` are run without `k` and with another `f`, and with a constant called
`f`. -/
theorem execute_difference_after_changes :
    parse firstOfTwo "k - f(k, 5)" = .ok differenceTokens ∧
    execute (firstOfTwo.change enterLast) differenceTokens =
      execute (firstOfTwo.changeAll [.eraseConstant "k", enterLast]) differenceTokens ∧
    execute (firstOfTwo.changeAll [.eraseConstant "k", enterLast]) differenceTokens =
      evaluate (firstOfTwo.change enterLast) "k - f(k, 5)" ∧
    evaluate (firstOfTwo.change enterLast) "k - f(k, 5)" = .ok ⟨7, by decide, by decide⟩ ∧
    ∃ e, execute (firstOfTwo.change (.insertConstant "f" .one)) differenceTokens = .error e := by
  have hparse : parse firstOfTwo "k - f(k, 5)" = .ok differenceTokens := by decide +kernel
  obtain ⟨hfunctions, hprovided, -⟩ :=
    execute_after_changes hparse [.eraseConstant "k", enterLast]
  obtain ⟨-, -, hstale⟩ := execute_after_changes hparse [.insertConstant "f" .one]
  refine ⟨hparse, hfunctions _ fun _ => rfl, ?_, by decide +kernel, ?_⟩
  · have hthere : (firstOfTwo.changeAll [.eraseConstant "k", enterLast]).Provides
        differenceTokens := by
      intro name arity hmem
      have hcall : (name, arity) = ("f", 2) := by simpa [differenceTokens] using hmem
      cases hcall
      exact ⟨_, rfl, rfl⟩
    have hnames : identifiers "k - f(k, 5)" = ["k", "f", "k"] := by decide +kernel
    apply (hprovided hthere).2
    rw [hnames]
    intro name hmem
    have hname : name = "k" ∨ name = "f" ∨ name = "k" := by simpa using hmem
    rcases hname with rfl | rfl | rfl
    · rfl
    · rfl
    · rfl
  · have hmissing : ¬ (firstOfTwo.changeAll [.insertConstant "f" .one]).Provides
        differenceTokens := by
      intro h
      obtain ⟨f, hf, -⟩ := h "f" 2 (by simp [differenceTokens])
      cases hf
    obtain ⟨_, _, _, _, -, -, -, ⟨e, -, he⟩ | ⟨_, -, ⟨-, he⟩ | ⟨f, -, -, he⟩⟩⟩ := hstale hmissing
    · exact ⟨e, he⟩
    · exact ⟨_, he⟩
    · exact ⟨_, he⟩

end Formula
