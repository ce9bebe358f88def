import Formula.Proofs.Parentheses
import Formula.Proofs.Postorder
import Formula.Proofs.Refusal
import Formula.Proofs.RunFailures

/-!
# How many values a formula leaves

Every token changes the height of the stack by a fixed amount, whatever the values are, so a run
that does not fail leaves as many values as the tokens gain together (`length_of_run`).  Reordering
loses no token that gains anything, so the number of values can be read off the formula as it is
written, without putting its tokens in order (`arityBalance_of_evaluate`).
-/

namespace Formula

variable {α : Type}

/-! ## The balance of tokens -/

/-- The number of values that a token adds to a stack. -/
def Token.gain : Token α → Int
  | operand _ => 1
  | function _ arity => 1 - arity
  | infixOp _ => -1
  | prefixOp _ | postfixOp _ | opening | closing | comma => 0

/-- The number of operands, less that of infix operators, and for every function one less the number
of its arguments. -/
def arityBalance : List (Token α) → Int
  | [] => 0
  | t :: ts => t.gain + arityBalance ts

@[simp]
theorem arityBalance_nil : arityBalance ([] : List (Token α)) = 0 :=
  rfl

@[simp]
theorem arityBalance_cons (t : Token α) (ts : List (Token α)) :
    arityBalance (t :: ts) = t.gain + arityBalance ts :=
  rfl

theorem arityBalance_eq_of_perm {ts us : List (Token α)} (h : ts.Perm us) :
    arityBalance ts = arityBalance us := by
  induction h with
  | nil => rfl
  | cons t _ ih => rw [arityBalance_cons, arityBalance_cons, ih]
  | swap t u ts =>
    simp only [arityBalance_cons]
    omega
  | trans _ _ ih ih' => rw [ih, ih']

theorem Token.gain_eq_zero {t : Token α} (h : t.isComputed = false) : t.gain = 0 := by
  cases t with
  | operand _ | function _ _ | infixOp _ | prefixOp _ | postfixOp _ => cases h
  | opening | closing | comma => rfl

theorem arityBalance_filter_isComputed (ts : List (Token α)) :
    arityBalance (ts.filter Token.isComputed) = arityBalance ts := by
  induction ts with
  | nil => rfl
  | cons t ts ih =>
    by_cases ht : t.isComputed = true
    · rw [List.filter_cons_of_pos ht, arityBalance_cons, arityBalance_cons, ih]
    · rw [List.filter_cons_of_neg ht, arityBalance_cons, ih,
        Token.gain_eq_zero (Bool.eq_false_iff.2 ht), Int.zero_add]

theorem arityBalance_eq_of_toPostfix {ts p : List (Token α)} (h : toPostfix ts = .ok p) :
    arityBalance p = arityBalance ts := by
  rw [arityBalance_eq_of_perm (toPostfix_perm h), arityBalance_filter_isComputed]

theorem toPostfix_eq_nil_iff {ts p : List (Token α)} (h : toPostfix ts = .ok p) :
    p = [] ↔ ∀ t ∈ ts, t.isComputed = false := by
  rw [List.eq_nil_iff_forall_not_mem]
  constructor
  · intro hp t ht
    exact Bool.eq_false_iff.2 fun hcomputed => hp t ((mem_toPostfix_iff h).2 ⟨ht, hcomputed⟩)
  · intro hts t ht
    obtain ⟨hmem, hcomputed⟩ := (mem_toPostfix_iff h).1 ht
    rw [hts t hmem] at hcomputed
    cases hcomputed

/-! ## The height of the stack -/

section Runs

variable [Number α] {table : SymbolTable α} {stack stack' : List α}

/-- A token leaves a value on top of those that it does not take. -/
theorem exists_eq_cons_of_step {t : Token α} (h : step table stack t = .ok stack') :
    ∃ a rest, stack' = a :: rest ∧ (rest.length : Int) + 1 = stack.length + t.gain := by
  cases t with
  | operand a =>
    cases h
    exact ⟨a, stack, rfl, rfl⟩
  | infixOp op =>
    rcases stack with _ | ⟨rhs, _ | ⟨lhs, stack⟩⟩
    · cases h
    · cases h
    · obtain ⟨a, -, hstack⟩ := bind_eq_ok_iff.1 h
      cases hstack
      refine ⟨a, stack, rfl, ?_⟩
      simp only [List.length_cons, Token.gain]
      omega
  | prefixOp op | postfixOp op =>
    rcases stack with _ | ⟨b, stack⟩
    · cases h
    · obtain ⟨a, -, hstack⟩ := bind_eq_ok_iff.1 h
      cases hstack
      refine ⟨a, stack, rfl, ?_⟩
      simp only [List.length_cons, Token.gain]
      omega
  | function name arity =>
    obtain ⟨f, -, harity, a, -, rfl⟩ := Expr.callFunction_eq_ok_iff.1 h
    refine ⟨a, _, rfl, ?_⟩
    simp only [List.length_drop, Token.gain]
    omega
  | opening | closing | comma => cases h

theorem length_of_run {ts : List (Token α)} (h : run table stack ts = .ok stack') :
    (stack'.length : Int) = stack.length + arityBalance ts := by
  induction ts generalizing stack with
  | nil =>
    cases h
    rw [arityBalance_nil, Int.add_zero]
  | cons t ts ih =>
    obtain ⟨middle, hstep, hrest⟩ := bind_eq_ok_iff.1 h
    obtain ⟨a, rest, rfl, hlength⟩ := exists_eq_cons_of_step hstep
    rw [ih hrest, arityBalance_cons, List.length_cons]
    omega

/-- A run leaves nothing only if there was nothing to run. -/
theorem eq_nil_iff_of_run {ts : List (Token α)} (h : run table [] ts = .ok stack') :
    stack' = [] ↔ ts = [] := by
  rcases List.eq_nil_or_concat' ts with rfl | ⟨init, t, rfl⟩
  · cases h
    simp
  · rw [Expr.run_append] at h
    obtain ⟨middle, -, hlast⟩ := bind_eq_ok_iff.1 h
    obtain ⟨last, hstep, hnil⟩ := bind_eq_ok_iff.1 hlast
    obtain ⟨a, rest, rfl, -⟩ := exists_eq_cons_of_step hstep
    cases hnil
    simp

theorem execute_eq_ok_iff_of_run {ts : List (Token α)} (h : run table [] ts = .ok stack') :
    (∃ v, execute table ts = .ok v) ↔ stack'.length = 1 := by
  rw [execute, h]
  rcases stack' with _ | ⟨a, _ | ⟨b, stack'⟩⟩
  · refine iff_of_false ?_ (by simp)
    rintro ⟨v, hv⟩
    cases hv
  · exact ⟨fun _ => rfl, fun _ => ⟨a, rfl⟩⟩
  · refine iff_of_false ?_ (by simp)
    rintro ⟨v, hv⟩
    cases hv

theorem exists_run_of_execute_unbalanced {ts : List (Token α)} {n : Nat}
    (hrun : FailsOnly Failure.isComputational (run table [] ts))
    (h : execute table ts = .error (.unbalanced n)) :
    ∃ stack, run table [] ts = .ok stack ∧ stack.length = n ∧ n ≠ 1 := by
  rcases bind_eq_error_iff.1 h with hfailed | ⟨stack, hstack, hlast⟩
  · cases hrun _ hfailed
  · refine ⟨stack, hstack, ?_⟩
    rcases stack with _ | ⟨a, _ | ⟨b, stack⟩⟩
    · cases hlast
      exact ⟨rfl, by simp⟩
    · cases hlast
    · cases hlast
      exact ⟨rfl, by simp⟩

end Runs

/-! ## Formulas -/

section Formulas

variable [Number α] {table : SymbolTable α} {formula : String} {ts p : List (Token α)}

theorem failsOnly_run_of_parse (h : parse table formula = .ok p) :
    FailsOnly Failure.isComputational (run table [] p) :=
  failsOnly_run (isComputed_of_parse h) (provides_of_parse h) []

/-- Reading and reordering know nothing of values that are left. -/
theorem parse_ne_error_unbalanced (n : Nat) : parse table formula ≠ .error (.unbalanced n) := by
  intro h
  rcases bind_eq_error_iff.1 h with htokens | ⟨ts, hts, hp⟩
  · obtain ⟨pre, rest, ts, -, -, hrefused⟩ := tokenize_eq_error_iff.1 htokens
    cases hrefused
  · rcases toPostfix_eq_error_cases hts hp with
      ⟨_, he⟩ | ⟨_, he⟩ | ⟨_, _, _, he⟩ | ⟨he, -⟩ | ⟨he, -⟩
    · cases he
    · cases he
    · cases he
    · cases he
    · cases he

theorem exists_run_of_evaluate_unbalanced {n : Nat}
    (h : evaluate table formula = .error (.unbalanced n)) :
    ∃ ts p stack, tokenize table formula = .ok ts ∧ toPostfix ts = .ok p ∧
      run table [] p = .ok stack ∧ stack.length = n ∧ n ≠ 1 := by
  rcases bind_eq_error_iff.1 h with hparse | ⟨p, hparse, hexecute⟩
  · exact absurd hparse (parse_ne_error_unbalanced n)
  · obtain ⟨ts, hts, hp⟩ := bind_eq_ok_iff.1 hparse
    obtain ⟨stack, hrun, hlength, hn⟩ :=
      exists_run_of_execute_unbalanced (failsOnly_run_of_parse hparse) hexecute
    exact ⟨ts, p, stack, hts, hp, hrun, hlength, hn⟩

theorem length_of_run_of_toPostfix {stack : List α} (hp : toPostfix ts = .ok p)
    (hrun : run table [] p = .ok stack) : (stack.length : Int) = arityBalance ts := by
  rw [length_of_run hrun, arityBalance_eq_of_toPostfix hp, List.length_nil, Int.natCast_zero,
    Int.zero_add]

/-- If the run of a formula in postfix order fails for no computational cause, it does not fail. -/
theorem exists_run_of_parse (h : parse table formula = .ok p)
    (hfails : ∀ e, execute table p = .error e → e.isComputational = false) :
    ∃ stack, run table [] p = .ok stack := by
  cases hrun : run table [] p with
  | ok stack => exact ⟨stack, rfl⟩
  | error e =>
    have hcause := failsOnly_run_of_parse h e hrun
    rw [hfails e (bind_eq_error_iff.2 (.inl hrun))] at hcause
    cases hcause

/-- If a formula leaves another number of values than one, that number is the arity balance of its
tokens as they are written; it is zero exactly if they are all parentheses and commas.  Where the
formula can be read and reordered, and no operator and no function fails or lacks operands, it has a
value exactly if the arity balance is one. -/
theorem arityBalance_of_evaluate (table : SymbolTable α) (formula : String) :
    (∀ n, evaluate table formula = .error (.unbalanced n) →
      ∃ ts, tokenize table formula = .ok ts ∧ (n : Int) = arityBalance ts ∧
        (n = 0 ↔ ∀ t ∈ ts, t.isComputed = false) ∧ n ≠ 1) ∧
    ∀ ts p, tokenize table formula = .ok ts → parse table formula = .ok p →
      (∀ e, execute table p = .error e → e.isComputational = false) →
        ((∃ v, evaluate table formula = .ok v) ↔ arityBalance ts = 1) := by
  refine ⟨fun n h => ?_, fun ts p hts hparse hfails => ?_⟩
  · obtain ⟨ts, p, stack, hts, hp, hrun, rfl, hn⟩ := exists_run_of_evaluate_unbalanced h
    refine ⟨ts, hts, length_of_run_of_toPostfix hp hrun, ?_, hn⟩
    rw [List.length_eq_zero_iff, eq_nil_iff_of_run hrun, toPostfix_eq_nil_iff hp]
  · obtain ⟨stack, hrun⟩ := exists_run_of_parse hparse hfails
    have hp : toPostfix ts = .ok p := by
      rw [parse, hts] at hparse
      exact hparse
    have hevaluate : evaluate table formula = execute table p := by
      rw [evaluate, hparse]
      rfl
    have hlength := length_of_run_of_toPostfix hp hrun
    rw [hevaluate, execute_eq_ok_iff_of_run hrun]
    omega

/-- `max(1, 2) (3)` leaves two values and `()` none; `max(1, 2) - 3` has a balance of one, and
nothing in it fails. -/
theorem arityBalance_of_maximum_beside_three :
    evaluate (Library.addBasic SymbolTable.empty : SymbolTable (BoundedInt .w64)) "max(1, 2) (3)" =
      .error (.unbalanced 2) ∧
    (∃ ts, tokenize (Library.addBasic SymbolTable.empty : SymbolTable (BoundedInt .w64))
      "max(1, 2) (3)" = .ok ts ∧ arityBalance ts = 2) ∧
    evaluate (Library.addBasic SymbolTable.empty : SymbolTable (BoundedInt .w64)) "()" =
      .error (.unbalanced 0) ∧
    (∃ ts, tokenize (Library.addBasic SymbolTable.empty : SymbolTable (BoundedInt .w64)) "()" =
      .ok ts ∧ ∀ t ∈ ts, t.isComputed = false) ∧
    ∃ ts, tokenize (Library.addBasic SymbolTable.empty : SymbolTable (BoundedInt .w64))
        "max(1, 2) - 3" = .ok ts ∧ arityBalance ts = 1 ∧
      ∃ v, evaluate (Library.addBasic SymbolTable.empty : SymbolTable (BoundedInt .w64))
        "max(1, 2) - 3" = .ok v := by
  have htwo : evaluate (Library.addBasic SymbolTable.empty : SymbolTable (BoundedInt .w64))
      "max(1, 2) (3)" = .error (.unbalanced 2) := by decide +kernel
  have hnone : evaluate (Library.addBasic SymbolTable.empty : SymbolTable (BoundedInt .w64)) "()" =
      .error (.unbalanced 0) := by decide +kernel
  obtain ⟨ts, hts, hbalance, -, -⟩ := (arityBalance_of_evaluate _ _).1 2 htwo
  obtain ⟨us, hus, -, hempty, -⟩ := (arityBalance_of_evaluate _ _).1 0 hnone
  refine ⟨htwo, ⟨ts, hts, hbalance.symm⟩, hnone, ⟨us, hus, hempty.1 rfl⟩, ?_⟩
  have htokens : tokenize (Library.addBasic SymbolTable.empty : SymbolTable (BoundedInt .w64))
      "max(1, 2) - 3" = .ok [.function "max" 2, .opening, .operand .one, .comma,
        .operand ⟨2, by decide, by decide⟩, .closing, .infixOp .subtract,
        .operand ⟨3, by decide, by decide⟩] := by decide +kernel
  have hparse : parse (Library.addBasic SymbolTable.empty : SymbolTable (BoundedInt .w64))
      "max(1, 2) - 3" = .ok [.operand .one, .operand ⟨2, by decide, by decide⟩, .function "max" 2,
        .operand ⟨3, by decide, by decide⟩, .infixOp .subtract] := by decide +kernel
  have hvalue : execute (Library.addBasic SymbolTable.empty : SymbolTable (BoundedInt .w64))
      [.operand .one, .operand ⟨2, by decide, by decide⟩, .function "max" 2,
        .operand ⟨3, by decide, by decide⟩, .infixOp .subtract] =
      .ok ⟨-1, by decide, by decide⟩ := by decide +kernel
  have hiff := (arityBalance_of_evaluate _ _).2 _ _ htokens hparse
    fun e he => by rw [hvalue] at he; cases he
  exact ⟨_, htokens, rfl, hiff.2 rfl⟩

end Formulas

end Formula
