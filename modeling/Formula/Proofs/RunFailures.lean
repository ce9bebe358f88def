import Formula.Number.BoundedInt
import Formula.Library.Basic
import Formula.Proofs.Locality
import Formula.Proofs.Reordering.Contents

/-!
# What the run of a formula can fail for

Operators fail for arithmetic causes, and a token of a formula in postfix order fails for these, for
missing operands or in a host function (`failsOnly_step`).  The run of such tokens adds one cause of
its own, a number of values other than one (`failsOnly_execute`).  A formula that could be read and
reordered names only functions that the table has and leaves no parenthesis and no comma in its
postfix order, so that nothing else can happen when it is run (`execute_of_parse`).
-/

namespace Formula

variable {α β : Type}

namespace Failure

/-- The causes for which operators fail. -/
def isArithmetic : Failure → Bool
  | divisionByZero | outsideDomain _ | overflow _ => true
  | _ => false

/-- The causes for which a token fails that is no parenthesis or comma and no call out of date. -/
def isComputational : Failure → Bool
  | missingOperand _ | divisionByZero | outsideDomain _ | overflow _ | functionFailed _ _ => true
  | _ => false

/-- The causes for which the run of such tokens fails. -/
def endsRun : Failure → Bool
  | missingOperand _ | unbalanced _ | divisionByZero | outsideDomain _ | overflow _
  | functionFailed _ _ => true
  | _ => false

theorem isComputational_of_isArithmetic {e : Failure} (h : e.isArithmetic = true) :
    e.isComputational = true := by
  cases e <;> trivial

theorem endsRun_of_isComputational {e : Failure} (h : e.isComputational = true) :
    e.endsRun = true := by
  cases e <;> trivial

end Failure

/-! ## Rules for failures -/

/-- Whether a computation fails for no cause outside `P`. -/
def FailsOnly (P : Failure → Bool) (x : Except Failure α) : Prop :=
  ∀ e, x = .error e → P e = true

section Rules

variable {P Q : Failure → Bool}

theorem failsOnly_ok (a : α) : FailsOnly P (.ok a) :=
  nofun

theorem failsOnly_error {e : Failure} (h : P e = true) :
    FailsOnly P (.error e : Except Failure α) := by
  intro e' he
  cases he
  exact h

theorem FailsOnly.mono {x : Except Failure α} (h : FailsOnly P x)
    (hPQ : ∀ e, P e = true → Q e = true) : FailsOnly Q x :=
  fun e he => hPQ e (h e he)

theorem FailsOnly.bind {x : Except Failure α} {f : α → Except Failure β} (hx : FailsOnly P x)
    (hf : ∀ a, FailsOnly P (f a)) : FailsOnly P (x >>= f) := by
  intro e he
  cases x with
  | error e' =>
    cases he
    exact hx _ rfl
  | ok a => exact hf a e he

theorem FailsOnly.ok_or_error {x : Except Failure α} (h : FailsOnly P x) :
    (∃ a, x = .ok a) ∨ ∃ e, x = .error e ∧ P e = true := by
  cases x with
  | ok a => exact .inl ⟨a, rfl⟩
  | error e => exact .inr ⟨e, rfl, h e rfl⟩

end Rules

variable [Number α]

/-! ## Operators -/

section Operators

open Failure (isArithmetic)

theorem failsOnly_toWord (spelling : String) (a : α) :
    FailsOnly isArithmetic (toWord spelling a) := by
  unfold toWord
  split
  · split
    · exact failsOnly_ok _
    · exact failsOnly_error rfl
  · exact failsOnly_error rfl

theorem failsOnly_ofWord (spelling : String) (word : BitVec 64) :
    FailsOnly isArithmetic (ofWord spelling word : Except Failure α) := by
  unfold ofWord
  split
  · exact failsOnly_ok _
  · exact failsOnly_error rfl

theorem failsOnly_shiftAmount (word : BitVec 64) : FailsOnly isArithmetic (shiftAmount word) := by
  unfold shiftAmount
  split
  · exact failsOnly_ok _
  · exact failsOnly_error rfl

theorem failsOnly_onWords (spelling : String)
    {f : BitVec 64 → BitVec 64 → Except Failure (BitVec 64)}
    (hf : ∀ v w, FailsOnly isArithmetic (f v w)) (a b : α) :
    FailsOnly isArithmetic (onWords spelling f a b) := by
  unfold onWords
  apply (failsOnly_toWord spelling a).bind
  intro v
  apply (failsOnly_toWord spelling b).bind
  intro w
  exact (hf v w).bind (failsOnly_ofWord spelling)

theorem failsOnly_reciprocalPower (base : α) (exponent : Nat) :
    FailsOnly isArithmetic (reciprocalPower base exponent) := by
  unfold reciprocalPower
  split
  · exact failsOnly_error rfl
  · split <;> exact failsOnly_ok _

theorem failsOnly_reciprocal (power : α) : FailsOnly isArithmetic (reciprocal power) := by
  unfold reciprocal
  split
  · exact failsOnly_error rfl
  · split
    · exact failsOnly_ok _
    · exact failsOnly_error rfl

theorem failsOnly_integralPower (base : α) (exponent : Int) :
    FailsOnly isArithmetic (integralPower base exponent) := by
  unfold integralPower
  split
  · exact failsOnly_reciprocalPower base _
  · split
    · exact failsOnly_error rfl
    · rename_i magnitude _
      by_cases hneg : exponent < 0
      · rw [if_pos hneg]
        exact failsOnly_reciprocal magnitude
      · rw [if_neg hneg]
        exact failsOnly_ok magnitude

theorem failsOnly_power (base exponent : α) : FailsOnly isArithmetic (power base exponent) := by
  unfold power
  split
  · split
    · exact failsOnly_integralPower base _
    · split
      · exact failsOnly_ok _
      · exact failsOnly_error rfl
  · split
    · exact failsOnly_ok _
    · exact failsOnly_error rfl

theorem failsOnly_factorial (value : α) : FailsOnly isArithmetic (factorial value) := by
  unfold factorial
  split
  · split
    · exact failsOnly_ok _
    · exact failsOnly_error rfl
  · exact failsOnly_error rfl

namespace InfixOp

omit [Number α] in
theorem failsOnly_checked (op : InfixOp) (a? : Option α) :
    FailsOnly isArithmetic (op.checked a?) := by
  cases a? with
  | none => exact failsOnly_error rfl
  | some a => exact failsOnly_ok a

theorem failsOnly_divided (op : InfixOp) (f : α → α → Option α) (lhs rhs : α) :
    FailsOnly isArithmetic (op.divided f lhs rhs) := by
  unfold divided
  split
  · exact failsOnly_error rfl
  · exact failsOnly_checked op _

theorem failsOnly_apply (op : InfixOp) (lhs rhs : α) :
    FailsOnly isArithmetic (op.apply lhs rhs) := by
  cases op with
  | add | subtract | multiply => exact failsOnly_checked _ _
  | divide | remainder | truncatedDivide => exact failsOnly_divided _ _ lhs rhs
  | power => exact failsOnly_power lhs rhs
  | equal | notEqual | less | lessEqual | greater | greaterEqual | and | or | xor =>
    exact failsOnly_ok _
  | threeWay =>
    rw [apply]
    split
    · exact failsOnly_checked _ _
    · exact failsOnly_ok _
    · exact failsOnly_ok _
    · exact failsOnly_error rfl
  | bitAnd | bitOr | bitXor => exact failsOnly_onWords _ (fun _ _ => failsOnly_ok _) lhs rhs
  | shiftLeft | shiftRight =>
    apply failsOnly_onWords
    intro _ amount
    exact (failsOnly_shiftAmount amount).bind fun _ => failsOnly_ok _

end InfixOp

theorem PrefixOp.failsOnly_apply (op : PrefixOp) (a : α) :
    FailsOnly isArithmetic (op.apply a) := by
  cases op with
  | negate =>
    rw [apply]
    split
    · exact failsOnly_ok _
    · exact failsOnly_error rfl
  | not => exact failsOnly_ok _
  | bitNot => exact (failsOnly_toWord _ a).bind fun _ => failsOnly_ofWord _ _

theorem PostfixOp.failsOnly_apply (op : PostfixOp) (a : α) :
    FailsOnly isArithmetic (op.apply a) := by
  cases op with
  | factorial => exact failsOnly_factorial a

end Operators

/-! ## Runs -/

section Runs

open Failure (isComputational endsRun isComputational_of_isArithmetic endsRun_of_isComputational)

variable {table : SymbolTable α}

omit [Number α] in
theorem HostFunction.failsOnly_call (f : HostFunction α) (name : String) (args : List α) :
    FailsOnly isComputational (f.call name args) := by
  unfold call
  split
  · exact failsOnly_ok _
  · exact failsOnly_error rfl

omit [Number α] in
theorem failsOnly_callFunction {name : String} {arity : Nat} (h : table.HasFunction name arity)
    (stack : List α) : FailsOnly isComputational (callFunction table name arity stack) := by
  obtain ⟨f, hf, harity⟩ := h
  rw [callFunction_of_callee (callee_eq_ok_iff.2 ⟨hf, harity⟩)]
  by_cases hlength : stack.length < arity
  · rw [if_pos hlength]
    exact failsOnly_error rfl
  · rw [if_neg hlength]
    exact (f.failsOnly_call name _).bind fun _ => failsOnly_ok _

/-- A token fails for a computational cause, unless it is a parenthesis or a comma or its function
is not in the table. -/
theorem failsOnly_step {t : Token α} (hcomputed : t.isComputed = true)
    (ht : table.Provides [t]) (stack : List α) :
    FailsOnly isComputational (step table stack t) := by
  have hresult : ∀ {x : Except Failure α} (rest : List α), FailsOnly Failure.isArithmetic x →
      FailsOnly isComputational (do return (← x) :: rest) :=
    fun rest hx => (hx.mono fun _ => isComputational_of_isArithmetic).bind fun _ => failsOnly_ok _
  cases t with
  | operand a => exact failsOnly_ok _
  | infixOp op =>
    rcases stack with _ | ⟨rhs, _ | ⟨lhs, stack⟩⟩
    · exact failsOnly_error rfl
    · exact failsOnly_error rfl
    · exact hresult stack (op.failsOnly_apply lhs rhs)
  | prefixOp op =>
    rcases stack with _ | ⟨a, stack⟩
    · exact failsOnly_error rfl
    · exact hresult stack (op.failsOnly_apply a)
  | postfixOp op =>
    rcases stack with _ | ⟨a, stack⟩
    · exact failsOnly_error rfl
    · exact hresult stack (op.failsOnly_apply a)
  | function name arity => exact failsOnly_callFunction (ht name arity List.mem_cons_self) stack
  | opening | closing | comma => cases hcomputed

theorem failsOnly_run {ts : List (Token α)} (hcomputed : ∀ t ∈ ts, t.isComputed = true)
    (hts : table.Provides ts) (stack : List α) :
    FailsOnly isComputational (run table stack ts) := by
  induction ts generalizing stack with
  | nil => exact failsOnly_ok stack
  | cons t ts ih =>
    obtain ⟨ht, hrest⟩ := SymbolTable.provides_cons_iff.1 hts
    rw [Expr.run_cons]
    apply (failsOnly_step (hcomputed t List.mem_cons_self) ht stack).bind
    exact ih (fun u hu => hcomputed u (List.mem_cons_of_mem _ hu)) hrest

theorem failsOnly_execute {ts : List (Token α)} (hcomputed : ∀ t ∈ ts, t.isComputed = true)
    (hts : table.Provides ts) : FailsOnly endsRun (execute table ts) := by
  unfold execute
  apply ((failsOnly_run hcomputed hts []).mono fun _ => endsRun_of_isComputational).bind
  intro values
  split
  · exact failsOnly_ok _
  · exact failsOnly_error rfl

end Runs

/-! ## Formulas -/

theorem provides_of_parse {table : SymbolTable α} {formula : String} {p : List (Token α)}
    (h : parse table formula = .ok p) : table.Provides p := by
  obtain ⟨ts, hts, hp⟩ := bind_eq_ok_iff.1 h
  intro name arity hmem
  have hread := readName_of_mem_readTokens hts ((mem_toPostfix_iff hp).1 hmem).1
  exact (readName_eq_ok_function_iff.1 hread.2).2

theorem isComputed_of_parse {table : SymbolTable α} {formula : String} {p : List (Token α)}
    (h : parse table formula = .ok p) : ∀ t ∈ p, t.isComputed = true := by
  obtain ⟨ts, -, hp⟩ := bind_eq_ok_iff.1 h
  exact fun t hmem => ((mem_toPostfix_iff hp).1 hmem).2

/-- A formula in postfix order has no parentheses and no commas and names functions of the table.
When it is run with this table, it has a value or fails for a cause that ends a run. -/
theorem execute_of_parse {table : SymbolTable α} {formula : String} {p : List (Token α)}
    (h : parse table formula = .ok p) :
    (∀ t ∈ p, t ≠ .opening ∧ t ≠ .closing ∧ t ≠ .comma) ∧
    (∀ name arity, .function name arity ∈ p → table.HasFunction name arity) ∧
    ((∃ v, execute table p = .ok v) ∨ ∃ e, execute table p = .error e ∧ e.endsRun = true) := by
  have hcomputed := isComputed_of_parse h
  refine ⟨fun t hmem => ?_, provides_of_parse h, ?_⟩
  · have ht : t.isComputed = true := hcomputed t hmem
    refine ⟨?_, ?_, ?_⟩ <;> rintro rfl <;> cases ht
  · exact (failsOnly_execute hcomputed (provides_of_parse h)).ok_or_error

/-- Once `max(6, 2) / (1 - 1)` is read, what it names is there, and the division is all that can go
wrong. -/
theorem execute_quotient_of_maximum_of_parse :
    ∃ p, parse (Library.addBasic SymbolTable.empty : SymbolTable (BoundedInt .w64))
        "max(6, 2) / (1 - 1)" = .ok p ∧
      (∀ t ∈ p, t ≠ .opening ∧ t ≠ .closing ∧ t ≠ .comma) ∧
      (Library.addBasic SymbolTable.empty : SymbolTable (BoundedInt .w64)).HasFunction "max" 2 ∧
      execute (Library.addBasic SymbolTable.empty) p = .error .divisionByZero ∧
      Failure.divisionByZero.endsRun = true := by
  have hparse : parse (Library.addBasic SymbolTable.empty : SymbolTable (BoundedInt .w64))
      "max(6, 2) / (1 - 1)" = .ok [.operand ⟨6, by decide, by decide⟩,
        .operand ⟨2, by decide, by decide⟩, .function "max" 2, .operand .one, .operand .one,
        .infixOp .subtract, .infixOp .divide] := by decide +kernel
  have herror : execute (Library.addBasic SymbolTable.empty : SymbolTable (BoundedInt .w64))
      [.operand ⟨6, by decide, by decide⟩, .operand ⟨2, by decide, by decide⟩,
        .function "max" 2, .operand .one, .operand .one, .infixOp .subtract,
        .infixOp .divide] = .error .divisionByZero := by decide +kernel
  obtain ⟨htokens, hfunctions, hresult⟩ := execute_of_parse hparse
  refine ⟨_, hparse, htokens, hfunctions "max" 2 (by simp), herror, ?_⟩
  rw [herror] at hresult
  obtain ⟨v, hv⟩ | ⟨e, he, hcause⟩ := hresult
  · cases hv
  · cases he
    exact hcause

end Formula
