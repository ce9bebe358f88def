import Mathlib.Data.Nat.PSub
import Formula.Library.Basic
import Formula.Number.BoundedInt
import Formula.Proofs.Postorder
import Formula.Proofs.RunFailures
import Formula.Proofs.Symbols

/-!
# What a run asks of host functions

`hostCalls table stack ts` lists the calls of host functions while tokens are run.  The list is
complete: two tables with the same arities whose functions agree on the calls of one run give the
same run (`run_eq_of_agreeOn`).  Every call takes as many values as its function has arguments off
the top of the stack and leaves the others (`mem_hostCalls_iff`, `Token.hostCall?_eq_some_iff`), so
a function is never asked for its value on a list of another length.  Hence what a failing function
has to say is its own message (`execute_eq_functionFailed_iff`).
-/

namespace Formula

variable {α : Type}

/-! ## Functions made from Lean functions -/

/-- Types of functions whose value is known exactly on the lists of their arity. -/
class LawfulHostBody (α φ : Type) [HostBody α φ] : Prop where
  isSome_call?_iff (f : φ) (args : List α) :
    (HostBody.call? f args).isSome = true ↔ args.length = HostBody.arity α φ

instance LawfulHostBody.value : LawfulHostBody α α where
  isSome_call?_iff a args := by cases args <;> simp [HostBody.call?, HostBody.arity]

instance LawfulHostBody.fallible : LawfulHostBody α (Except String α) where
  isSome_call?_iff r args := by cases args <;> simp [HostBody.call?, HostBody.arity]

instance LawfulHostBody.curried {φ : Type} [HostBody α φ] [LawfulHostBody α φ] :
    LawfulHostBody α (α → φ) where
  isSome_call?_iff f args := by
    cases args with
    | nil => simp [HostBody.call?, HostBody.arity]
    | cons a args =>
      have htail := LawfulHostBody.isSome_call?_iff (f a) args
      simpa [HostBody.call?, HostBody.arity] using htail

/-- On a list of its arity, a function made from a Lean function has the value of that one. -/
theorem HostFunction.call?_eq_body_of {φ : Type} [HostBody α φ] [LawfulHostBody α φ] (g : φ)
    {args : List α} (h : args.length = (HostFunction.of g : HostFunction α).arity) :
    HostBody.call? g args = some ((HostFunction.of g : HostFunction α).body args) := by
  obtain ⟨r, hr⟩ := Option.isSome_iff_exists.1 ((LawfulHostBody.isSome_call?_iff g args).2 h)
  have hbody : (HostFunction.of g : HostFunction α).body args = r := by
    simp only [HostFunction.of, hr, Option.getD_some]
  rw [hbody, hr]

/-! ## Calls -/

/-- A host function at work on the topmost values of a stack. -/
structure HostCall (α : Type) where
  name : String
  function : HostFunction α
  /-- The values it is given, in the order in which they are written. -/
  args : List α
  /-- The values that stay on the stack, the topmost first. -/
  below : List α

namespace HostCall

/-- The token that a call belongs to. -/
def token (c : HostCall α) : Token α :=
  .function c.name c.function.arity

/-- What the function makes of the stack, by its value on the arguments. -/
def result (c : HostCall α) : Except Failure (List α) :=
  match c.function.body c.args with
  | .ok a => .ok (a :: c.below)
  | .error message => .error (.functionFailed c.name message)

end HostCall

/-- The call that a token makes in a stack. -/
def Token.hostCall? (table : SymbolTable α) (stack : List α) : Token α → Option (HostCall α)
  | function name arity =>
    match callee table name arity with
    | .ok f =>
      if stack.length < arity then none
      else some ⟨name, f, (stack.take arity).reverse, stack.drop arity⟩
    | .error _ => none
  | _ => none

/-- The calls that are made when tokens are run, the first one first. -/
def hostCalls [Number α] (table : SymbolTable α) : List α → List (Token α) → List (HostCall α)
  | _, [] => []
  | stack, t :: ts =>
    (t.hostCall? table stack).toList ++
      match step table stack t with
      | .ok stack => hostCalls table stack ts
      | .error _ => []

/-- The call of a function on a stack that has its top at the end.  The arguments begin at the
difference of the height of the stack and their number; a lower stack has no such place
(`Nat.psub`). -/
def callFunctionAtEnd? (table : SymbolTable α) (name : String) (arity : Nat) (values : List α) :
    Option (Except Failure (List α)) :=
  match callee table name arity with
  | .error e => some (.error e)
  | .ok f =>
    if values.length < arity then some (.error (.missingOperand (.function name)))
    else (values.length.psub arity).map fun start => do
      return values.take start ++ [← f.call name (values.drop start)]

section Calls

variable {table : SymbolTable α} {stack : List α} {name : String} {arity : Nat} {c : HostCall α}

/-- A token calls a function of its arity with the topmost values. -/
theorem Token.hostCall?_eq_some_iff {t : Token α} :
    t.hostCall? table stack = some c ↔
      t = c.token ∧ table.function? c.name = some c.function ∧
        c.args.length = c.function.arity ∧ stack = c.args.reverse ++ c.below := by
  obtain ⟨name', f, args, below⟩ := c
  constructor
  · intro h
    cases t with
    | function name arity =>
      simp only [hostCall?] at h
      split at h
      · rename_i g hcallee
        obtain ⟨hfunction, rfl⟩ := callee_eq_ok_iff.1 hcallee
        split at h
        · cases h
        · rename_i hheight
          cases h
          refine ⟨rfl, hfunction, ?_, ?_⟩
          · rw [List.length_reverse, List.length_take, Nat.min_eq_left (Nat.not_lt.1 hheight)]
          · rw [List.reverse_reverse, List.take_append_drop]
      · cases h
    | operand _ | infixOp _ | prefixOp _ | postfixOp _ | opening | closing | comma => cases h
  · rintro ⟨rfl, hfunction, hlength, rfl⟩
    have hcallee := callee_eq_ok_iff.2 ⟨hfunction, rfl⟩
    have harity : args.reverse.length = f.arity := by rw [List.length_reverse, hlength]
    have hheight : ¬ (args.reverse ++ below).length < f.arity := by
      rw [List.length_append, harity]
      omega
    simp only [HostCall.token, hostCall?, hcallee, if_neg hheight]
    rw [← harity, List.take_left, List.drop_left, List.reverse_reverse]

/-- Why a function is not called: there is none, it has another arity, or the stack is too low. -/
def refusal (name : String) (arity : Nat) : Option Nat → Failure
  | none => .unexpectedName name
  | some n => if n = arity then .missingOperand (.function name) else .wrongArity name n arity

theorem refusal_ne_functionFailed {name name' message : String} {arity : Nat} {found : Option Nat} :
    refusal name arity found ≠ .functionFailed name' message := by
  unfold refusal
  split
  · nofun
  · split <;> nofun

/-- A call depends on the function alone, which is given a list of its arity.  Where there is no
call, the arities and the height of the stack decide. -/
theorem callFunction_eq (table : SymbolTable α) (name : String) (arity : Nat) (stack : List α) :
    callFunction table name arity stack =
      match (Token.function name arity).hostCall? table stack with
      | some c => c.result
      | none => .error (refusal name arity ((table.function? name).map HostFunction.arity)) := by
  cases hfunction : table.function? name with
  | none =>
    simp only [callFunction, Token.hostCall?, callee, hfunction]
    rfl
  | some f =>
    by_cases harity : f.arity = arity
    · have hcallee := callee_eq_ok_iff.2 ⟨hfunction, harity⟩
      rw [callFunction_of_callee hcallee]
      simp only [Token.hostCall?, hcallee, Option.map_some, refusal, if_pos harity]
      by_cases hheight : stack.length < arity
      · rw [if_pos hheight, if_pos hheight]
      · have hlength : (stack.take arity).reverse.length = f.arity := by
          rw [List.length_reverse, List.length_take, Nat.min_eq_left (Nat.not_lt.1 hheight), harity]
        rw [if_neg hheight, if_neg hheight, HostFunction.call_of_length_eq hlength]
        simp only [HostCall.result]
        cases f.body (stack.take arity).reverse <;> rfl
    · simp only [callFunction, Token.hostCall?, callee, hfunction, if_neg harity, Option.map_some,
        refusal]
      rfl

/-- The arguments of a call never begin below the bottom of the stack. -/
theorem callFunctionAtEnd?_reverse (table : SymbolTable α) (name : String) (arity : Nat)
    (stack : List α) :
    callFunctionAtEnd? table name arity stack.reverse =
      some (List.reverse <$> callFunction table name arity stack) := by
  unfold callFunctionAtEnd?
  cases hcallee : callee table name arity with
  | error e =>
    rw [callFunction, hcallee]
    rfl
  | ok f =>
    rw [callFunction_of_callee hcallee, List.length_reverse]
    dsimp only
    by_cases hheight : stack.length < arity
    · rw [if_pos hheight, if_pos hheight]
      rfl
    · have htake : stack.reverse.take (stack.length - arity) = (stack.drop arity).reverse := by
        rw [List.take_reverse, Nat.sub_sub_self (by omega)]
      have hdrop : stack.reverse.drop (stack.length - arity) = (stack.take arity).reverse := by
        rw [List.drop_reverse, Nat.sub_sub_self (by omega)]
      rw [if_neg hheight, if_neg hheight, Nat.psub_eq_sub (by omega), Option.map_some, htake, hdrop]
      cases f.call name (stack.take arity).reverse with
      | error e => rfl
      | ok a =>
        change some (Except.ok _) = some (Except.ok _)
        rw [List.reverse_cons]

/-- Tables with the same arities make the same calls, each with its own function. -/
theorem Token.hostCall?_of_arity_eq {table' : SymbolTable α} {t : Token α}
    (h : t.hostCall? table stack = some c)
    (harity : (table'.function? c.name).map HostFunction.arity =
      (table.function? c.name).map HostFunction.arity) :
    ∃ f, table'.function? c.name = some f ∧
      t.hostCall? table' stack = some { c with function := f } := by
  obtain ⟨rfl, hfunction, hlength, hstack⟩ := hostCall?_eq_some_iff.1 h
  rw [hfunction] at harity
  obtain ⟨f, hf, hsame⟩ := Option.map_eq_some_iff.1 harity
  refine ⟨f, hf, hostCall?_eq_some_iff.2 ⟨?_, hf, hlength.trans hsame.symm, hstack⟩⟩
  rw [HostCall.token, HostCall.token, hsame]

theorem HostCall.result_eq_functionFailed_iff {message : String} :
    c.result = .error (.functionFailed name message) ↔
      c.name = name ∧ c.function.body c.args = .error message := by
  unfold result
  cases c.function.body c.args with
  | ok a => exact ⟨nofun, fun h => nomatch h.2⟩
  | error m => rw [Except.error.injEq, Except.error.injEq, Failure.functionFailed.injEq]

end Calls

/-! ## Runs -/

section Runs

variable [Number α] {table table' : SymbolTable α} {stack : List α} {t : Token α}
  {ts : List (Token α)} {c : HostCall α} {name message : String}

theorem step_of_hostCall? (h : t.hostCall? table stack = some c) :
    step table stack t = c.result := by
  obtain ⟨rfl, -⟩ := Token.hostCall?_eq_some_iff.1 h
  rw [HostCall.token] at h ⊢
  rw [step, callFunction_eq, h]

/-- Only a call fails as functions do. -/
theorem exists_hostCall?_of_step_functionFailed
    (h : step table stack t = .error (.functionFailed name message)) :
    ∃ c, t.hostCall? table stack = some c := by
  have harithmetic : ∀ {x : Except Failure α} {rest : List α},
      FailsOnly Failure.isArithmetic x →
      (do return (← x) :: rest) ≠ (.error (.functionFailed name message) : Except _ (List α)) := by
    intro x rest hx hfailed
    rcases bind_eq_error_iff.1 hfailed with herror | ⟨a, -, hlast⟩
    · cases hx _ herror
    · cases hlast
  cases t with
  | function callee arity =>
    rw [step, callFunction_eq] at h
    cases hcall : (Token.function callee arity).hostCall? table stack with
    | some c => exact ⟨c, rfl⟩
    | none =>
      rw [hcall] at h
      exact absurd (Except.error.inj h) refusal_ne_functionFailed
  | infixOp op =>
    rcases stack with _ | ⟨rhs, _ | ⟨lhs, stack⟩⟩
    · cases h
    · cases h
    · exact absurd h (harithmetic (op.failsOnly_apply lhs rhs))
  | prefixOp op =>
    rcases stack with _ | ⟨a, stack⟩
    · cases h
    · exact absurd h (harithmetic (op.failsOnly_apply a))
  | postfixOp op =>
    rcases stack with _ | ⟨a, stack⟩
    · cases h
    · exact absurd h (harithmetic (op.failsOnly_apply a))
  | operand _ | opening | closing | comma => cases h

/-- The calls of a run are those of its tokens, each in the stack that the tokens before it
leave. -/
theorem mem_hostCalls_iff :
    c ∈ hostCalls table stack ts ↔
      ∃ before t after s, ts = before ++ t :: after ∧ run table stack before = .ok s ∧
        t.hostCall? table s = some c := by
  induction ts generalizing stack with
  | nil => simp [hostCalls]
  | cons t ts ih =>
    rw [hostCalls, List.mem_append, Option.mem_toList]
    constructor
    · rintro (hcall | hlater)
      · exact ⟨[], t, ts, stack, rfl, rfl, hcall⟩
      · cases hstep : step table stack t with
        | error e =>
          rw [hstep] at hlater
          cases hlater
        | ok next =>
          rw [hstep] at hlater
          obtain ⟨before, u, after, s, rfl, hrun, hcall⟩ := ih.1 hlater
          refine ⟨t :: before, u, after, s, rfl, ?_, hcall⟩
          rw [Expr.run_cons, hstep]
          exact hrun
    · rintro ⟨before, u, after, s, hts, hrun, hcall⟩
      cases before with
      | nil =>
        cases hts
        cases hrun
        exact .inl hcall
      | cons t' before =>
        cases hts
        obtain ⟨next, hstep, hrest⟩ := bind_eq_ok_iff.1 hrun
        right
        rw [hstep]
        exact ih.2 ⟨before, u, after, s, rfl, hrest, hcall⟩

theorem exists_hostCall_of_run_functionFailed
    (h : run table stack ts = .error (.functionFailed name message)) :
    ∃ c ∈ hostCalls table stack ts, c.name = name ∧ c.function.body c.args = .error message := by
  induction ts generalizing stack with
  | nil => cases h
  | cons t ts ih =>
    rw [hostCalls]
    rcases bind_eq_error_iff.1 h with hstep | ⟨next, hstep, hrest⟩
    · obtain ⟨c, hcall⟩ := exists_hostCall?_of_step_functionFailed hstep
      refine ⟨c, List.mem_append_left _ (Option.mem_toList.2 hcall), ?_⟩
      rw [← HostCall.result_eq_functionFailed_iff, ← step_of_hostCall? hcall, hstep]
    · obtain ⟨c, hmem, hfailed⟩ := ih hrest
      refine ⟨c, List.mem_append_right _ ?_, hfailed⟩
      rwa [hstep]

/-- A run fails as functions do exactly if one of its calls fails with this message. -/
theorem run_eq_functionFailed_iff :
    run table stack ts = .error (.functionFailed name message) ↔
      ∃ c ∈ hostCalls table stack ts, c.name = name ∧ c.function.body c.args = .error message := by
  refine ⟨exists_hostCall_of_run_functionFailed, ?_⟩
  rintro ⟨c, hmem, hfailed⟩
  obtain ⟨before, t, after, s, rfl, hrun, hcall⟩ := mem_hostCalls_iff.1 hmem
  have hstep := (step_of_hostCall? hcall).trans (HostCall.result_eq_functionFailed_iff.2 hfailed)
  rw [Expr.run_append, hrun, Except.bind, Expr.run_cons, hstep]
  rfl

theorem execute_eq_functionFailed_iff :
    execute table ts = .error (.functionFailed name message) ↔
      ∃ c ∈ hostCalls table [] ts, c.name = name ∧ c.function.body c.args = .error message := by
  rw [← run_eq_functionFailed_iff, execute, bind_eq_error_iff]
  refine ⟨fun h => h.resolve_right ?_, .inl⟩
  rintro ⟨stack, -, hlast⟩
  split at hlast <;> cases hlast

/-! ## Functions that agree on the calls of a run -/

/-- Whether two tables have functions of the same arities for all calls among the tokens, and
functions that agree on the calls of a run. -/
structure AgreeOn (table table' : SymbolTable α) (stack : List α) (ts : List (Token α)) : Prop where
  arity_eq : ∀ name arity, .function name arity ∈ ts →
    (table'.function? name).map HostFunction.arity = (table.function? name).map HostFunction.arity
  body_eq : ∀ c ∈ hostCalls table stack ts, ∀ f, table'.function? c.name = some f →
    f.body c.args = c.function.body c.args

theorem AgreeOn.step_eq (h : AgreeOn table table' stack (t :: ts)) :
    step table' stack t = step table stack t := by
  cases t with
  | function name arity =>
    have harity := h.arity_eq name arity List.mem_cons_self
    cases hcall : (Token.function name arity).hostCall? table stack with
    | some c =>
      obtain ⟨hname, -⟩ := Token.hostCall?_eq_some_iff.1 hcall
      cases hname
      obtain ⟨f, hf, hcall'⟩ := Token.hostCall?_of_arity_eq hcall harity
      have hmem : c ∈ hostCalls table stack (.function c.name c.function.arity :: ts) :=
        List.mem_append_left _ (Option.mem_toList.2 hcall)
      rw [step_of_hostCall? hcall, step_of_hostCall? hcall', HostCall.result, HostCall.result]
      simp only [h.body_eq c hmem f hf]
    | none =>
      have hcall' : (Token.function name arity).hostCall? table' stack = none := by
        rw [Option.eq_none_iff_forall_ne_some]
        intro c hc
        obtain ⟨hname, -⟩ := Token.hostCall?_eq_some_iff.1 hc
        cases hname
        obtain ⟨f, -, hf⟩ := Token.hostCall?_of_arity_eq hc harity.symm
        rw [hcall] at hf
        cases hf
      rw [step, step, callFunction_eq, callFunction_eq, hcall, hcall', harity]
  | operand _ | infixOp _ | prefixOp _ | postfixOp _ | opening | closing | comma => rfl

/-- Functions are asked for nothing but the values of the calls. -/
theorem run_eq_of_agreeOn (h : AgreeOn table table' stack ts) :
    run table' stack ts = run table stack ts := by
  induction ts generalizing stack with
  | nil => rfl
  | cons t ts ih =>
    rw [Expr.run_cons, Expr.run_cons, h.step_eq]
    cases hstep : step table stack t with
    | error e => rfl
    | ok next =>
      refine ih ⟨fun name arity hmem => h.arity_eq name arity (List.mem_cons_of_mem _ hmem),
        fun c hmem => h.body_eq c ?_⟩
      rw [hostCalls, hstep]
      exact List.mem_append_right _ hmem

theorem execute_eq_of_agreeOn (h : AgreeOn table table' [] ts) :
    execute table' ts = execute table ts := by
  rw [execute, execute, run_eq_of_agreeOn h]

/-- What a function does with a list of another length than its arity is of no account. -/
theorem agreeOn_insertFunction {f g : HostFunction α} (hname : isIdentifier name = true)
    (hf : table.function? name = some f) (harity : g.arity = f.arity)
    (hbody : ∀ args, args.length = f.arity → g.body args = f.body args) :
    AgreeOn table (table.insertFunction name g).1 stack ts where
  arity_eq name' _ _ := by
    rw [SymbolTable.function?_insertFunction hname]
    by_cases hsame : name = name'
    · rw [if_pos hsame, ← hsame, hf, Option.map_some, Option.map_some, harity]
    · rw [if_neg hsame]
  body_eq c hmem g' hg' := by
    obtain ⟨_, _, _, _, -, -, hcall⟩ := mem_hostCalls_iff.1 hmem
    obtain ⟨-, hfunction, hlength, -⟩ := Token.hostCall?_eq_some_iff.1 hcall
    rw [SymbolTable.function?_insertFunction hname] at hg'
    by_cases hsame : name = c.name
    · rw [← hsame, hf] at hfunction
      rw [if_pos hsame] at hg'
      cases hg'
      cases hfunction
      exact hbody c.args hlength
    · rw [if_neg hsame, hfunction] at hg'
      cases hg'
      rfl

variable (table ts)

/-- Every call of a run takes as many values as its function has arguments off the top of the
stack, in written order, and puts the value of the function in their place; a function made from a
Lean function finds the list that it is made for.  The place of the arguments is never below the
bottom of the stack.  No other value of any function matters to the run, and it fails as functions
do exactly if the function of a call fails, with the message of that function. -/
theorem hostCalls_have_their_arity :
    (∀ c ∈ hostCalls table [] ts,
      table.function? c.name = some c.function ∧ c.args.length = c.function.arity ∧
        (∃ before after, ts = before ++ c.token :: after ∧
          run table [] before = .ok (c.args.reverse ++ c.below) ∧
          run table [] (before ++ [c.token]) = c.result) ∧
        ∀ (φ : Type) [HostBody α φ] [LawfulHostBody α φ] (g : φ), c.function = .of g →
          HostBody.call? g c.args = some (c.function.body c.args)) ∧
    (∀ name arity stack, callFunctionAtEnd? table name arity stack.reverse =
      some (List.reverse <$> callFunction table name arity stack)) ∧
    (∀ table', AgreeOn table table' [] ts → execute table' ts = execute table ts) ∧
    ∀ name message, execute table ts = .error (.functionFailed name message) ↔
      ∃ c ∈ hostCalls table [] ts, c.name = name ∧ c.function.body c.args = .error message := by
  refine ⟨fun c hmem => ?_, callFunctionAtEnd?_reverse table,
    fun table' => execute_eq_of_agreeOn, fun name message => execute_eq_functionFailed_iff⟩
  obtain ⟨before, t, after, s, rfl, hrun, hcall⟩ := mem_hostCalls_iff.1 hmem
  obtain ⟨rfl, hfunction, hlength, rfl⟩ := Token.hostCall?_eq_some_iff.1 hcall
  refine ⟨hfunction, hlength, ⟨before, after, rfl, hrun, ?_⟩, ?_⟩
  · rw [Expr.run_append, hrun, Except.bind, Expr.run_cons, step_of_hostCall? hcall]
    cases c.result <;> rfl
  · intro φ _ _ g hg
    rw [hg] at hlength ⊢
    exact HostFunction.call?_eq_body_of g hlength

/-- `abs(min(5, -2147483648))` fails in `abs`, above a value that is not touched, also if `abs`
gives values to lists of other lengths. -/
theorem hostCalls_have_their_arity_of_least_integer :
    ∃ ts : List (Token (BoundedInt .w32)),
      execute (Library.addBasic SymbolTable.empty) ts =
        .error (.functionFailed "abs" "Magnitude of -2147483648 overflows") ∧
      (∃ c ∈ hostCalls (Library.addBasic SymbolTable.empty) [] ts, c.name = "abs" ∧
        c.args.length = 1 ∧
        HostBody.call? (fun x : BoundedInt .w32 => Library.magnitude x) c.args =
          some (.error "Magnitude of -2147483648 overflows")) ∧
      execute ((Library.addBasic SymbolTable.empty).insertFunction "abs"
        ⟨1, fun args => if args.length = 1 then
          (HostFunction.of fun x : BoundedInt .w32 => Library.magnitude x).body args
          else .ok .one⟩).1 ts =
        .error (.functionFailed "abs" "Magnitude of -2147483648 overflows") := by
  have hfailed : execute (Library.addBasic SymbolTable.empty : SymbolTable (BoundedInt .w32))
      [.operand ⟨7, by decide, by decide⟩, .operand ⟨5, by decide, by decide⟩,
        .operand ⟨-0x80000000, by decide, by decide⟩, .function "min" 2, .function "abs" 1] =
      .error (.functionFailed "abs" "Magnitude of -2147483648 overflows") := by decide +kernel
  have habs : (Library.addBasic SymbolTable.empty : SymbolTable (BoundedInt .w32)).function? "abs" =
      some (.of fun x : BoundedInt .w32 => Library.magnitude x) := rfl
  obtain ⟨hcalls, -, hagree, hiff⟩ := hostCalls_have_their_arity
    (Library.addBasic SymbolTable.empty : SymbolTable (BoundedInt .w32)) _
  obtain ⟨c, hmem, hname, hbody⟩ := (hiff _ _).1 hfailed
  obtain ⟨hfunction, hlength, -, hlawful⟩ := hcalls c hmem
  rw [hname, habs] at hfunction
  have hof := (Option.some.inj hfunction).symm
  refine ⟨_, hfailed, ⟨c, hmem, hname, ?_, ?_⟩, ?_⟩
  · rw [hlength, hof]
    rfl
  · rw [hlawful _ _ hof, hbody]
  · rw [← hfailed]
    refine hagree _ (agreeOn_insertFunction (by decide +kernel) habs rfl fun args hargs => ?_)
    exact if_pos hargs

end Runs

end Formula
