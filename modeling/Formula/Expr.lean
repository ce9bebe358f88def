import Formula.Machine

/-!
# Expression trees

The tree of a formula, its value by recursion, and its tokens in postfix order.  The recursion knows
nothing of the stack machine; `eval_call` says that the machine calls functions the same way.
Running the tokens pushes the value of the tree onto any stack, or fails as the recursion does
(`run_postorder_append`).
-/

namespace Formula

/-- The tree of a formula. -/
inductive Expr (α : Type) where
  | operand (a : α)
  | call (name : String) (args : List (Expr α))
  | prefixOp (op : PrefixOp) (e : Expr α)
  | postfixOp (op : PostfixOp) (e : Expr α)
  | infixOp (op : InfixOp) (lhs rhs : Expr α)

namespace Expr

variable {α : Type}

mutual

/-- The tokens of a tree, every operator and function after what it is applied to. -/
def postorder : Expr α → List (Token α)
  | operand a => [.operand a]
  | call name args => postorderAll args ++ [.function name args.length]
  | prefixOp op e => postorder e ++ [.prefixOp op]
  | postfixOp op e => postorder e ++ [.postfixOp op]
  | infixOp op lhs rhs => postorder lhs ++ postorder rhs ++ [.infixOp op]

/-- The tokens of a list of trees, one after the other. -/
def postorderAll : List (Expr α) → List (Token α)
  | [] => []
  | e :: es => postorder e ++ postorderAll es

end

variable [Number α] (table : SymbolTable α)

mutual

/-- The value of a tree.  Operands are computed from left to right, all of them before the operator
or function that they belong to.  A function is looked up when its arguments have values, and it
must take as many as there are. -/
def eval : Expr α → Except Failure α
  | operand a => .ok a
  | call name args => do
    let values ← evalAll args
    match table.function? name with
    | none => .error (.unexpectedName name)
    | some f =>
      if f.arity = args.length then
        match f.body values with
        | .ok a => .ok a
        | .error message => .error (.functionFailed name message)
      else .error (.wrongArity name f.arity args.length)
  | prefixOp op e => do op.apply (← eval e)
  | postfixOp op e => do op.apply (← eval e)
  | infixOp op lhs rhs => do
    let a ← eval lhs
    let b ← eval rhs
    op.apply a b

/-- The values of a list of trees, from left to right. -/
def evalAll : List (Expr α) → Except Failure (List α)
  | [] => .ok []
  | e :: es => do
    let a ← eval e
    return a :: (← evalAll es)

end

theorem length_of_evalAll {es : List (Expr α)} {values : List α}
    (h : evalAll table es = .ok values) : values.length = es.length := by
  induction es generalizing values with
  | nil =>
    rw [evalAll] at h
    cases h
    rfl
  | cons e es ih =>
    rw [evalAll] at h
    cases he : eval table e with
    | error err => rw [he] at h; cases h
    | ok a =>
      cases hes : evalAll table es with
      | error err => rw [he, hes] at h; cases h
      | ok rest =>
        rw [he, hes] at h
        cases h
        simp [ih hes]

/-- The value of a call is what the machine makes of it with the values of the arguments. -/
theorem eval_call (name : String) (args : List (Expr α)) :
    eval table (call name args) =
      evalAll table args >>= fun values =>
        callee table name args.length >>= fun f => f.call name values := by
  rw [eval]
  cases hargs : evalAll table args with
  | error err => rfl
  | ok values =>
    have hlen := length_of_evalAll table hargs
    unfold callee
    cases table.function? name with
    | none => rfl
    | some f =>
      by_cases harity : f.arity = args.length
      · have hcall := f.call_of_length_eq (hlen.trans harity.symm) name
        cases hbody : f.body values <;>
          simp only [bind, Except.bind, if_pos harity, hcall, hbody]
      · simp only [bind, Except.bind, if_neg harity]

/-- Run the tokens `ts`, then those that follow. -/
theorem run_append (stack : List α) (ts us : List (Token α)) :
    run table stack (ts ++ us) = (run table stack ts).bind fun s => run table s us :=
  List.foldlM_append

theorem run_cons (stack : List α) (t : Token α) (ts : List (Token α)) :
    run table stack (t :: ts) = (step table stack t).bind fun s => run table s ts :=
  rfl

mutual

theorem run_postorder_append (e : Expr α) (stack : List α) (rest : List (Token α)) :
    run table stack (e.postorder ++ rest) =
      (eval table e).bind fun a => run table (a :: stack) rest := by
  match e with
  | operand a => rfl
  | prefixOp op e =>
    rw [postorder, List.append_assoc, run_postorder_append e, eval]
    cases eval table e with
    | error err => rfl
    | ok a =>
      cases h : op.apply a <;> simp [run_cons, step, h, bind, Except.bind, pure, Except.pure]
  | postfixOp op e =>
    rw [postorder, List.append_assoc, run_postorder_append e, eval]
    cases eval table e with
    | error err => rfl
    | ok a =>
      cases h : op.apply a <;> simp [run_cons, step, h, bind, Except.bind, pure, Except.pure]
  | infixOp op lhs rhs =>
    rw [postorder, List.append_assoc, List.append_assoc, run_postorder_append lhs, eval]
    cases eval table lhs with
    | error err => rfl
    | ok a =>
      simp only [Except.bind, bind]
      rw [run_postorder_append rhs]
      cases eval table rhs with
      | error err => rfl
      | ok b =>
        cases h : op.apply a b <;> simp [run_cons, step, h, bind, Except.bind, pure, Except.pure]
  | call name args =>
    rw [postorder, List.append_assoc, run_postorderAll_append args, eval_call]
    cases hargs : evalAll table args with
    | error err => rfl
    | ok values =>
      have hlen := length_of_evalAll table hargs
      simp only [Except.bind, bind, List.cons_append, List.nil_append, run_cons, step, callFunction]
      cases callee table name args.length with
      | error err => rfl
      | ok f =>
        have hlt : ¬ (values.reverse ++ stack).length < args.length := by
          simp [← hlen]
        have htake : ((values.reverse ++ stack).take args.length).reverse = values := by
          rw [← hlen, ← List.length_reverse, List.take_left, List.reverse_reverse]
        have hdrop : (values.reverse ++ stack).drop args.length = stack := by
          rw [← hlen, ← List.length_reverse, List.drop_left]
        simp only [if_neg hlt, htake, hdrop]
        cases f.call name values <;> rfl

theorem run_postorderAll_append (es : List (Expr α)) (stack : List α) (rest : List (Token α)) :
    run table stack (postorderAll es ++ rest) =
      (evalAll table es).bind fun values => run table (values.reverse ++ stack) rest := by
  match es with
  | [] => rfl
  | e :: es =>
    rw [postorderAll, List.append_assoc, run_postorder_append e, evalAll]
    cases eval table e with
    | error err => rfl
    | ok a =>
      simp only [Except.bind, bind]
      rw [run_postorderAll_append es]
      cases evalAll table es with
      | error err => rfl
      | ok values => simp [Except.bind, pure, Except.pure]

end

theorem execute_postorder (e : Expr α) : execute table e.postorder = eval table e := by
  have h := run_postorder_append table e [] []
  rw [List.append_nil] at h
  rw [execute, h]
  cases eval table e <;> rfl

end Expr

end Formula
