import Mathlib.Data.List.Forall2
import Formula.Expr
import Formula.Proofs.Success

/-!
# Token lists in postfix order and their trees

`Expr.build` reads tokens as the stack machine does, with trees on its stack instead of values.  It
recovers a tree from its postorder, so no two trees have the same (`postorder_injective`), and it
follows every run of the machine with trees that evaluate to the values on the machine's stack
(`exists_build_of_run`).  Hence the machine gives a value to a list of tokens exactly if the list is
the postorder of a tree with that value (`execute_eq_ok_iff_exists_unique_postorder`).
-/

namespace Formula

namespace Expr

variable {α : Type}

/-! ## Building trees -/

/-- The stack of trees after one token, `none` if the token lacks operands or is no part of a
tree. -/
def shift (stack : List (Expr α)) : Token α → Option (List (Expr α))
  | .operand a => some (operand a :: stack)
  | .infixOp op =>
    match stack with
    | rhs :: lhs :: stack => some (infixOp op lhs rhs :: stack)
    | _ => none
  | .prefixOp op =>
    match stack with
    | e :: stack => some (prefixOp op e :: stack)
    | [] => none
  | .postfixOp op =>
    match stack with
    | e :: stack => some (postfixOp op e :: stack)
    | [] => none
  | .function name arity =>
    if stack.length < arity then none
    else some (call name (stack.take arity).reverse :: stack.drop arity)
  | .opening | .closing | .comma => none

/-- The stack of trees after a list of tokens. -/
def build (stack : List (Expr α)) (ts : List (Token α)) : Option (List (Expr α)) :=
  ts.foldlM shift stack

theorem build_cons (stack : List (Expr α)) (t : Token α) (ts : List (Token α)) :
    build stack (t :: ts) = (shift stack t).bind fun s => build s ts :=
  rfl

theorem shift_call (stack args : List (Expr α)) (name : String) :
    shift (args.reverse ++ stack) (.function name args.length) =
      some (call name args :: stack) := by
  have htake : (args.reverse ++ stack).take args.length = args.reverse := by
    rw [← List.length_reverse, List.take_left]
  have hdrop : (args.reverse ++ stack).drop args.length = stack := by
    rw [← List.length_reverse, List.drop_left]
  have hlt : ¬ (args.reverse ++ stack).length < args.length := by
    rw [List.length_append, List.length_reverse]
    omega
  simp only [shift, if_neg hlt, htake, hdrop, List.reverse_reverse]

mutual

theorem build_postorder_append (e : Expr α) (stack : List (Expr α)) (rest : List (Token α)) :
    build stack (e.postorder ++ rest) = build (e :: stack) rest := by
  match e with
  | operand a => rfl
  | prefixOp op e =>
    rw [postorder, List.append_assoc, build_postorder_append e]
    rfl
  | postfixOp op e =>
    rw [postorder, List.append_assoc, build_postorder_append e]
    rfl
  | infixOp op lhs rhs =>
    rw [postorder, List.append_assoc, List.append_assoc, build_postorder_append lhs,
      build_postorder_append rhs]
    rfl
  | call name args =>
    rw [postorder, List.append_assoc, build_postorderAll_append args, List.cons_append,
      List.nil_append, build_cons, shift_call]
    rfl

theorem build_postorderAll_append (es stack : List (Expr α)) (rest : List (Token α)) :
    build stack (postorderAll es ++ rest) = build (es.reverse ++ stack) rest := by
  match es with
  | [] => rfl
  | e :: es =>
    rw [postorderAll, List.append_assoc, build_postorder_append e, build_postorderAll_append es,
      List.reverse_cons, List.append_assoc]
    rfl

end

theorem build_postorder (e : Expr α) : build [] e.postorder = some [e] := by
  have h := build_postorder_append e [] []
  rwa [List.append_nil] at h

theorem postorder_injective : Function.Injective (postorder (α := α)) := by
  intro e e' h
  have hb := build_postorder e
  rw [h, build_postorder e', Option.some.injEq] at hb
  exact (List.cons.inj hb).1.symm

/-! ## The tokens of the trees that were built -/

theorem postorderAll_append (es es' : List (Expr α)) :
    postorderAll (es ++ es') = postorderAll es ++ postorderAll es' := by
  induction es with
  | nil => rfl
  | cons e es ih => rw [List.cons_append, postorderAll, postorderAll, ih, List.append_assoc]

theorem postorderAll_reverse_cons (e : Expr α) (stack : List (Expr α)) :
    postorderAll (e :: stack).reverse = postorderAll stack.reverse ++ e.postorder := by
  rw [List.reverse_cons, postorderAll_append, postorderAll, postorderAll, List.append_nil]

theorem postorderAll_of_shift {stack stack' : List (Expr α)} {t : Token α}
    (h : shift stack t = some stack') :
    postorderAll stack'.reverse = postorderAll stack.reverse ++ [t] := by
  cases t with
  | operand a =>
    cases h
    exact postorderAll_reverse_cons _ _
  | infixOp op =>
    match stack, h with
    | rhs :: lhs :: stack, h =>
      cases h
      simp only [postorderAll_reverse_cons, postorder, List.append_assoc]
  | prefixOp op =>
    match stack, h with
    | e :: stack, h =>
      cases h
      simp only [postorderAll_reverse_cons, postorder, List.append_assoc]
  | postfixOp op =>
    match stack, h with
    | e :: stack, h =>
      cases h
      simp only [postorderAll_reverse_cons, postorder, List.append_assoc]
  | function name arity =>
    simp only [shift] at h
    split at h
    · cases h
    · rename_i hlen
      cases h
      have hargs : (stack.take arity).reverse.length = arity := by
        rw [List.length_reverse, List.length_take]
        omega
      rw [postorderAll_reverse_cons, postorder, hargs, ← List.append_assoc, ← postorderAll_append,
        ← List.reverse_append, List.take_append_drop]
  | opening => cases h
  | closing => cases h
  | comma => cases h

theorem postorderAll_of_build {stack stack' : List (Expr α)} {ts : List (Token α)}
    (h : build stack ts = some stack') :
    postorderAll stack'.reverse = postorderAll stack.reverse ++ ts := by
  induction ts generalizing stack with
  | nil =>
    cases h
    rw [List.append_nil]
  | cons t ts ih =>
    rw [build_cons, Option.bind_eq_some_iff] at h
    obtain ⟨middle, hshift, hbuild⟩ := h
    rw [ih hbuild, postorderAll_of_shift hshift, List.append_assoc]
    rfl

/-! ## Trees beside the values of a run -/

theorem callFunction_eq_ok_iff {table : SymbolTable α} {name : String} {arity : Nat}
    {stack stack' : List α} :
    callFunction table name arity stack = .ok stack' ↔
      ∃ f, callee table name arity = .ok f ∧ arity ≤ stack.length ∧
        ∃ a, f.call name (stack.take arity).reverse = .ok a ∧ stack' = a :: stack.drop arity := by
  unfold callFunction
  rw [bind_eq_ok_iff]
  refine exists_congr fun f => and_congr_right fun _ => ?_
  by_cases hlen : stack.length < arity
  · rw [if_pos hlen]
    constructor
    · intro h
      cases h
    · rintro ⟨hle, -⟩
      omega
  · rw [if_neg hlen, bind_eq_ok_iff]
    constructor
    · rintro ⟨a, ha, h⟩
      cases h
      exact ⟨by omega, a, ha, rfl⟩
    · rintro ⟨-, a, ha, rfl⟩
      exact ⟨a, ha, rfl⟩

variable [Number α] (table : SymbolTable α)

/-- The trees of one stack evaluate to the values of another. -/
def Evaluates (trees : List (Expr α)) (values : List α) : Prop :=
  List.Forall₂ (fun e a => eval table e = .ok a) trees values

variable {table}

theorem Evaluates.evalAll {trees : List (Expr α)} {values : List α}
    (h : Evaluates table trees values) : evalAll table trees = .ok values := by
  induction h with
  | nil => rfl
  | cons he _ ih =>
    rw [Expr.evalAll, he, ih]
    rfl

theorem Evaluates.call {trees : List (Expr α)} {values : List α}
    (h : Evaluates table trees values) {name : String} {arity : Nat}
    (harity : arity ≤ values.length) {f : HostFunction α} (hf : callee table name arity = .ok f) {a : α}
    (ha : f.call name (values.take arity).reverse = .ok a) :
    eval table (Expr.call name (trees.take arity).reverse) = .ok a := by
  have hargs : Evaluates table (trees.take arity).reverse (values.take arity).reverse :=
    List.rel_reverse (List.forall₂_take arity h)
  have hlen : (trees.take arity).reverse.length = arity := by
    rw [hargs.length_eq, List.length_reverse, List.length_take]
    omega
  rw [eval_call, hargs.evalAll, hlen, hf]
  exact ha

theorem exists_shift_of_step {trees : List (Expr α)} {stack stack' : List α} {t : Token α}
    (h : Evaluates table trees stack) (hstep : step table stack t = .ok stack') :
    ∃ trees', shift trees t = some trees' ∧ Evaluates table trees' stack' := by
  cases t with
  | operand a =>
    cases hstep
    exact ⟨_, rfl, .cons rfl h⟩
  | infixOp op =>
    match stack, trees, h, hstep with
    | rhs :: lhs :: stack, _, .cons hr (.cons hl hrest), hstep =>
      obtain ⟨a, hop, hstack⟩ := bind_eq_ok_iff.1 hstep
      cases hstack
      refine ⟨_, rfl, .cons ?_ hrest⟩
      rw [eval, hl, hr]
      exact hop
  | prefixOp op =>
    match stack, trees, h, hstep with
    | b :: stack, _, .cons hb hrest, hstep =>
      obtain ⟨a, hop, hstack⟩ := bind_eq_ok_iff.1 hstep
      cases hstack
      refine ⟨_, rfl, .cons ?_ hrest⟩
      rw [eval, hb]
      exact hop
  | postfixOp op =>
    match stack, trees, h, hstep with
    | b :: stack, _, .cons hb hrest, hstep =>
      obtain ⟨a, hop, hstack⟩ := bind_eq_ok_iff.1 hstep
      cases hstack
      refine ⟨_, rfl, .cons ?_ hrest⟩
      rw [eval, hb]
      exact hop
  | function name arity =>
    obtain ⟨f, hf, harity, a, ha, rfl⟩ := callFunction_eq_ok_iff.1 hstep
    have hlen : ¬ trees.length < arity := by
      rw [h.length_eq]
      omega
    refine ⟨_, if_neg hlen, .cons (h.call harity hf ha) (List.forall₂_drop arity h)⟩
  | opening => cases hstep
  | closing => cases hstep
  | comma => cases hstep

theorem exists_build_of_run {trees : List (Expr α)} {stack stack' : List α} {ts : List (Token α)}
    (h : Evaluates table trees stack) (hrun : run table stack ts = .ok stack') :
    ∃ trees', build trees ts = some trees' ∧ Evaluates table trees' stack' := by
  induction ts generalizing trees stack with
  | nil =>
    cases hrun
    exact ⟨trees, rfl, h⟩
  | cons t ts ih =>
    obtain ⟨middle, hstep, hrest⟩ := bind_eq_ok_iff.1 hrun
    obtain ⟨trees₁, hshift, h₁⟩ := exists_shift_of_step h hstep
    obtain ⟨trees₂, hbuild, h₂⟩ := ih h₁ hrest
    refine ⟨trees₂, ?_, h₂⟩
    rw [build_cons, hshift]
    exact hbuild

theorem run_eq_ok_singleton_of_execute {ts : List (Token α)} {v : α}
    (h : execute table ts = .ok v) : run table [] ts = .ok [v] := by
  obtain ⟨stack, hrun, hstack⟩ := bind_eq_ok_iff.1 h
  match stack, hstack with
  | [a], hstack =>
    cases hstack
    exact hrun

theorem exists_postorder_of_execute {ts : List (Token α)} {v : α}
    (h : execute table ts = .ok v) : ∃ e : Expr α, e.postorder = ts ∧ eval table e = .ok v := by
  obtain ⟨trees, hbuild, heval⟩ :=
    exists_build_of_run .nil (run_eq_ok_singleton_of_execute h)
  match trees, heval with
  | [e], .cons he .nil =>
    have hts := postorderAll_of_build hbuild
    rw [postorderAll_reverse_cons] at hts
    exact ⟨e, hts, he⟩

variable (table)

/-- The machine gives a value to a list of tokens exactly if the list is the postorder of a tree
with that value, and there is only one such tree.  On the postorder of a tree it also fails as the
evaluation of the tree does. -/
theorem execute_eq_ok_iff_exists_unique_postorder :
    (∀ (ts : List (Token α)) (v : α), execute table ts = .ok v ↔
      ∃ e : Expr α, e.postorder = ts ∧ (∀ e' : Expr α, e'.postorder = ts → e' = e) ∧
        eval table e = .ok v) ∧
      ∀ e : Expr α, execute table e.postorder = eval table e := by
  refine ⟨fun ts v => ⟨fun h => ?_, ?_⟩, execute_postorder table⟩
  · obtain ⟨e, rfl, he⟩ := exists_postorder_of_execute h
    exact ⟨e, rfl, fun e' h' => postorder_injective h', he⟩
  · rintro ⟨e, rfl, -, he⟩
    rw [execute_postorder, he]

end Expr

end Formula
