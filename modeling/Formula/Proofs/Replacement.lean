import Formula.Library.Basic
import Formula.Number.BoundedInt
import Formula.Proofs.Postorder
import Formula.Proofs.Reordering.Frame

/-!
# Replacing a part of a formula by its value

The tokens in parentheses, or those of a whole argument, come out of the reordering as one block,
wherever they stand (`sameAround_group`, `sameAround_argument`).  The machine runs such a block as
it runs an operand (`run_append_of_execute`).  So a part of a formula that has a value of its own
can be replaced by it, and the formula around it need not make sense.
-/

namespace Formula

variable {α : Type}

namespace Reordering

/-! ## Blocks in the output -/

/-- A comma and a closing parenthesis put the operators above the mark out first. -/
theorem push_append_mark {out : List (Token α)} {ops below : List Held} {ps : List Parenthesis}
    {t : Token α} (hops : ∀ h ∈ ops, h.isOperator = true) (ht : t = .comma ∨ t = .closing) :
    push ⟨out, ops ++ .mark :: below, ps, none⟩ t =
      push ⟨(ops.filterMap Held.token?).reverse ++ out, .mark :: below, ps, none⟩ t := by
  have hnil : release ⟨(ops.filterMap Held.token?).reverse ++ out, .mark :: below, ps, none⟩
      Held.isOperator = ⟨(ops.filterMap Held.token?).reverse ++ out, .mark :: below, ps, none⟩ :=
    rfl
  rcases ht with rfl | rfl
  · simp only [push, nextArgument, release_isOperator_append_mark hops, hnil]
  · simp only [push, closeParenthesis, release_isOperator_append_mark hops, hnil]

/-- Parentheses around tokens with the result `p` put the block `p` out. -/
theorem feed_group {ts p : List (Token α)} (hp : toPostfix ts = .ok p) (hne : p ≠ [])
    (out : List (Token α)) (held : List Held) (ps : List Parenthesis) (post : List (Token α)) :
    feed ⟨out, held, ps, none⟩ (.opening :: (ts ++ .closing :: post)) =
      feed ⟨p.reverse ++ out, held, withContent ps, none⟩ post := by
  obtain ⟨top, ops, hops, hblock, hfeed⟩ :=
    exists_feed_of_toPostfix hp hne out held (⟨none, 0, true⟩ :: withContent ps)
  rw [Step.opening.feed_cons, feed_append_of_eq_ok hfeed, withContent,
    (Step.closing hops).feed_cons, ← List.append_assoc, hblock]

/-- A whole argument with the result `p` puts the block `p` out. -/
theorem feed_argument {ts p post : List (Token α)} (hp : toPostfix ts = .ok p) (hne : p ≠ [])
    (out : List (Token α)) (below : List Held) (ps : List Parenthesis)
    (hpost : post.head? = some .comma ∨ post.head? = some .closing) :
    feed ⟨out, .mark :: below, ps, none⟩ (ts ++ post) =
      feed ⟨p.reverse ++ out, .mark :: below, withContent ps, none⟩ post := by
  obtain ⟨top, ops, hops, hblock, hfeed⟩ := exists_feed_of_toPostfix hp hne out below ps
  rw [feed_append_of_eq_ok hfeed]
  cases post with
  | nil => rcases hpost with hpost | hpost <;> cases hpost
  | cons t post =>
    rw [List.head?_cons, Option.some.injEq, Option.some.injEq] at hpost
    rw [feed_cons, feed_cons, push_append_mark hops hpost, ← List.append_assoc, hblock]

end Reordering

open Reordering

theorem toPostfix_append (pre ts : List (Token α)) :
    toPostfix (pre ++ ts) =
      ({} : Reordering α).feed pre >>= fun s => s.feed ts >>= Reordering.result := by
  rw [toPostfix_eq, feed_append]
  cases ({} : Reordering α).feed pre <;> rfl

/-- Two results are the same around a block, which is `p` in the one and `q` in the other. -/
def SameAround (p q : List (Token α)) (x y : Except Failure (List (Token α))) : Prop :=
  ∃ (before : List (Token α)) (r : Except Failure (List (Token α))),
    x = (r.map fun after => before ++ (p ++ after)) ∧ y = r.map fun after => before ++ (q ++ after)

/-- If the tokens `us` put the block `p` out wherever `pre` leads to, then the result has `p` where
it would have an operand that stood in their place. -/
theorem sameAround_toPostfix {pre us post p : List (Token α)} (hne : p ≠ [])
    (hus : ∀ s, ({} : Reordering α).feed pre = .ok s → s.awaited = none ∧
      s.feed us = feed ⟨p.reverse ++ s.output, s.held, withContent s.parentheses, none⟩ post)
    (a : α) :
    SameAround p [.operand a] (toPostfix (pre ++ us)) (toPostfix (pre ++ .operand a :: post)) := by
  cases hpre : ({} : Reordering α).feed pre with
  | error f =>
    refine ⟨[], .error f, ?_, ?_⟩
    · rw [toPostfix_append, hpre]
      rfl
    · rw [toPostfix_append, hpre]
      rfl
  | ok s =>
    obtain ⟨hawaited, hblock⟩ := hus s hpre
    obtain ⟨out, held, ps, awaited⟩ := s
    obtain rfl : awaited = none := hawaited
    obtain ⟨r, hr⟩ := exists_result_onto ⟨[], held, withContent ps, none⟩ post
    refine ⟨out.reverse, r, ?_, ?_⟩
    · have hresult := hr (p.reverse ++ out) (by simp [hne])
      rw [List.reverse_append, List.reverse_reverse] at hresult
      rw [toPostfix_append, hpre]
      refine (congrArg (· >>= result) hblock).trans (hresult.trans ?_)
      simp only [List.append_assoc]
    · have hresult := hr (.operand a :: out) (by simp)
      rw [List.reverse_cons] at hresult
      rw [toPostfix_append, hpre]
      refine (congrArg (· >>= result) ((Step.operand a).feed_cons post)).trans (hresult.trans ?_)
      simp only [List.append_assoc]

theorem sameAround_group {e p : List (Token α)} (hp : toPostfix e = .ok p) (hne : p ≠ [])
    {pre : List (Token α)} (hpre : ∀ name arity, pre.getLast? ≠ some (.function name arity))
    (post : List (Token α)) (a : α) :
    SameAround p [.operand a] (toPostfix (pre ++ .opening :: (e ++ .closing :: post)))
      (toPostfix (pre ++ .operand a :: post)) := by
  refine sameAround_toPostfix hne (fun s hfeed => ?_) a
  have hawaited := awaited_eq_none_of_feed hfeed hpre
  obtain ⟨out, held, ps, awaited⟩ := s
  obtain rfl : awaited = none := hawaited
  exact ⟨rfl, feed_group hp hne out held ps post⟩

theorem sameAround_argument {e p : List (Token α)} (hp : toPostfix e = .ok p) (hne : p ≠ [])
    {pre post : List (Token α)} (hpre : pre.getLast? = some .opening ∨ pre.getLast? = some .comma)
    (hpost : post.head? = some .comma ∨ post.head? = some .closing) (a : α) :
    SameAround p [.operand a] (toPostfix (pre ++ (e ++ post)))
      (toPostfix (pre ++ .operand a :: post)) := by
  refine sameAround_toPostfix hne (fun s hfeed => ?_) a
  obtain ⟨out, below, ps, rfl⟩ := exists_eq_mark_of_feed hfeed hpre
  exact ⟨rfl, feed_argument hp hne out below ps hpost⟩

/-! ## The value of a block -/

variable [Number α] {table : SymbolTable α}

theorem run_append_of_execute {p : List (Token α)} {v : α} (hv : execute table p = .ok v)
    (stack : List α) (after : List (Token α)) :
    run table stack (p ++ after) = run table stack (.operand v :: after) := by
  obtain ⟨e, rfl, he⟩ := Expr.exists_postorder_of_execute hv
  rw [Expr.run_postorder_append, he]
  rfl

theorem SameAround.execute_eq {p : List (Token α)} {v : α} (hv : execute table p = .ok v)
    {x y : Except Failure (List (Token α))} (h : SameAround p [.operand v] x y) :
    (x >>= execute table) = (y >>= execute table) := by
  obtain ⟨before, r, rfl, rfl⟩ := h
  cases r with
  | error f => rfl
  | ok after =>
    have hrun : run table [] (before ++ (p ++ after)) =
        run table [] (before ++ .operand v :: after) := by
      rw [Expr.run_append, Expr.run_append]
      refine congrArg (Except.bind (run table [] before)) (funext fun stack => ?_)
      exact run_append_of_execute hv stack after
    have hexecute : execute table (before ++ (p ++ after)) =
        execute table (before ++ .operand v :: after) := by
      rw [execute, execute, hrun]
    exact hexecute

/-- Tokens with a value of their own can be replaced by it where they stand in parentheses that open
no call, and where they are the content of a parenthesis or a whole argument.  What stands around
them is arbitrary, and a failure stays the same. -/
theorem execute_toPostfix_replace_by_value {e p : List (Token α)} {v : α}
    (hp : toPostfix e = .ok p) (hv : execute table p = .ok v) (pre post : List (Token α)) :
    ((∀ name arity, pre.getLast? ≠ some (.function name arity)) →
      (toPostfix (pre ++ [.opening] ++ e ++ [.closing] ++ post) >>= execute table) =
        (toPostfix (pre ++ [.operand v] ++ post) >>= execute table)) ∧
    ((pre.getLast? = some .opening ∨ pre.getLast? = some .comma) →
      (post.head? = some .comma ∨ post.head? = some .closing) →
      (toPostfix (pre ++ e ++ post) >>= execute table) =
        (toPostfix (pre ++ [.operand v] ++ post) >>= execute table)) := by
  have hne : p ≠ [] := by
    rintro rfl
    cases hv
  simp only [List.append_assoc, List.cons_append, List.nil_append]
  exact ⟨fun hpre => (sameAround_group hp hne hpre post v).execute_eq hv,
    fun hpre hpost => (sameAround_argument hp hne hpre hpost v).execute_eq hv⟩

/-- `4 * (2 + 3)` and `max(2 + 3, 1)` have the values of `4 * 5` and `max(5, 1)`. -/
theorem execute_toPostfix_product_and_max_of_sum :
    toPostfix [(.operand ⟨2, by decide, by decide⟩ : Token (BoundedInt .w64)), .infixOp .add,
        .operand ⟨3, by decide, by decide⟩] =
      .ok [.operand ⟨2, by decide, by decide⟩, .operand ⟨3, by decide, by decide⟩, .infixOp .add] ∧
    execute (Library.addBasic SymbolTable.empty : SymbolTable (BoundedInt .w64))
        [.operand ⟨2, by decide, by decide⟩, .operand ⟨3, by decide, by decide⟩, .infixOp .add] =
      .ok ⟨5, by decide, by decide⟩ ∧
    (toPostfix [(.operand ⟨4, by decide, by decide⟩ : Token (BoundedInt .w64)),
        .infixOp .multiply, .opening, .operand ⟨2, by decide, by decide⟩, .infixOp .add,
        .operand ⟨3, by decide, by decide⟩, .closing] >>=
        execute (Library.addBasic SymbolTable.empty)) =
      (toPostfix [(.operand ⟨4, by decide, by decide⟩ : Token (BoundedInt .w64)),
        .infixOp .multiply, .operand ⟨5, by decide, by decide⟩] >>=
        execute (Library.addBasic SymbolTable.empty)) ∧
    (toPostfix [(.function "max" 2 : Token (BoundedInt .w64)), .opening,
        .operand ⟨2, by decide, by decide⟩, .infixOp .add, .operand ⟨3, by decide, by decide⟩,
        .comma, .operand ⟨1, by decide, by decide⟩, .closing] >>=
        execute (Library.addBasic SymbolTable.empty)) =
      (toPostfix [(.function "max" 2 : Token (BoundedInt .w64)), .opening,
        .operand ⟨5, by decide, by decide⟩, .comma, .operand ⟨1, by decide, by decide⟩,
        .closing] >>=
        execute (Library.addBasic SymbolTable.empty)) := by
  have hp : toPostfix [(.operand ⟨2, by decide, by decide⟩ : Token (BoundedInt .w64)),
      .infixOp .add, .operand ⟨3, by decide, by decide⟩] =
      .ok [.operand ⟨2, by decide, by decide⟩, .operand ⟨3, by decide, by decide⟩,
        .infixOp .add] := rfl
  have hv : execute (Library.addBasic SymbolTable.empty : SymbolTable (BoundedInt .w64))
      [.operand ⟨2, by decide, by decide⟩, .operand ⟨3, by decide, by decide⟩, .infixOp .add] =
    .ok ⟨5, by decide, by decide⟩ := rfl
  refine ⟨hp, hv, ?_, ?_⟩
  · exact (execute_toPostfix_replace_by_value hp hv
      [.operand ⟨4, by decide, by decide⟩, .infixOp .multiply] []).1 (by simp)
  · exact (execute_toPostfix_replace_by_value hp hv [.function "max" 2, .opening]
      [.comma, .operand ⟨1, by decide, by decide⟩, .closing]).2 (.inl rfl) (.inl rfl)

end Formula
