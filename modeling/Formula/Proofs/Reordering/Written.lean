import Formula.Expr.Written
import Formula.Proofs.Postorder
import Formula.Proofs.Reordering.Step

/-!
# Reordering a written tree

The tokens that write a tree leave the reordering with the tokens of the tree in postfix order: some
of them in the output, the others held back in operators that bind at least as tightly as the
writing does (`Written.feed_eq_ok`).  What an operator around the tree demands of the strength of
its operand is exactly that these operators yield to it on the left, and that the operator itself
does not yield to them on the right.  So `toPostfix` gives the postorder of the tree
(`Written.toPostfix_eq_ok`).
-/

namespace Formula

variable {α : Type}

/-! ## Strengths -/

namespace InfixOp

theorem precedence_lt_prefixStrength (op : InfixOp) : op.precedence < prefixStrength := by
  cases op <;> decide

theorem precedence_pos (op : InfixOp) : 0 < op.precedence := by
  cases op <;> decide

theorem associatesLeft_of_precedence_eq {op op' : InfixOp} (h : op.precedence = op'.precedence) :
    op.associatesLeft = op'.associatesLeft := by
  have key : ∀ o : InfixOp, o.associatesLeft = (o.precedence != 12) := by
    intro o
    cases o <;> rfl
  rw [key, key, h]

theorem acceptsLeft_mono {op : InfixOp} {r s : Nat} (h : op.acceptsLeft r) (hrs : r ≤ s) :
    op.acceptsLeft s := by
  rcases h with h | ⟨hleft, rfl⟩
  · exact .inl (Nat.lt_of_lt_of_le h hrs)
  · rcases Nat.eq_or_lt_of_le hrs with rfl | hlt
    · exact .inr ⟨hleft, rfl⟩
    · exact .inl hlt

theorem acceptsRight_mono {op : InfixOp} {r s : Nat} (h : op.acceptsRight r) (hrs : r ≤ s) :
    op.acceptsRight s := by
  rcases h with h | ⟨hright, rfl⟩
  · exact .inl (Nat.lt_of_lt_of_le h hrs)
  · rcases Nat.eq_or_lt_of_le hrs with rfl | hlt
    · exact .inr ⟨hright, rfl⟩
    · exact .inl hlt

theorem precedence_le_of_acceptsLeft {op : InfixOp} {s : Nat} (h : op.acceptsLeft s) :
    op.precedence ≤ s := by
  rcases h with h | ⟨-, rfl⟩
  · exact Nat.le_of_lt h
  · exact Nat.le_refl _

theorem precedence_le_of_acceptsRight {op : InfixOp} {s : Nat} (h : op.acceptsRight s) :
    op.precedence ≤ s := by
  rcases h with h | ⟨-, rfl⟩
  · exact Nat.le_of_lt h
  · exact Nat.le_refl _

end InfixOp

namespace Held

/-- How tightly a held operator binds.  A mark binds nothing. -/
def strength : Held → Nat
  | infixOp op => op.precedence
  | prefixOp _ => prefixStrength
  | mark => 0

/-- Whether something of the given strength can be the right operand of a held operator, or the
content of an open parenthesis, without parentheses around it. -/
def acceptsRight (strength : Nat) : Held → Prop
  | infixOp op => op.acceptsRight strength
  | prefixOp _ => prefixStrength ≤ strength
  | mark => True

theorem acceptsRight_mono {h : Held} {r s : Nat} (hr : h.acceptsRight r) (hrs : r ≤ s) :
    h.acceptsRight s := by
  cases h with
  | infixOp op => exact InfixOp.acceptsRight_mono hr hrs
  | prefixOp op => exact Nat.le_trans hr hrs
  | mark => trivial

/-- Prefix operators can stand after any operator. -/
theorem acceptsRight_prefixStrength (h : Held) : h.acceptsRight prefixStrength := by
  cases h with
  | infixOp op => exact .inl op.precedence_lt_prefixStrength
  | prefixOp op => exact le_rfl
  | mark => trivial

/-- A held operator yields to `op` exactly if it can be the outermost one of what stands to the left
of `op`. -/
theorem yieldsTo_iff {h : Held} {op : InfixOp} :
    h.yieldsTo op = true ↔ op.acceptsLeft h.strength := by
  cases h with
  | infixOp top =>
    simp only [yieldsTo, InfixOp.acceptsLeft, strength, Bool.or_eq_true, Bool.and_eq_true,
      decide_eq_true_eq, beq_iff_eq, and_comm]
  | prefixOp top => simp [yieldsTo, InfixOp.acceptsLeft, strength, op.precedence_lt_prefixStrength]
  | mark =>
    have hpos := op.precedence_pos
    simp only [yieldsTo, InfixOp.acceptsLeft, strength, Bool.false_eq_true, false_iff]
    omega

/-- A held operator does not yield to `op` exactly if `op` can be the outermost one of what stands
to its right. -/
theorem yieldsTo_eq_false_iff {h : Held} {op : InfixOp} :
    h.yieldsTo op = false ↔ h.acceptsRight op.precedence := by
  cases h with
  | infixOp top =>
    simp only [yieldsTo, acceptsRight, InfixOp.acceptsRight, Bool.or_eq_false_iff,
      Bool.and_eq_false_imp, decide_eq_false_iff_not, beq_iff_eq]
    constructor
    · rintro ⟨hle, hleft⟩
      rcases Nat.eq_or_lt_of_le (Nat.le_of_not_lt hle) with heq | hlt
      · exact .inr ⟨InfixOp.associatesLeft_of_precedence_eq heq ▸ hleft heq, heq.symm⟩
      · exact .inl hlt
    · rintro (hlt | ⟨hright, heq⟩)
      · exact ⟨by omega, fun heq => by omega⟩
      · exact ⟨by omega, fun _ => InfixOp.associatesLeft_of_precedence_eq heq ▸ hright⟩
  | prefixOp top =>
    have hlt := op.precedence_lt_prefixStrength
    simp only [yieldsTo, acceptsRight, Bool.true_eq_false, false_iff]
    omega
  | mark => simp only [yieldsTo, acceptsRight]

end Held

theorem Expr.postorder_ne_nil (e : Expr α) : e.postorder ≠ [] := by
  cases e <;> simp [Expr.postorder]

/-! ## Tokens in output and on hold -/

/-- The tokens `ts` are those of `out`, which stands in the reverse order of output, followed by the
held operators `ops`, which bind at least as tightly as `strength`. -/
structure Splits (ts : List (Token α)) (strength : Nat) (out : List (Token α)) (ops : List Held) :
    Prop where
  out_ne_nil : out ≠ []
  eq_append : out.reverse ++ ops.filterMap Held.token? = ts
  isOperator : ∀ h ∈ ops, h.isOperator = true
  strength_le : ∀ h ∈ ops, strength ≤ h.strength

namespace Splits

variable {ts out output : List (Token α)} {s : Nat} {ops : List Held}

theorem of_ne_nil (h : ts ≠ []) : Splits ts s ts.reverse [] where
  out_ne_nil := by simpa using h
  eq_append := by simp
  isOperator := by simp
  strength_le := by simp

/-- Once the operators are put out as well, the output holds all the tokens. -/
theorem released (h : Splits ts s out ops) :
    (ops.filterMap Held.token?).reverse ++ (out ++ output) = ts.reverse ++ output := by
  rw [← h.eq_append, List.reverse_append, List.reverse_reverse, List.append_assoc]

/-- Tokens that stood in the output before. -/
theorem prepend (h : Splits ts s out ops) (before : List (Token α)) :
    Splits (before ++ ts) s (out ++ before.reverse) ops where
  out_ne_nil := by simp [h.out_ne_nil]
  eq_append := by simp [← h.eq_append]
  isOperator := h.isOperator
  strength_le := h.strength_le

/-- An operator that was held back before. -/
theorem hold (h : Splits ts s out ops) (x : Held) {t : Token α} (ht : x.token? = some t)
    (hop : x.isOperator = true) (hx : x.strength ≤ s) :
    Splits (ts ++ [t]) x.strength out (ops ++ [x]) where
  out_ne_nil := h.out_ne_nil
  eq_append := by simp [← h.eq_append, ht]
  isOperator y hy := by
    rcases List.mem_append.1 hy with hy | hy
    · exact h.isOperator y hy
    · rwa [List.mem_singleton.1 hy]
  strength_le y hy := by
    rcases List.mem_append.1 hy with hy | hy
    · exact Nat.le_trans hx (h.strength_le y hy)
    · rw [List.mem_singleton.1 hy]

/-- Nothing that can be held back binds as tightly as a postfix operator. -/
theorem ops_eq_nil (h : Splits ts s out ops) (hs : postfixStrength ≤ s) : ops = [] := by
  rcases ops with _ | ⟨x, ops⟩
  · rfl
  · have hx := h.strength_le x List.mem_cons_self
    cases x with
    | infixOp op =>
      have hlt := op.precedence_lt_prefixStrength
      simp only [Held.strength, prefixStrength, postfixStrength] at *
      omega
    | prefixOp op =>
      simp only [Held.strength, prefixStrength, postfixStrength] at *
      omega
    | mark =>
      simp only [Held.strength, postfixStrength] at *
      omega

end Splits

/-! ## The run over a written tree -/

open Reordering

mutual

theorem Written.feed_eq_ok {e : Expr α} {s : Nat} {ts : List (Token α)} (h : Written e s ts)
    (output : List (Token α)) (held : List Held) (ps : List Parenthesis)
    (hheld : ∀ x ∈ held.head?, x.acceptsRight s) :
    ∃ out ops, Splits e.postorder s out ops ∧
      feed ⟨output, held, ps, none⟩ ts =
        .ok ⟨out ++ output, ops ++ held, withContent ps, none⟩ := by
  match h with
  | .operand a =>
    refine ⟨[.operand a], [], .of_ne_nil (by simp [Expr.postorder]), ?_⟩
    rw [(Step.operand a).feed_cons]
    rfl
  | .group h =>
    obtain ⟨out, ops, hsplit, hfeed⟩ :=
      h.feed_eq_ok output (.mark :: held) (⟨none, 0, true⟩ :: withContent ps)
        (by simp [Held.acceptsRight])
    refine ⟨_, _, .of_ne_nil e.postorder_ne_nil, ?_⟩
    rw [List.cons_append, Step.opening.feed_cons, feed_append_of_eq_ok hfeed, withContent,
      (Step.closing hsplit.isOperator).feed_cons, hsplit.released]
    rfl
  | .callNone name =>
    refine ⟨[.function name 0], [], .of_ne_nil (by simp [Expr.postorder, Expr.postorderAll]), ?_⟩
    have hclose : Step ⟨output, [] ++ .mark :: held, ⟨some ⟨name, 0⟩, 0, true⟩ :: withContent ps,
        none⟩ .closing _ := .callClosing ⟨name, 0⟩ (by simp) (fun _ => rfl) rfl
    rw [(Step.function name 0).feed_cons, (Step.callOpening ⟨name, 0⟩).feed_cons]
    exact hclose.feed_cons []
  | @Written.call _ name args _ hargs =>
    obtain ⟨out, ops, m, hsplit, hm, hfeed⟩ :=
      hargs.feed_eq_ok output held (withContent ps) ⟨name, args.length⟩ 0 true
    have harity : Parenthesis.arguments ⟨some ⟨name, args.length⟩, m, false⟩ = args.length := by
      rw [Parenthesis.arguments, if_neg Bool.false_ne_true, hm, Nat.zero_add]
    refine ⟨_, _, .of_ne_nil (Expr.postorder_ne_nil _), ?_⟩
    rw [List.cons_append, List.cons_append, (Step.function name args.length).feed_cons,
      (Step.callOpening ⟨name, args.length⟩).feed_cons, feed_append_of_eq_ok hfeed,
      (Step.callClosing ⟨name, args.length⟩ hsplit.isOperator (by simp) harity).feed_cons,
      hsplit.released]
    simp [Expr.postorder]
  | .prefixOp op h hs =>
    obtain ⟨out, ops, hsplit, hfeed⟩ :=
      h.feed_eq_ok output (.prefixOp op :: held) (withContent ps)
        (by simpa [Held.acceptsRight] using hs)
    refine ⟨_, _, hsplit.hold (.prefixOp op) rfl rfl hs, ?_⟩
    rw [(Step.prefixOp op).feed_cons, hfeed]
    simp
  | .postfixOp op h hs =>
    obtain ⟨out, ops, hsplit, hfeed⟩ := h.feed_eq_ok output held ps
      fun x hx => Held.acceptsRight_mono (hheld x hx) hs
    -- The operator goes straight to the output, so its operand has to be there as a whole.
    obtain rfl := hsplit.ops_eq_nil hs
    refine ⟨_, _, .of_ne_nil (Expr.postorder_ne_nil _), ?_⟩
    rw [feed_append_of_eq_ok hfeed, (Step.postfixOp op (by simp [hsplit.out_ne_nil])).feed_cons]
    simp [Expr.postorder, ← hsplit.eq_append]
  | @Written.infixOp _ op lhs rhs _ _ _ _ hl hr hleft hright =>
    obtain ⟨outl, opsl, hsplitl, hfeedl⟩ := hl.feed_eq_ok output held ps fun x hx =>
      Held.acceptsRight_mono (hheld x hx) (InfixOp.precedence_le_of_acceptsLeft hleft)
    obtain ⟨outr, opsr, hsplitr, hfeedr⟩ :=
      hr.feed_eq_ok (lhs.postorder.reverse ++ output) (.infixOp op :: held) (withContent ps)
        (by simpa [Held.acceptsRight] using hright)
    -- What the left side held back yields to `op`; what was held back before stays.
    have hyield : ∀ x ∈ opsl, x.yieldsTo op = true := fun x hx =>
      Held.yieldsTo_iff.2 (InfixOp.acceptsLeft_mono hleft (hsplitl.strength_le x hx))
    have hstay : ∀ x ∈ held.head?, x.yieldsTo op = false := fun x hx =>
      Held.yieldsTo_eq_false_iff.2 (hheld x hx)
    refine ⟨_, _, (hsplitr.prepend lhs.postorder).hold (.infixOp op) rfl rfl
      (InfixOp.precedence_le_of_acceptsRight hright), ?_⟩
    rw [feed_append_of_eq_ok hfeedl, (Step.infixOp op hyield hstay).feed_cons, hsplitl.released,
      withContent_withContent, hfeedr]
    simp

theorem WrittenArguments.feed_eq_ok {es : List (Expr α)} {ts : List (Token α)}
    (h : WrittenArguments es ts) (output : List (Token α)) (below : List Held)
    (ps : List Parenthesis) (call : CallHead) (n : Nat) (slotIsEmpty : Bool) :
    ∃ out ops m, Splits (Expr.postorderAll es) 0 out ops ∧ m + 1 = n + es.length ∧
      feed ⟨output, .mark :: below, ⟨some call, n, slotIsEmpty⟩ :: ps, none⟩ ts =
        .ok ⟨out ++ output, ops ++ .mark :: below, ⟨some call, m, false⟩ :: ps, none⟩ := by
  match h with
  | .last h =>
    obtain ⟨out, ops, hsplit, hfeed⟩ :=
      h.feed_eq_ok output (.mark :: below) (⟨some call, n, slotIsEmpty⟩ :: ps)
        (by simp [Held.acceptsRight])
    refine ⟨out, ops, n, ?_, rfl, hfeed⟩
    rw [Expr.postorderAll, Expr.postorderAll, List.append_nil]
    exact { hsplit with strength_le := fun _ _ => Nat.zero_le _ }
  | @WrittenArguments.cons _ e s ts us es h hs =>
    obtain ⟨oute, opse, hsplite, hfeede⟩ :=
      h.feed_eq_ok output (.mark :: below) (⟨some call, n, slotIsEmpty⟩ :: ps)
        (by simp [Held.acceptsRight])
    obtain ⟨out, ops, m, hsplit, hm, hfeed⟩ :=
      hs.feed_eq_ok (e.postorder.reverse ++ output) below ps call (n + 1) true
    refine ⟨_, ops, m, hsplit.prepend e.postorder, by rw [hm, List.length_cons]; omega, ?_⟩
    rw [feed_append_of_eq_ok hfeede, withContent, (Step.comma call hsplite.isOperator).feed_cons,
      hsplite.released, hfeed, List.append_assoc]

end

theorem Written.toPostfix_eq_ok {e : Expr α} {s : Nat} {ts : List (Token α)}
    (h : Written e s ts) : toPostfix ts = .ok e.postorder := by
  obtain ⟨out, ops, hsplit, hfeed⟩ := h.feed_eq_ok [] [] [] (by simp)
  refine bind_eq_ok_iff.2 ⟨_, hfeed, result_eq_ok_iff.2 ⟨rfl, ?_, ?_⟩⟩
  · simpa using hsplit.isOperator
  · simpa using hsplit.eq_append

/-- The reordering of the tokens that write a tree is the postorder of the tree.  Hence the tokens
write no other tree. -/
theorem toPostfix_eq_ok_and_unique_of_written {e : Expr α} {s : Nat} {ts : List (Token α)}
    (h : Written e s ts) :
    toPostfix ts = .ok e.postorder ∧ ∀ (e' : Expr α) (s' : Nat), Written e' s' ts → e' = e := by
  refine ⟨h.toPostfix_eq_ok, fun e' s' h' => ?_⟩
  have heq := h.toPostfix_eq_ok
  rw [h'.toPostfix_eq_ok, Except.ok.injEq] at heq
  exact Expr.postorder_injective heq

/-- The tree of `2 ** -f((3)) ** 4!`, in which the second power is the exponent of the first. -/
theorem toPostfix_power_of_negated_call :
    Written (.infixOp .power (.operand 2) (.infixOp .power
        (.prefixOp .negate (.call "f" [.operand 3]))
        (.postfixOp .factorial (.operand 4))) : Expr Nat)
      12 [.operand 2, .infixOp .power, .prefixOp .negate, .function "f" 1, .opening, .opening,
        .operand 3, .closing, .closing, .infixOp .power, .operand 4, .postfixOp .factorial] ∧
    toPostfix [(.operand 2 : Token Nat), .infixOp .power, .prefixOp .negate, .function "f" 1,
        .opening, .opening, .operand 3, .closing, .closing, .infixOp .power, .operand 4,
        .postfixOp .factorial] =
      .ok [.operand 2, .operand 3, .function "f" 1, .prefixOp .negate, .operand 4,
        .postfixOp .factorial, .infixOp .power, .infixOp .power] := by
  have hbase : Written (.prefixOp .negate (.call "f" [.operand (3 : Nat)])) prefixStrength _ :=
    .prefixOp .negate (.call "f" (.last (.group (.operand 3)))) (by decide)
  have hexponent : Written (.postfixOp .factorial (.operand (4 : Nat))) postfixStrength _ :=
    .postfixOp .factorial (.operand 4) (by decide)
  have h := Written.infixOp .power (.operand 2)
    (.infixOp .power hbase hexponent (.inl (by decide)) (.inl (by decide)))
    (.inl (by decide)) (.inr (by decide))
  exact ⟨h, (toPostfix_eq_ok_and_unique_of_written h).1⟩

end Formula
