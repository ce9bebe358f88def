import Formula.Evaluation
import Formula.Number.BoundedInt
import Formula.Proofs.Placement
import Formula.Proofs.Reordering.Written

/-!
# Recovering the tree of a formula

The reordering does not look at where operators stand, so it accepts more than the tokens that write
a tree: `+ 1 2` comes out as `1 2 +`.  This is all that goes wrong.  If the tokens are well placed
and the reordering gives a result, then they write a tree (`exists_written_of_toPostfix`).

While well placed tokens are read, what is held back describes an unfinished formula, `Pending`, and
behind an operand the operators that are put out complete trees on top of it (`Pending.reduce`).
-/

namespace Formula

variable {α : Type}

theorem WrittenArguments.snoc {es : List (Expr α)} {ts : List (Token α)}
    (hs : WrittenArguments es ts) {e : Expr α} {s : Nat} {us : List (Token α)}
    (h : Written e s us) : WrittenArguments (es ++ [e]) (ts ++ .comma :: us) := by
  cases hs with
  | last h₀ => exact .cons h₀ (.last h)
  | cons h₀ hs =>
    have hcons := WrittenArguments.cons h₀ (hs.snoc h)
    rw [List.append_assoc, List.cons_append]
    exact hcons

/-- Anything closed can stand to the right of a held operator. -/
theorem Held.acceptsRight_of_postfixStrength_le (x : Held) {s : Nat} (hs : postfixStrength ≤ s) :
    x.acceptsRight s :=
  Held.acceptsRight_mono x.acceptsRight_prefixStrength (Nat.le_trans (by decide) hs)

theorem Held.append_mark_inj {ops below below' : List Held}
    (hops : ∀ h ∈ ops, h.isOperator = true) (heq : .mark :: below' = ops ++ .mark :: below) :
    ops = [] ∧ below' = below := by
  rcases ops with _ | ⟨x, ops⟩
  · exact ⟨rfl, (List.cons.inj heq).2⟩
  · obtain ⟨rfl, -⟩ := List.cons.inj heq
    exact absurd (hops .mark List.mem_cons_self) Bool.false_ne_true

/-! ## Unfinished formulas -/

/-- The tokens `us` begin a formula that goes on with an operand.  The operators `held` wait for
that operand, and every parenthesis that is open counts as one with content. -/
inductive Pending : List (Token α) → List Held → List Parenthesis → Prop
  | start : Pending [] [] []
  | infixOp {us ts : List (Token α)} {held : List Held} {ps : List Parenthesis} {lhs : Expr α}
      {s : Nat} (op : InfixOp) (h : Pending us held ps) (hl : Written lhs s ts)
      (hleft : op.acceptsLeft s) (hheld : ∀ x ∈ held.head?, x.acceptsRight op.precedence) :
    Pending (us ++ (ts ++ [.infixOp op])) (.infixOp op :: held) ps
  | prefixOp {us : List (Token α)} {held : List Held} {ps : List Parenthesis} (op : PrefixOp)
      (h : Pending us held ps) : Pending (us ++ [.prefixOp op]) (.prefixOp op :: held) ps
  | group {us : List (Token α)} {held : List Held} {ps : List Parenthesis}
      (h : Pending us held ps) : Pending (us ++ [.opening]) (.mark :: held) (⟨none, 0, false⟩ :: ps)
  | call {us : List (Token α)} {held : List Held} {ps : List Parenthesis} (call : CallHead)
      (h : Pending us held ps) :
    Pending (us ++ [.function call.name call.arity, .opening]) (.mark :: held)
      (⟨some call, 0, false⟩ :: ps)
  | argument {us ts : List (Token α)} {held : List Held} {ps : List Parenthesis}
      {es : List (Expr α)} (call : CallHead) (h : Pending us held ps)
      (hs : WrittenArguments es ts) :
    Pending (us ++ .function call.name call.arity :: .opening :: (ts ++ [.comma]))
      (.mark :: held) (⟨some call, es.length, false⟩ :: ps)

namespace Pending

variable {us ts : List (Token α)} {held : List Held} {ps : List Parenthesis}

theorem withContent_eq (h : Pending us held ps) : withContent ps = ps := by
  induction h with
  | start => rfl
  | infixOp op h hl hleft hheld ih => exact ih
  | prefixOp op h ih => exact ih
  | group h ih => rfl
  | call call h ih => rfl
  | argument call h hs ih => rfl

/-- Behind an operand the operators `ops` on top complete their trees.  What is left over is a
shorter unfinished formula and the last of these trees, which `P` holds for if it holds for the
operand and the operators. -/
theorem reduce {ops rest : List Held} {e : Expr α} {s : Nat} {P : Nat → Prop}
    (h : Pending us (ops ++ rest) ps) (hops : ∀ x ∈ ops, x.isOperator = true)
    (hP : ∀ x ∈ ops, P x.strength) (he : Written e s ts) (hs : P s)
    (haccept : ∀ x ∈ (ops ++ rest).head?, x.acceptsRight s) :
    ∃ us' e' s' ts', us ++ ts = us' ++ ts' ∧ Pending us' rest ps ∧ Written e' s' ts' ∧ P s' := by
  -- Each operator takes what lies above it as its operand, so the operand grows as `ops` shrinks.
  induction ops generalizing us ts e s with
  | nil => exact ⟨us, e, s, ts, rfl, h, he, hs⟩
  | cons x ops ih =>
    rw [List.cons_append] at h
    have hx := haccept x rfl
    have hops' : ∀ y ∈ ops, y.isOperator = true := fun y hy => hops y (List.mem_cons_of_mem x hy)
    have hP' : ∀ y ∈ ops, P y.strength := fun y hy => hP y (List.mem_cons_of_mem x hy)
    have hPx := hP x List.mem_cons_self
    cases h with
    | infixOp op h hl hleft hheld =>
      obtain ⟨us', e', s', ts', heq, hrest⟩ :=
        ih h hops' hP' (.infixOp op hl he hleft hx) hPx hheld
      refine ⟨us', e', s', ts', ?_, hrest⟩
      rw [← heq, List.append_assoc, List.append_assoc]
      rfl
    | prefixOp op h =>
      obtain ⟨us', e', s', ts', heq, hrest⟩ :=
        ih h hops' hP' (.prefixOp op he hx) hPx fun y _ => y.acceptsRight_prefixStrength
      refine ⟨us', e', s', ts', ?_, hrest⟩
      rw [← heq, List.append_assoc]
      rfl
    | group h => exact absurd (hops .mark List.mem_cons_self) Bool.false_ne_true
    | call call h => exact absurd (hops .mark List.mem_cons_self) Bool.false_ne_true
    | argument call h hs => exact absurd (hops .mark List.mem_cons_self) Bool.false_ne_true

/-- Where all operators down to a mark are put out, a tree is complete. -/
theorem complete {ops rest : List Held} {e : Expr α} {s : Nat} (h : Pending us (ops ++ rest) ps)
    (hops : ∀ x ∈ ops, x.isOperator = true) (he : Written e s ts) (hs : postfixStrength ≤ s) :
    ∃ us' e' s' ts', us ++ ts = us' ++ ts' ∧ Pending us' rest ps ∧ Written e' s' ts' := by
  obtain ⟨us', e', s', ts', heq, h', he', -⟩ :=
    h.reduce (P := fun _ => True) hops (fun _ _ => trivial) he trivial
      fun x _ => x.acceptsRight_of_postfixStrength_le hs
  exact ⟨us', e', s', ts', heq, h', he'⟩

end Pending

/-! ## Reading well placed tokens -/

open Place Reordering

/-- The state that the reordering is in behind the well placed tokens `us`. -/
inductive Reached : List (Token α) → Place → Reordering α → Prop
  | due {us out : List (Token α)} {held : List Held} {ps : List Parenthesis}
      (h : Pending us held (withContent ps)) : Reached us operandDue ⟨out, held, ps, none⟩
  | named {us out : List (Token α)} {held : List Held} {ps : List Parenthesis} (call : CallHead)
      (h : Pending us held ps) :
    Reached (us ++ [.function call.name call.arity]) callDue ⟨out, held, ps, some call⟩
  | opened {us out : List (Token α)} {held : List Held} {ps : List Parenthesis} (call : CallHead)
      (h : Pending us held ps) :
    Reached (us ++ [.function call.name call.arity, .opening]) callOpened
      ⟨out, .mark :: held, ⟨some call, 0, true⟩ :: ps, none⟩
  | done {us ts out : List (Token α)} {held : List Held} {ps : List Parenthesis} {e : Expr α}
      {s : Nat} (h : Pending us held ps) (he : Written e s ts) (hs : postfixStrength ≤ s) :
    Reached (us ++ ts) operandDone ⟨out, held, ps, none⟩

namespace Reached

variable {us out : List (Token α)} {held : List Held} {ps : List Parenthesis} {s' : Reordering α}
  {t : Token α} {place' : Place}

theorem step_of_due (h : Pending us held (withContent ps))
    (hstep : Step ⟨out, held, ps, none⟩ t s') (hnext : operandDue.next t = some place') :
    Reached (us ++ [t]) place' s' := by
  cases hstep with
  | operand a =>
    cases hnext
    exact .done h (.operand a) (by decide)
  | function name arity =>
    cases hnext
    exact .named ⟨name, arity⟩ h
  | prefixOp op =>
    cases hnext
    refine .due ?_
    rw [withContent_withContent]
    exact h.prefixOp op
  | opening =>
    cases hnext
    exact .due h.group
  | postfixOp op hout => cases hnext
  | infixOp op hops hrest => cases hnext
  | closing hops => cases hnext
  | callClosing call hops hslot harity => cases hnext
  | comma call hops => cases hnext

theorem step_of_opened {call : CallHead} (h : Pending us held ps)
    (hstep : Step ⟨out, .mark :: held, ⟨some call, 0, true⟩ :: ps, none⟩ t s')
    (hnext : callOpened.next t = some place') :
    Reached (us ++ [.function call.name call.arity, .opening] ++ [t]) place' s' := by
  cases t with
  | operand a => exact step_of_due (h.call call) hstep hnext
  | function name arity => exact step_of_due (h.call call) hstep hnext
  | prefixOp op => exact step_of_due (h.call call) hstep hnext
  | opening => exact step_of_due (h.call call) hstep hnext
  | closing =>
    cases hnext
    generalize hheld : Held.mark :: held = held₀ at hstep
    cases hstep with
    | callClosing call hops hslot harity =>
      obtain ⟨rfl, rfl⟩ := Held.append_mark_inj hops hheld
      obtain ⟨name, arity⟩ := call
      obtain rfl : 0 = arity := harity
      rw [List.append_assoc]
      exact .done h (.callNone name) (by decide)
  | postfixOp op => cases hnext
  | infixOp op => cases hnext
  | comma => cases hnext

theorem step_of_done {ts : List (Token α)} {e : Expr α} {s : Nat} (h : Pending us held ps)
    (he : Written e s ts) (hs : postfixStrength ≤ s) (hstep : Step ⟨out, held, ps, none⟩ t s')
    (hnext : operandDone.next t = some place') : Reached (us ++ ts ++ [t]) place' s' := by
  cases hstep with
  | postfixOp op hout =>
    cases hnext
    rw [h.withContent_eq, List.append_assoc]
    exact .done h (.postfixOp op he hs) (by decide)
  | infixOp op hops hrest =>
    cases hnext
    have hleft : op.acceptsLeft s :=
      .inl (Nat.lt_of_lt_of_le op.precedence_lt_prefixStrength (Nat.le_trans (by decide) hs))
    obtain ⟨us', e', s', ts', heq, h', he', hleft'⟩ := h.reduce
      (fun x hx => Held.isOperator_of_yieldsTo (hops x hx))
      (fun x hx => Held.yieldsTo_iff.1 (hops x hx)) he hleft
      fun x _ => x.acceptsRight_of_postfixStrength_le hs
    refine .due ?_
    rw [withContent_withContent, h.withContent_eq, heq, List.append_assoc]
    exact h'.infixOp op he' hleft' fun x hx => Held.yieldsTo_eq_false_iff.1 (hrest x hx)
  | closing hops =>
    cases hnext
    obtain ⟨us', e', s', ts', heq, h', he'⟩ := h.complete hops he hs
    rw [heq]
    cases h' with
    | group h' =>
      rw [List.append_assoc, List.append_assoc]
      exact .done h' he'.group (by decide)
  | callClosing call hops hslot harity =>
    cases hnext
    obtain ⟨us', e', s', ts', heq, h', he'⟩ := h.complete hops he hs
    rw [heq]
    obtain ⟨name, arity⟩ := call
    cases h' with
    | call _ h' =>
      obtain rfl : 1 = arity := harity
      rw [List.append_assoc, List.append_assoc]
      exact .done h' (.call name (.last he')) (by decide)
    | @argument _ _ _ _ es _ h' hargs =>
      have hcall := Written.call name (hargs.snoc he')
      obtain rfl : es.length + 1 = arity := harity
      simp only [List.length_append, List.length_singleton, List.cons_append,
        List.append_assoc] at hcall
      simp only [List.append_assoc, List.cons_append, List.nil_append]
      exact .done h' hcall (by decide)
  | comma call hops =>
    cases hnext
    obtain ⟨us', e', s', ts', heq, h', he'⟩ := h.complete hops he hs
    rw [heq]
    cases h' with
    | call _ h' =>
      have hdue := h'.argument call (.last he')
      refine .due ?_
      simpa [withContent] using hdue
    | argument _ h' hargs =>
      have hdue := h'.argument call (hargs.snoc he')
      refine .due ?_
      simpa [withContent] using hdue
  | operand a => cases hnext
  | function name arity => cases hnext
  | prefixOp op => cases hnext
  | opening => cases hnext

/-- One token that is well placed. -/
theorem step {place : Place} {s : Reordering α} (h : Reached us place s) (hstep : Step s t s')
    (hnext : place.next t = some place') : Reached (us ++ [t]) place' s' := by
  cases h with
  | due h => exact step_of_due h hstep hnext
  | named call h =>
    cases hstep with
    | callOpening =>
      cases hnext
      rw [List.append_assoc]
      exact .opened call h
  | opened call h => exact step_of_opened h hstep hnext
  | done h he hs => exact step_of_done h he hs hstep hnext

/-- A list of tokens that is well placed. -/
theorem feed {place : Place} {s : Reordering α} {ts : List (Token α)} (h : Reached us place s)
    (hfeed : s.feed ts = .ok s') (hafter : place.after ts = some place') :
    Reached (us ++ ts) place' s' := by
  induction ts generalizing us place s with
  | nil =>
    cases hfeed
    cases hafter
    rwa [List.append_nil]
  | cons t ts ih =>
    obtain ⟨middle, hpush, hrest⟩ := bind_eq_ok_iff.1 hfeed
    obtain ⟨place₁, hnext, hafter₁⟩ := Option.bind_eq_some_iff.1 hafter
    have hmiddle := h.step (push_eq_ok_iff_step.1 hpush) hnext
    have hend := ih hmiddle hrest hafter₁
    rwa [List.append_assoc] at hend

end Reached

theorem exists_written_of_toPostfix {ts p : List (Token α)} (h : toPostfix ts = .ok p)
    (hplaced : WellPlaced ts) : ∃ (e : Expr α) (s : Nat), Written e s ts := by
  obtain ⟨last, hfeed, hresult⟩ := bind_eq_ok_iff.1 h
  have hstart : Reached ([] : List (Token α)) operandDue {} := .due .start
  have hlast := hstart.feed hfeed hplaced
  obtain ⟨-, hheld, -⟩ := result_eq_ok_iff.1 hresult
  rw [List.nil_append] at hlast
  generalize ts = ts₀ at hlast
  cases hlast with
  | @done us _ _ held _ _ _ hpending he hs =>
    rw [← List.append_nil held] at hpending
    obtain ⟨us', e', s', ts', heq, h', he'⟩ := hpending.complete hheld he hs
    cases h' with
    | start =>
      rw [heq]
      exact ⟨e', s', he'⟩

/-- Tokens that the reordering accepts write a tree exactly if they are well placed. -/
theorem exists_written_iff_wellPlaced {ts p : List (Token α)} (h : toPostfix ts = .ok p) :
    (∃ (e : Expr α) (s : Nat), Written e s ts) ↔ WellPlaced ts :=
  ⟨fun ⟨_, _, he⟩ => he.wellPlaced, exists_written_of_toPostfix h⟩

/-! ## Formulas with a value -/

/-- A formula with a value writes a tree exactly if its tokens are well placed, and the value is
then that of the tree. -/
theorem exists_written_iff_wellPlaced_of_evaluate [Number α] {table : SymbolTable α}
    {formula : String} {v : α} (h : evaluate table formula = .ok v) :
    ∃ ts, tokenize table formula = .ok ts ∧
      ((∃ (e : Expr α) (s : Nat), Written e s ts) ↔ WellPlaced ts) ∧
      ∀ (e : Expr α) (s : Nat), Written e s ts → e.eval table = .ok v := by
  obtain ⟨p, hparse, hvalue⟩ := bind_eq_ok_iff.1 h
  obtain ⟨ts, htokens, hpostfix⟩ := bind_eq_ok_iff.1 hparse
  refine ⟨ts, htokens, exists_written_iff_wellPlaced hpostfix, fun e s he => ?_⟩
  rw [he.toPostfix_eq_ok, Except.ok.injEq] at hpostfix
  rwa [← hpostfix, Expr.execute_postorder] at hvalue

theorem exists_written_negated_sum_times_two :
    evaluate (SymbolTable.empty : SymbolTable (BoundedInt .w64)) "-(2 + 3) * 2" =
        .ok ⟨-10, by decide, by decide⟩ ∧
      ∃ ts, tokenize (SymbolTable.empty : SymbolTable (BoundedInt .w64)) "-(2 + 3) * 2" = .ok ts ∧
        ∃ (e : Expr (BoundedInt .w64)) (s : Nat), Written e s ts := by
  have hvalue : evaluate (SymbolTable.empty : SymbolTable (BoundedInt .w64)) "-(2 + 3) * 2" =
      .ok ⟨-10, by decide, by decide⟩ := by decide +kernel
  have htokens : tokenize (SymbolTable.empty : SymbolTable (BoundedInt .w64)) "-(2 + 3) * 2" =
      .ok [.prefixOp .negate, .opening, .operand ⟨2, by decide, by decide⟩, .infixOp .add,
        .operand ⟨3, by decide, by decide⟩, .closing, .infixOp .multiply,
        .operand ⟨2, by decide, by decide⟩] := by decide +kernel
  obtain ⟨ts, hts, hwritten, -⟩ := exists_written_iff_wellPlaced_of_evaluate hvalue
  rw [htokens, Except.ok.injEq] at hts
  exact ⟨hvalue, ts, hts ▸ htokens, hwritten.2 (hts ▸ rfl)⟩

/-- A sum whose left operand is missing and that has two right ones still has a value. -/
theorem evaluate_eq_ok_without_left_operand :
    evaluate (SymbolTable.empty : SymbolTable (BoundedInt .w64)) "+ 1 2" =
        .ok ⟨3, by decide, by decide⟩ ∧
      ∃ ts, tokenize (SymbolTable.empty : SymbolTable (BoundedInt .w64)) "+ 1 2" = .ok ts ∧
        ∀ (e : Expr (BoundedInt .w64)) (s : Nat), ¬ Written e s ts := by
  have htokens : tokenize (SymbolTable.empty : SymbolTable (BoundedInt .w64)) "+ 1 2" =
      .ok [.infixOp .add, .operand ⟨1, by decide, by decide⟩,
        .operand ⟨2, by decide, by decide⟩] := by decide +kernel
  refine ⟨by decide +kernel, _, htokens, fun e s he => ?_⟩
  have hplaced := he.wellPlaced
  revert hplaced
  decide

end Formula
