import Formula.Proofs.Reordering.Acceptance

/-!
# No token is lost

At every moment the tokens read so far are in the output, held back as operators, or the names of
calls that are not complete; only parentheses and commas are dropped (`contents_perm_of_feed`).  So
the postfix order of a formula has the same tokens as the formula, in another order
(`toPostfix_perm`).
-/

namespace Formula

variable {α : Type}

/-- Whether a token has a part in the computation.  Parentheses and commas are only written. -/
def Token.isComputed : Token α → Bool
  | opening | closing | comma => false
  | operand _ | function _ _ | infixOp _ | prefixOp _ | postfixOp _ => true

namespace Reordering

/-- The names of the calls whose parentheses are open. -/
def openCalls (ps : List Parenthesis) : List (Token α) :=
  ps.flatMap fun p => CallHead.tokens p.call

/-- All tokens of a state, wherever they are kept. -/
def contents (s : Reordering α) : List (Token α) :=
  CallHead.tokens s.awaited ++ (openCalls s.parentheses ++
    (s.held.filterMap Held.token? ++ s.output))

theorem openCalls_cons (p : Parenthesis) (ps : List Parenthesis) :
    (openCalls (p :: ps) : List (Token α)) = CallHead.tokens p.call ++ openCalls ps :=
  List.flatMap_cons

theorem openCalls_withContent (ps : List Parenthesis) :
    (openCalls (withContent ps) : List (Token α)) = openCalls ps := by
  cases ps <;> rfl

theorem perm_append_cons_append (xs ys : List (Token α)) (t : Token α) (zs : List (Token α)) :
    (xs ++ (ys ++ t :: zs)).Perm (t :: (xs ++ (ys ++ zs))) := by
  rw [← List.append_assoc, ← List.append_assoc]
  exact List.perm_middle

/-- Operators that are put out stay among the contents. -/
theorem perm_release (ops rest : List Held) (out : List (Token α)) :
    (rest.filterMap Held.token? ++ ((ops.filterMap Held.token?).reverse ++ out)).Perm
      ((ops ++ rest).filterMap Held.token? ++ out) := by
  rw [List.filterMap_append, ← List.append_assoc]
  apply List.Perm.append_right
  exact ((List.reverse_perm _).append_left _).trans List.perm_append_comm

/-- One token joins the contents, unless it is a parenthesis or a comma. -/
theorem Step.contents_perm {s s' : Reordering α} {t : Token α} (h : Step s t s') :
    s'.contents.Perm ([t].filter Token.isComputed ++ s.contents) := by
  cases h with
  | operand a | postfixOp op hout =>
    simp only [contents, openCalls_withContent]
    exact perm_append_cons_append _ _ _ _
  | function name arity =>
    simp only [contents, openCalls_withContent]
    exact List.Perm.refl _
  | prefixOp op =>
    simp only [contents, openCalls_withContent]
    exact List.perm_middle
  | @infixOp out ops rest ps op hops hrest =>
    simp only [contents, openCalls_withContent]
    exact List.perm_middle.trans (((perm_release ops rest out).append_left _).cons _)
  | opening =>
    simp only [contents, openCalls_cons, openCalls_withContent]
    exact List.Perm.refl _
  | callOpening call => exact List.Perm.refl _
  | @closing out ops below ps n slotIsEmpty hops =>
    exact (perm_release ops (.mark :: below) out).append_left _
  | @callClosing out ops below ps n slotIsEmpty call hops hslot harity =>
    refine (perm_append_cons_append _ _ _ _).trans ?_
    exact ((perm_release ops (.mark :: below) out).append_left _).cons _
  | @comma out ops below ps n call hops =>
    exact (perm_release ops (.mark :: below) out).append_left _

theorem contents_perm_of_feed {s s' : Reordering α} {ts : List (Token α)}
    (h : s.feed ts = .ok s') : s'.contents.Perm (ts.filter Token.isComputed ++ s.contents) := by
  induction ts generalizing s with
  | nil =>
    cases h
    exact List.Perm.refl _
  | cons t ts ih =>
    obtain ⟨m, hpush, hrest⟩ := bind_eq_ok_iff.1 h
    have hstep := (push_eq_ok_iff_step.1 hpush).contents_perm
    have hsplit : (t :: ts).filter Token.isComputed =
        [t].filter Token.isComputed ++ ts.filter Token.isComputed := List.filter_append [t] ts
    rw [hsplit, List.append_assoc]
    refine (ih hrest).trans ((hstep.append_left _).trans ?_)
    exact List.perm_append_comm_assoc _ _ _

end Reordering

open Reordering

/-- The postfix order of tokens has all of them but the parentheses and the commas. -/
theorem toPostfix_perm {ts p : List (Token α)} (h : toPostfix ts = .ok p) :
    p.Perm (ts.filter Token.isComputed) := by
  obtain ⟨s, hfeed, hresult⟩ := bind_eq_ok_iff.1 h
  have hmarks := count_mark_eq_of_feed hfeed
  have hcontents := contents_perm_of_feed hfeed
  obtain ⟨hawaited, hheld, rfl⟩ := result_eq_ok_iff.1 hresult
  -- No parenthesis is open at the end, since no mark is left.
  rw [count_mark_eq_zero hheld] at hmarks
  have hps := List.eq_nil_of_length_eq_zero hmarks.symm
  rw [contents, hawaited, hps] at hcontents
  refine ((List.reverse_perm _).append_right _).trans (List.perm_append_comm.trans ?_)
  simpa [contents, CallHead.tokens, openCalls] using hcontents

theorem mem_toPostfix_iff {ts p : List (Token α)} (h : toPostfix ts = .ok p) {t : Token α} :
    t ∈ p ↔ t ∈ ts ∧ t.isComputed = true := by
  rw [(toPostfix_perm h).mem_iff, List.mem_filter]

end Formula
