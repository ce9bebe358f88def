import Formula.Proofs.Reordering.Step

/-!
# What the reordering leaves alone

The reordering works at the top of its state.  A run from the start goes the same way on top of a
state whose topmost operator is a mark (`feed_above`): nothing that is held below the mark moves,
and no parenthesis below it is counted.  Conversely, what already stands in the output is never
looked at again, except that a postfix operator needs some output (`exists_feed_onto`).
-/

namespace Formula

variable {α : Type}

namespace Reordering

/-! ## Marks and parentheses -/

theorem count_mark_eq_zero {ops : List Held} (hops : ∀ h ∈ ops, h.isOperator = true) :
    ops.count .mark = 0 := by
  rw [List.count_eq_zero]
  intro hmem
  exact Bool.false_ne_true (hops .mark hmem)

theorem length_withContent (ps : List Parenthesis) : (withContent ps).length = ps.length := by
  cases ps <;> rfl

theorem Step.count_mark_eq {s s' : Reordering α} {t : Token α} (h : Step s t s')
    (hs : s.held.count .mark = s.parentheses.length) :
    s'.held.count .mark = s'.parentheses.length := by
  cases h with
  | operand a => simpa [length_withContent] using hs
  | function name arity => simpa [length_withContent] using hs
  | prefixOp op => simpa [length_withContent] using hs
  | postfixOp op hout => simpa [length_withContent] using hs
  | infixOp op hops hrest =>
    have hzero := count_mark_eq_zero fun x hx => Held.isOperator_of_yieldsTo (hops x hx)
    simpa [length_withContent, hzero] using hs
  | opening => simpa [length_withContent] using hs
  | callOpening call => simpa using hs
  | closing hops => simpa [count_mark_eq_zero hops] using hs
  | callClosing call hops hslot harity => simpa [count_mark_eq_zero hops] using hs
  | comma call hops => simpa [count_mark_eq_zero hops] using hs

/-- There is a mark for each open parenthesis. -/
theorem count_mark_eq_of_feed {s : Reordering α} {ts : List (Token α)}
    (h : ({} : Reordering α).feed ts = .ok s) : s.held.count .mark = s.parentheses.length :=
  feed_induction (P := fun s => s.held.count .mark = s.parentheses.length)
    (fun _ _ _ hstep hs => hstep.count_mark_eq hs) rfl h

/-! ## On top of another state -/

/-- The state `s` on top of the state `c`. -/
def above (s c : Reordering α) : Reordering α where
  output := s.output ++ c.output
  held := s.held ++ c.held
  parentheses := s.parentheses ++ c.parentheses
  awaited := s.awaited

theorem withContent_append (ps : List Parenthesis) {qs : List Parenthesis}
    (hqs : withContent qs = qs) : withContent (ps ++ qs) = withContent ps ++ qs := by
  cases ps with
  | nil => exact hqs
  | cons p ps => rfl

theorem Step.above {s s' c : Reordering α} {t : Token α} (h : Step s t s')
    (hheld : ∀ x ∈ c.held.head?, x = .mark) (hps : withContent c.parentheses = c.parentheses) :
    Step (s.above c) t (s'.above c) := by
  cases h with
  | operand a =>
    rw [Reordering.above, Reordering.above, ← withContent_append _ hps]
    exact .operand a
  | function name arity =>
    rw [Reordering.above, Reordering.above, ← withContent_append _ hps]
    exact .function name arity
  | prefixOp op =>
    rw [Reordering.above, Reordering.above, ← withContent_append _ hps]
    exact .prefixOp op
  | postfixOp op hout =>
    rw [Reordering.above, Reordering.above, ← withContent_append _ hps]
    exact .postfixOp op (List.append_ne_nil_of_left_ne_nil hout _)
  | @infixOp out ops rest ps op hops hrest =>
    simp only [Reordering.above, ← withContent_append _ hps, List.append_assoc]
    refine .infixOp op hops fun x hx => ?_
    cases rest with
    | nil =>
      rw [hheld x hx]
      rfl
    | cons y rest => exact hrest x hx
  | opening =>
    simp only [Reordering.above, List.cons_append, ← withContent_append _ hps]
    exact .opening
  | callOpening call => exact .callOpening call
  | closing hops =>
    simp only [Reordering.above, List.cons_append, List.append_assoc]
    exact .closing hops
  | callClosing call hops hslot harity =>
    simp only [Reordering.above, List.cons_append, List.append_assoc]
    exact .callClosing call hops hslot harity
  | comma call hops =>
    simp only [Reordering.above, List.cons_append, List.append_assoc]
    exact .comma call hops

theorem feed_above {s s' c : Reordering α} {ts : List (Token α)} (h : s.feed ts = .ok s')
    (hheld : ∀ x ∈ c.held.head?, x = .mark) (hps : withContent c.parentheses = c.parentheses) :
    (s.above c).feed ts = .ok (s'.above c) := by
  induction ts generalizing s with
  | nil =>
    cases h
    rfl
  | cons t ts ih =>
    obtain ⟨middle, hpush, hrest⟩ := bind_eq_ok_iff.1 h
    rw [((push_eq_ok_iff_step.1 hpush).above hheld hps).feed_cons]
    exact ih hrest

/-- A first token that can begin a formula marks the parenthesis around it as one with content. -/
theorem push_noteContent {s m : Reordering α} {t : Token α} (hs : s.awaited = none)
    (ht : ({} : Reordering α).push t = .ok m) : s.noteContent.push t = s.push t := by
  obtain ⟨out, held, ps, awaited⟩ := s
  obtain rfl : awaited = none := hs
  have hidem : noteContent ⟨out, held, withContent ps, none⟩ =
      noteContent ⟨out, held, ps, none⟩ := by
    rw [noteContent_eq, noteContent_eq, withContent_withContent]
  rw [noteContent_eq]
  cases t with
  | operand a => simp only [push, hidem]
  | function name arity => simp only [push, hidem]
  | prefixOp op => simp only [push, hidem]
  | postfixOp op => simp only [push, hidem]
  | infixOp op => simp only [push, hidem]
  | opening => simp only [push, hidem]
  | closing => cases ht
  | comma => cases ht

/-- The tokens `ts`, which have a result of their own, between a mark and the end of its
parenthesis or argument. -/
theorem exists_feed_of_toPostfix {ts p : List (Token α)} (hp : toPostfix ts = .ok p) (hne : p ≠ [])
    (out : List (Token α)) (below : List Held) (ps : List Parenthesis) :
    ∃ top ops, (∀ h ∈ ops, h.isOperator = true) ∧
      (ops.filterMap Held.token?).reverse ++ top = p.reverse ∧
      feed ⟨out, .mark :: below, ps, none⟩ ts =
        .ok ⟨top ++ out, ops ++ .mark :: below, withContent ps, none⟩ := by
  obtain ⟨last, hfeed, hresult⟩ := bind_eq_ok_iff.1 hp
  obtain ⟨hawaited, hheld, hout⟩ := result_eq_ok_iff.1 hresult
  -- No mark is left at the end, and so no parenthesis.
  have hmarks := count_mark_eq_of_feed hfeed
  rw [count_mark_eq_zero hheld] at hmarks
  have hps := List.eq_nil_of_length_eq_zero hmarks.symm
  obtain ⟨top, ops, _, _⟩ := last
  obtain rfl : _ = none := hawaited
  obtain rfl : _ = [] := hps
  refine ⟨top, ops, hheld, ?_, ?_⟩
  · rw [← hout, List.reverse_append, List.reverse_reverse]
  · cases ts with
    | nil =>
      cases hfeed
      exact absurd hout.symm hne
    | cons t ts =>
      obtain ⟨m, hpush, -⟩ := bind_eq_ok_iff.1 hfeed
      have habove := feed_above (c := ⟨out, .mark :: below, withContent ps, none⟩) hfeed
        (fun x hx => (Option.some.inj hx).symm) (withContent_withContent ps)
      rw [feed_cons, ← push_noteContent rfl hpush, noteContent_eq]
      exact habove

/-! ## On top of other output -/

/-- The state `s` with the tokens `out` in the output before its own. -/
def onto (s : Reordering α) (out : List (Token α)) : Reordering α :=
  { s with output := s.output ++ out }

theorem noteContent_onto (s : Reordering α) (out : List (Token α)) :
    (s.onto out).noteContent = s.noteContent.onto out := by
  rw [noteContent_eq, noteContent_eq]
  rfl

theorem release_onto (s : Reordering α) (out : List (Token α)) (p : Held → Bool) :
    (s.onto out).release p = (s.release p).onto out := by
  simp only [release, onto, List.append_assoc]

theorem closeParenthesis_onto (s : Reordering α) (out : List (Token α)) :
    (s.onto out).closeParenthesis = s.closeParenthesis.map fun m => m.onto out := by
  simp only [closeParenthesis, release_onto]
  generalize s.release Held.isOperator = s
  obtain ⟨top, held, ps, awaited⟩ := s
  rcases held with _ | ⟨h, held⟩
  · rfl
  rcases ps with _ | ⟨⟨_ | call, n, slotIsEmpty⟩, ps⟩
  · rfl
  · rfl
  · simp only [onto]
    split
    · rfl
    · split
      · rfl
      · rfl

theorem nextArgument_onto (s : Reordering α) (out : List (Token α)) :
    (s.onto out).nextArgument = s.nextArgument.map fun m => m.onto out := by
  simp only [nextArgument, release_onto]
  generalize s.release Held.isOperator = s
  obtain ⟨top, held, ps, awaited⟩ := s
  rcases held with _ | ⟨h, held⟩
  · rfl
  rcases ps with _ | ⟨⟨_ | call, n, slotIsEmpty⟩, ps⟩
  · rfl
  · rfl
  · cases slotIsEmpty with
    | true => rfl
    | false => rfl

theorem result_onto (s : Reordering α) (out : List (Token α)) :
    (s.onto out).result = s.result.map fun q => out.reverse ++ q := by
  obtain ⟨top, held, ps, _ | call⟩ := s
  · have hrelease := release_onto ⟨top, held, ps, none⟩ out Held.isOperator
    simp only [onto] at hrelease
    simp only [result, onto, hrelease]
    split
    · simp [Except.map]
    · rfl
  · rfl

theorem awaited_onto (s : Reordering α) (out : List (Token α)) :
    (s.onto out).awaited = s.awaited :=
  rfl

/-- One token does the same on top of any output that is not empty, also where it fails. -/
theorem exists_push_onto (s : Reordering α) (t : Token α) :
    ∃ r : Except Failure (Reordering α), ∀ out : List (Token α), out ≠ [] →
      (s.onto out).push t = r.map fun m => m.onto out := by
  cases hs : s.awaited with
  | none =>
    cases t with
    | operand a =>
      refine ⟨.ok (s.noteContent.emit (.operand a)), fun out _ => ?_⟩
      simp only [push, awaited_onto, hs, noteContent_onto]
      rfl
    | function name arity =>
      refine ⟨.ok { s.noteContent with awaited := some ⟨name, arity⟩ }, fun out _ => ?_⟩
      simp only [push, awaited_onto, hs, noteContent_onto]
      rfl
    | prefixOp op =>
      refine ⟨.ok (s.noteContent.hold (.prefixOp op)), fun out _ => ?_⟩
      simp only [push, awaited_onto, hs, noteContent_onto]
      rfl
    | postfixOp op =>
      -- No other token asks whether there is output.
      refine ⟨.ok (s.noteContent.emit (.postfixOp op)), fun out hout => ?_⟩
      have houtput : (s.onto out).output.isEmpty = false :=
        List.isEmpty_eq_false_iff.2 (List.append_ne_nil_of_right_ne_nil s.output hout)
      simp only [push, awaited_onto, hs, houtput, noteContent_onto]
      rfl
    | infixOp op =>
      refine ⟨.ok ((s.noteContent.release (Held.yieldsTo op)).hold (.infixOp op)), fun out _ => ?_⟩
      simp only [push, awaited_onto, hs, noteContent_onto, release_onto]
      rfl
    | opening =>
      refine ⟨.ok (s.noteContent.openParenthesis none), fun out _ => ?_⟩
      simp only [push, awaited_onto, hs, noteContent_onto]
      rfl
    | closing =>
      refine ⟨s.closeParenthesis, fun out _ => ?_⟩
      simp only [push, awaited_onto, hs, closeParenthesis_onto]
    | comma =>
      refine ⟨s.nextArgument, fun out _ => ?_⟩
      simp only [push, awaited_onto, hs, nextArgument_onto]
  | some call =>
    by_cases ht : t = .opening
    · subst ht
      refine ⟨.ok (s.openParenthesis (some call)), fun out _ => ?_⟩
      simp only [push, awaited_onto, hs]
      rfl
    · refine ⟨.error (.unexpectedName call.name), fun out _ => ?_⟩
      simp only [push, awaited_onto, hs]
      rfl

theorem exists_feed_onto (s : Reordering α) (ts : List (Token α)) :
    ∃ r : Except Failure (Reordering α), ∀ out : List (Token α), out ≠ [] →
      (s.onto out).feed ts = r.map fun m => m.onto out := by
  induction ts generalizing s with
  | nil => exact ⟨.ok s, fun _ _ => rfl⟩
  | cons t ts ih =>
    obtain ⟨rpush, hpush⟩ := exists_push_onto s t
    cases rpush with
    | error f =>
      refine ⟨.error f, fun out hout => ?_⟩
      rw [feed_cons, hpush out hout]
      rfl
    | ok m =>
      obtain ⟨r, hr⟩ := ih m
      refine ⟨r, fun out hout => ?_⟩
      rw [feed_cons, hpush out hout, ← hr out hout]
      rfl

/-- The tokens `ts` lead to the same end of the result, or the same failure, on top of any output
that is not empty. -/
theorem exists_result_onto (s : Reordering α) (ts : List (Token α)) :
    ∃ r : Except Failure (List (Token α)), ∀ out : List (Token α), out ≠ [] →
      ((s.onto out).feed ts >>= result) = r.map fun q => out.reverse ++ q := by
  obtain ⟨rfeed, hfeed⟩ := exists_feed_onto s ts
  cases rfeed with
  | error f =>
    refine ⟨.error f, fun out hout => ?_⟩
    rw [hfeed out hout]
    rfl
  | ok m =>
    refine ⟨m.result, fun out hout => ?_⟩
    rw [hfeed out hout, ← result_onto]
    rfl

end Reordering

end Formula
