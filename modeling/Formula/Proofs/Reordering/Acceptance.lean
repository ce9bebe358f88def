import Formula.Proofs.Grouping
import Formula.Proofs.Reordering.Frame

/-!
# Which tokens can be put into postfix order

Behind tokens that have been read, the open parentheses of the reordering are those of the tokens,
each with the slots that are filled so far (`Enclosed`).  So a token is refused exactly where it
breaks one of the conditions of `Grouped` (`exists_feed_iff_groupable`).
-/

namespace Formula

variable {α : Type}

/-! ## Open parentheses -/

theorem Slots.slotsFilled_iff {inner current : List (Token α)} {filled : List (List (Token α))}
    (h : Slots inner (filled ++ [current])) (hfilled : ∀ slot ∈ filled, slot ≠ []) :
    SlotsFilled inner ↔ current.isEmpty = false := by
  rw [List.isEmpty_eq_false_iff]
  constructor
  · rintro ⟨slots, hslots, hne⟩
    exact hne current (by simp [hslots.unique h])
  · intro hcurrent
    refine ⟨filled ++ [current], h, fun slot hslot => ?_⟩
    rcases List.mem_append.1 hslot with hslot | hlast
    · exact hfilled slot hslot
    · rwa [List.mem_singleton.1 hlast]

/-- What the reordering knows about a call decides whether its arguments are right. -/
theorem Slots.supplies_iff {inner current : List (Token α)} {filled : List (List (Token α))}
    (h : Slots inner (filled ++ [current])) (hfilled : ∀ slot ∈ filled, slot ≠ [])
    (call : Option CallHead) (arity : Nat) :
    Supplies inner arity ↔ (current.isEmpty = true → filled.length = 0) ∧
      Parenthesis.arguments ⟨call, filled.length, current.isEmpty⟩ = arity := by
  constructor
  · rintro (⟨rfl, rfl⟩ | ⟨slots, hslots, hne, rfl⟩)
    · obtain ⟨rfl, hcurrent⟩ := List.append_eq_singleton_iff.1 (h.unique slots_nil) |>.resolve_right
        (by simp)
      obtain rfl := List.singleton_inj.1 hcurrent
      simp [Parenthesis.arguments]
    · obtain rfl := hslots.unique h
      have hcurrent : current.isEmpty = false := by simpa using hne current (by simp)
      simp [Parenthesis.arguments, hcurrent]
  · rintro ⟨hnone, rfl⟩
    by_cases hcurrent : current = []
    · subst hcurrent
      obtain rfl := List.eq_nil_of_length_eq_zero (hnone rfl)
      exact .inl ⟨by simpa using h.eq_intercalate, rfl⟩
    · have hfull : current.isEmpty = false := by simpa using hcurrent
      obtain ⟨slots, hslots, hne⟩ := (h.slotsFilled_iff hfilled).2 hfull
      refine .inr ⟨slots, hslots, hne, ?_⟩
      simp [hslots.unique h, Parenthesis.arguments, hfull]

/-- The tokens before a parenthesis that belong to it. -/
def CallHead.tokens : Option CallHead → List (Token α)
  | none => []
  | some call => [.function call.name call.arity]

/-- The parentheses `ps` are those that are open behind the tokens `us`.  Each belongs to the
function name directly before it, if there is one, and has counted the slots that are filled. -/
inductive Enclosed : List Parenthesis → List (Token α) → Prop
  | outside {us : List (Token α)} (h : Balanced us) : Enclosed [] us
  | inside {ps : List Parenthesis} {us inner current : List (Token α)}
      {filled : List (List (Token α))} (call : Option CallHead) (h : Enclosed ps us)
      (hcall : call = none → ¬ EndsInFunction us) (hslots : Slots inner (filled ++ [current]))
      (hfilled : ∀ slot ∈ filled, slot ≠ []) :
      Enclosed (⟨call, filled.length, current.isEmpty⟩ :: withContent ps)
        (us ++ (CallHead.tokens call ++ .opening :: inner))

namespace Enclosed

open Reordering

theorem depth_eq {ps : List Parenthesis} {us : List (Token α)} (h : Enclosed ps us) :
    depth us = ps.length := by
  induction h with
  | outside h => exact h.depth_eq
  | @inside ps us inner current filled call h hcall hslots hfilled ih =>
    have htokens : depth (CallHead.tokens call : List (Token α)) = 0 := by
      cases call <;> rfl
    simp only [depth_append, depth_cons, ih, htokens, hslots.balanced.depth_eq, Token.weight,
      List.length_cons, length_withContent]
    omega

/-- Tokens that leave the open parentheses alone give the innermost one content. -/
theorem append {ps : List Parenthesis} {us block : List (Token α)} (h : Enclosed ps us)
    (hblock : IsSlot block) (hne : block ≠ []) : Enclosed (withContent ps) (us ++ block) := by
  cases h with
  | outside h => exact .outside (h.append hblock.balanced)
  | inside call h hcall hslots hfilled =>
    have happend := inside call h hcall (hslots.append hblock) hfilled
    rw [List.isEmpty_eq_false_iff.2 (List.append_ne_nil_of_right_ne_nil _ hne)] at happend
    simpa [withContent] using happend

theorem concat {ps : List Parenthesis} {us : List (Token α)} {t : Token α} (h : Enclosed ps us)
    (hweight : t.weight = 0) (ht : t ≠ .comma) : Enclosed (withContent ps) (us ++ [t]) :=
  h.append (isSlot_singleton hweight ht) (by simp)

/-- A parenthesis that has just been opened has one slot, which is empty. -/
theorem openParenthesis {ps : List Parenthesis} {us : List (Token α)} (call : Option CallHead)
    (h : Enclosed ps us) (hcall : call = none → ¬ EndsInFunction us) :
    Enclosed (⟨call, 0, true⟩ :: withContent ps) (us ++ (CallHead.tokens call ++ [.opening])) := by
  have hslots : Slots ([] : List (Token α)) ([] ++ [[]]) := slots_nil
  exact .inside call h hcall hslots (by simp)

theorem comma {call : Option CallHead} {n : Nat} {ps : List Parenthesis} {us : List (Token α)}
    (h : Enclosed (⟨call, n, false⟩ :: ps) us) :
    Enclosed (⟨call, n + 1, true⟩ :: ps) (us ++ [.comma]) := by
  generalize hp : (⟨call, n, false⟩ : Parenthesis) = p at h
  cases h with
  | @inside ps us inner current filled call h hcall hslots hfilled =>
    obtain ⟨rfl, rfl, hcurrent⟩ := Parenthesis.mk.inj hp
    obtain ⟨slots, hslots', hne⟩ := (hslots.slotsFilled_iff hfilled).2 hcurrent.symm
    obtain rfl := hslots'.unique hslots
    simpa using inside call h hcall hslots.comma hne

theorem close {p : Parenthesis} {ps : List Parenthesis} {us : List (Token α)}
    (h : Enclosed (p :: ps) us) : Enclosed ps (us ++ [.closing]) := by
  cases h with
  | @inside ps us inner current filled call h hcall hslots hfilled =>
    have hgroup : IsSlot (.opening :: inner ++ [.closing]) := isSlot_group hslots.balanced
    cases call with
    | none => simpa [CallHead.tokens] using h.append hgroup (by simp)
    | some call =>
      have hname : IsSlot [(.function call.name call.arity : Token α)] :=
        isSlot_singleton rfl (by simp)
      simpa [CallHead.tokens] using h.append (hname.append hgroup) (by simp)

/-- If the innermost open parenthesis is that of a call, its slots are counted. -/
theorem innermost {p : Parenthesis} {ps : List Parenthesis} {pre inner : List (Token α)}
    {name : String} {arity : Nat}
    (h : Enclosed (p :: ps) (pre ++ .function name arity :: .opening :: inner))
    (hinner : Balanced inner) :
    ∃ filled current, Slots inner (filled ++ [current]) ∧ (∀ slot ∈ filled, slot ≠ []) ∧
      p = ⟨some ⟨name, arity⟩, filled.length, current.isEmpty⟩ := by
  generalize hts : pre ++ .function name arity :: .opening :: inner = ts at h
  cases h with
  | @inside ps us inner' current filled call h hcall hslots hfilled =>
    rw [List.append_cons, ← List.append_assoc] at hts
    obtain ⟨hpre, rfl⟩ := eq_of_append_opening_eq hinner hslots.balanced hts
    cases call with
    | none =>
      rw [CallHead.tokens, List.append_nil] at hpre
      exact absurd ⟨pre, name, arity, hpre.symm⟩ (hcall rfl)
    | some call =>
      have hname := List.singleton_inj.1 (List.append_inj' hpre rfl).2
      obtain ⟨rfl, rfl⟩ := Token.function.inj hname
      exact ⟨filled, current, hslots, hfilled, rfl⟩

/-- The innermost open parenthesis stands behind the function name that it belongs to. -/
theorem exists_call {call : CallHead} {n : Nat} {slotIsEmpty : Bool} {ps : List Parenthesis}
    {us : List (Token α)} (h : Enclosed (⟨some call, n, slotIsEmpty⟩ :: ps) us) :
    ∃ pre name arity inner, us = pre ++ .function name arity :: .opening :: inner ∧
      Balanced inner := by
  generalize hp : (⟨some call, n, slotIsEmpty⟩ : Parenthesis) = p at h
  cases h with
  | @inside ps us inner current filled call' h hcall hslots hfilled =>
    obtain ⟨rfl, -, -⟩ := Parenthesis.mk.inj hp
    exact ⟨us, call.name, call.arity, inner, rfl, hslots.balanced⟩

end Enclosed

/-! ## From token to token -/

theorem not_endsInFunction_nil : ¬ EndsInFunction ([] : List (Token α)) := by
  rintro ⟨pre, name, arity, heq⟩
  simp at heq

theorem not_endsInFunction_concat {us : List (Token α)} {t : Token α}
    (ht : ∀ name arity, t ≠ .function name arity) : ¬ EndsInFunction (us ++ [t]) := by
  rintro ⟨pre, name, arity, heq⟩
  exact ht name arity (List.singleton_inj.1 (List.append_inj' heq rfl).2)

namespace Reordering

/-- The state `s` is one behind the tokens `us`, as far as parentheses are concerned. -/
inductive Tracks : List (Token α) → Reordering α → Prop
  | settled {us out : List (Token α)} {held : List Held} {ps : List Parenthesis}
      (h : Enclosed ps us) (hlast : ¬ EndsInFunction us) : Tracks us ⟨out, held, ps, none⟩
  | awaiting {us out : List (Token α)} {held : List Held} {ps outer : List Parenthesis}
      (call : CallHead) (h : Enclosed outer us) (hps : ps = withContent outer) :
      Tracks (us ++ [.function call.name call.arity]) ⟨out, held, ps, some call⟩

theorem Tracks.step {us : List (Token α)} {s s' : Reordering α} {t : Token α} (h : Tracks us s)
    (hstep : Step s t s') : Tracks (us ++ [t]) s' := by
  cases h with
  | settled h hlast =>
    cases hstep with
    | operand a => exact .settled (h.concat rfl (by simp)) (not_endsInFunction_concat (by simp))
    | function name arity => exact .awaiting ⟨name, arity⟩ h rfl
    | prefixOp op => exact .settled (h.concat rfl (by simp)) (not_endsInFunction_concat (by simp))
    | postfixOp op hout =>
      exact .settled (h.concat rfl (by simp)) (not_endsInFunction_concat (by simp))
    | infixOp op hops hrest =>
      exact .settled (h.concat rfl (by simp)) (not_endsInFunction_concat (by simp))
    | opening =>
      exact .settled (h.openParenthesis none fun _ => hlast) (not_endsInFunction_concat (by simp))
    | closing hops => exact .settled h.close (not_endsInFunction_concat (by simp))
    | callClosing call hops hslot harity =>
      exact .settled h.close (not_endsInFunction_concat (by simp))
    | comma call hops => exact .settled h.comma (not_endsInFunction_concat (by simp))
  | awaiting call h hps =>
    cases hstep with
    | callOpening call =>
      refine .settled ?_ (not_endsInFunction_concat (by simp))
      simpa [hps, CallHead.tokens] using h.openParenthesis (some call) (by simp)

theorem Groupable.next_of_weight_eq_zero {us : List (Token α)} {t : Token α} (h : Nested us)
    (hlast : ¬ EndsInFunction us) (hweight : t.weight = 0) (ht : t ≠ .comma) :
    Groupable.Next us t := by
  refine ⟨?_, fun hends => absurd hends hlast, fun hcomma => absurd hcomma ht,
    fun hcomma => absurd hcomma ht, ?_⟩
  · rw [hweight, Int.add_zero]
    exact h.depth_nonneg
  · rintro rfl
    cases hweight

/-- A token that is accepted breaks no condition. -/
theorem Tracks.next_of_step {us : List (Token α)} {s s' : Reordering α} {t : Token α}
    (h : Tracks us s) (hnested : Nested us) (hstep : Step s t s') : Groupable.Next us t := by
  have hnonneg := hnested.depth_nonneg
  cases h with
  | settled h hlast =>
    have hends : EndsInFunction us → t = .opening := fun hends => absurd hends hlast
    cases hstep with
    | operand a => exact Groupable.next_of_weight_eq_zero hnested hlast rfl (by simp)
    | function name arity => exact Groupable.next_of_weight_eq_zero hnested hlast rfl (by simp)
    | prefixOp op => exact Groupable.next_of_weight_eq_zero hnested hlast rfl (by simp)
    | postfixOp op hout => exact Groupable.next_of_weight_eq_zero hnested hlast rfl (by simp)
    | infixOp op hops hrest => exact Groupable.next_of_weight_eq_zero hnested hlast rfl (by simp)
    | opening =>
      refine ⟨?_, hends, by simp, by simp, by simp⟩
      rw [Token.weight]
      omega
    | closing hops =>
      have hdepth := h.depth_eq
      rw [List.length_cons] at hdepth
      refine ⟨?_, hends, by simp, by simp, ?_⟩
      · rw [Token.weight]
        omega
      · rintro - pre name arity inner rfl hinner
        obtain ⟨filled, current, -, -, hp⟩ := h.innermost hinner
        cases (Parenthesis.mk.inj hp).1
    | callClosing call hops hslot harity =>
      have hdepth := h.depth_eq
      rw [List.length_cons] at hdepth
      refine ⟨?_, hends, by simp, by simp, ?_⟩
      · rw [Token.weight]
        omega
      · rintro - pre name arity inner rfl hinner
        obtain ⟨filled, current, hslots, hfilled, hp⟩ := h.innermost hinner
        obtain ⟨hcall, rfl, rfl⟩ := Parenthesis.mk.inj hp
        obtain rfl := Option.some.inj hcall
        exact (hslots.supplies_iff hfilled _ arity).2 ⟨hslot, harity⟩
    | comma call hops =>
      refine ⟨?_, hends, fun _ => h.exists_call, ?_, by simp⟩
      · change 0 ≤ depth us + 0
        omega
      · rintro - pre name arity inner rfl hinner
        obtain ⟨filled, current, hslots, hfilled, hp⟩ := h.innermost hinner
        obtain ⟨-, -, hcurrent⟩ := Parenthesis.mk.inj hp
        exact (hslots.slotsFilled_iff hfilled).2 hcurrent.symm
  | awaiting call h hps =>
    cases hstep with
    | callOpening call =>
      refine ⟨?_, fun _ => rfl, by simp, by simp, by simp⟩
      rw [Token.weight]
      omega

theorem exists_eq_append_mark {held : List Held} (h : 0 < held.count .mark) :
    ∃ ops below, held = ops ++ .mark :: below ∧ ∀ x ∈ ops, x.isOperator = true := by
  obtain ⟨ops, rest, rfl, hops, rfl | ⟨below, rfl⟩⟩ := Held.exists_split_isOperator held
  · rw [List.append_nil, count_mark_eq_zero hops] at h
    exact absurd h (Nat.lt_irrefl 0)
  · exact ⟨ops, below, rfl, hops⟩

theorem exists_step_closing {us out : List (Token α)} {held : List Held} {p : Parenthesis}
    {ps : List Parenthesis} (h : Enclosed (p :: ps) us) (hnext : Groupable.Next us .closing)
    (hmarks : 0 < held.count .mark) : ∃ s', Step ⟨out, held, p :: ps, none⟩ .closing s' := by
  obtain ⟨ops, below, rfl, hops⟩ := exists_eq_append_mark hmarks
  obtain ⟨_ | call, n, slotIsEmpty⟩ := p
  · exact ⟨_, .closing hops⟩
  · obtain ⟨pre, name, arity, inner, rfl, hinner⟩ := h.exists_call
    obtain ⟨filled, current, hslots, hfilled, hp⟩ := h.innermost hinner
    obtain ⟨hcall, rfl, rfl⟩ := Parenthesis.mk.inj hp
    obtain rfl := Option.some.inj hcall
    obtain ⟨hslot, harity⟩ := (hslots.supplies_iff hfilled _ arity).1
      (hnext.supplied rfl pre name arity inner rfl hinner)
    exact ⟨_, .callClosing ⟨name, arity⟩ hops hslot harity⟩

theorem exists_step_comma {us out : List (Token α)} {held : List Held} {p : Parenthesis}
    {ps : List Parenthesis} (h : Enclosed (p :: ps) us) (hnext : Groupable.Next us .comma)
    (hmarks : 0 < held.count .mark) : ∃ s', Step ⟨out, held, p :: ps, none⟩ .comma s' := by
  obtain ⟨ops, below, rfl, hops⟩ := exists_eq_append_mark hmarks
  obtain ⟨pre, name, arity, inner, rfl, hinner⟩ := hnext.separated rfl
  obtain ⟨filled, current, hslots, hfilled, rfl⟩ := h.innermost hinner
  have hcurrent := (hslots.slotsFilled_iff hfilled).1
    (hnext.filled rfl pre name arity inner rfl hinner)
  rw [hcurrent]
  exact ⟨_, .comma ⟨name, arity⟩ hops⟩

/-- A token that breaks no condition is accepted. -/
theorem Tracks.exists_step {us : List (Token α)} {s : Reordering α} {t : Token α}
    (h : Tracks us s) (hnext : Groupable.Next us t)
    (hmarks : s.held.count .mark = s.parentheses.length)
    (hout : ∀ op, t = .postfixOp op → s.output ≠ []) : ∃ s', Step s t s' := by
  cases h with
  | @settled us out held ps h hlast =>
    cases t with
    | operand a => exact ⟨_, .operand a⟩
    | function name arity => exact ⟨_, .function name arity⟩
    | prefixOp op => exact ⟨_, .prefixOp op⟩
    | postfixOp op => exact ⟨_, .postfixOp op (hout op rfl)⟩
    | infixOp op => exact ⟨_, push_eq_ok_iff_step.1 rfl⟩
    | opening => exact ⟨_, .opening⟩
    | closing =>
      cases ps with
      | nil =>
        have hdepth := hnext.depth_nonneg
        rw [h.depth_eq, List.length_nil, Token.weight] at hdepth
        omega
      | cons p ps => exact exists_step_closing h hnext (by simp [hmarks])
    | comma =>
      cases ps with
      | nil =>
        obtain ⟨pre, name, arity, inner, rfl, hinner⟩ := hnext.separated rfl
        cases h with
        | outside h =>
          rw [List.append_cons] at h
          exact absurd rfl (hinner.ne_append_opening _ h)
      | cons p ps => exact exists_step_comma h hnext (by simp [hmarks])
  | awaiting call h hps =>
    obtain rfl := hnext.named ⟨_, _, _, rfl⟩
    exact ⟨_, .callOpening call⟩

/-! ## Lists of tokens -/

theorem tracks_of_feed {us : List (Token α)} {s : Reordering α}
    (h : ({} : Reordering α).feed us = .ok s) : Tracks us s :=
  feed_start_induction (.settled (.outside balanced_nil) not_endsInFunction_nil)
    (fun _ _ _ _ _ hstep hs => hs.step hstep) h

/-- At the end, the parentheses of the tokens and those of the reordering are closed together. -/
theorem Tracks.exists_result_iff {us : List (Token α)} {s : Reordering α} (h : Tracks us s)
    (hmarks : s.held.count .mark = s.parentheses.length) :
    (∃ p, s.result = .ok p) ↔ depth us = 0 ∧ ¬ EndsInFunction us := by
  simp only [result_eq_ok_iff]
  cases h with
  | @settled us out held ps h hlast =>
    rw [h.depth_eq, Int.natCast_eq_zero]
    constructor
    · rintro ⟨p, -, hheld, -⟩
      exact ⟨hmarks.symm.trans (count_mark_eq_zero hheld), hlast⟩
    · rintro ⟨hps, -⟩
      refine ⟨_, rfl, fun x hx => ?_, rfl⟩
      cases x with
      | mark => exact absurd hx (List.count_eq_zero.1 (hmarks.trans hps))
      | infixOp op => rfl
      | prefixOp op => rfl
  | awaiting call h hps =>
    constructor
    · rintro ⟨p, hawaited, -⟩
      cases hawaited
    · rintro ⟨-, hlast⟩
      exact absurd ⟨_, _, _, rfl⟩ hlast

theorem Step.output_ne_nil {s s' : Reordering α} {t : Token α} (h : Step s t s')
    (hs : (∃ a, t = .operand a) ∨ s.output ≠ []) : s'.output ≠ [] := by
  rcases hs with ⟨a, rfl⟩ | hs
  · cases h with
    | operand a => simp
  · cases h with
    | operand a => simp
    | function name arity => exact hs
    | prefixOp op => exact hs
    | postfixOp op hout => simp
    | infixOp op hops hrest => exact List.append_ne_nil_of_right_ne_nil _ hs
    | opening => exact hs
    | callOpening call => exact hs
    | closing hops => exact List.append_ne_nil_of_right_ne_nil _ hs
    | callClosing call hops hslot harity => simp
    | comma call hops => exact List.append_ne_nil_of_right_ne_nil _ hs

/-- An operand is put out at once and stays in the output. -/
theorem output_ne_nil_of_feed {us : List (Token α)} {s : Reordering α} {a : α}
    (h : ({} : Reordering α).feed us = .ok s) (ha : .operand a ∈ us) : s.output ≠ [] := by
  obtain ⟨pre, post, rfl⟩ := List.append_of_mem ha
  rw [feed_append] at h
  obtain ⟨m, -, hcons⟩ := bind_eq_ok_iff.1 h
  obtain ⟨m', hpush, hpost⟩ := bind_eq_ok_iff.1 hcons
  refine feed_induction (P := fun s => s.output ≠ []) (fun _ _ _ hstep hs => ?_) ?_ hpost
  · exact hstep.output_ne_nil (.inr hs)
  · exact (push_eq_ok_iff_step.1 hpush).output_ne_nil (.inl ⟨a, rfl⟩)

end Reordering

/-- Whether some operand stands before every postfix operator. -/
def PostfixBehindOperand (ts : List (Token α)) : Prop :=
  ∀ us op post, ts = us ++ .postfixOp op :: post → ∃ a, .operand a ∈ us

theorem postfixBehindOperand_cons (a : α) (ts : List (Token α)) :
    PostfixBehindOperand (.operand a :: ts) := by
  intro us op post heq
  rcases List.cons_eq_append_iff.1 heq with ⟨-, hcons⟩ | ⟨us, rfl, -⟩
  · cases (List.cons.inj hcons).1
  · exact ⟨a, List.mem_cons_self⟩

open Reordering

theorem exists_feed_iff_groupable {ts : List (Token α)} (hbehind : PostfixBehindOperand ts) :
    (∃ s, ({} : Reordering α).feed ts = .ok s) ↔ Groupable ts := by
  induction ts using List.reverseRecOn with
  | nil => exact iff_of_true ⟨{}, rfl⟩ groupable_nil
  | append_singleton ts t ih =>
    have hinit : PostfixBehindOperand ts := by
      rintro us op post rfl
      exact hbehind us op (post ++ [t]) (by simp)
    rw [groupable_concat_iff, ← ih hinit]
    constructor
    · rintro ⟨s, hs⟩
      rw [feed_append] at hs
      obtain ⟨m, hm, hlast⟩ := bind_eq_ok_iff.1 hs
      obtain ⟨m', hpush, -⟩ := bind_eq_ok_iff.1 hlast
      have hgroupable := (ih hinit).1 ⟨m, hm⟩
      exact ⟨⟨m, hm⟩,
        (tracks_of_feed hm).next_of_step hgroupable.nested (push_eq_ok_iff_step.1 hpush)⟩
    · rintro ⟨⟨m, hm⟩, hnext⟩
      obtain ⟨s, hstep⟩ := (tracks_of_feed hm).exists_step hnext (count_mark_eq_of_feed hm) (by
        rintro op rfl
        obtain ⟨a, ha⟩ := hbehind ts op [] rfl
        exact output_ne_nil_of_feed hm ha)
      refine ⟨s, ?_⟩
      rw [feed_append_of_eq_ok hm, hstep.feed_cons]
      rfl

/-- Tokens in which every postfix operator has some operand before it have a postfix order exactly
if their parentheses are balanced, every function name stands before its parenthesis, every comma
stands directly inside a call, and every call has as many slots as its function has arguments and
none of them empty, or none at all. -/
theorem exists_toPostfix_iff_grouped {ts : List (Token α)} (hbehind : PostfixBehindOperand ts) :
    (∃ p, toPostfix ts = .ok p) ↔ Grouped ts := by
  rw [grouped_iff, ← exists_feed_iff_groupable hbehind]
  constructor
  · rintro ⟨p, hp⟩
    obtain ⟨s, hs, hlast⟩ := bind_eq_ok_iff.1 hp
    have hresult := (tracks_of_feed hs).exists_result_iff (count_mark_eq_of_feed hs)
    exact ⟨⟨s, hs⟩, hresult.1 ⟨p, hlast⟩⟩
  · rintro ⟨⟨s, hs⟩, hlast⟩
    have hresult := (tracks_of_feed hs).exists_result_iff (count_mark_eq_of_feed hs)
    obtain ⟨p, hp⟩ := hresult.2 hlast
    exact ⟨p, bind_eq_ok_iff.2 ⟨s, hs, hp⟩⟩

/-- The postfix operator of `5! - max(zero(), (2))` stands behind an operand, and the tokens are
grouped; in `5! - max((7, 2))` the comma stands in a parenthesis of its own, and so they are not. -/
theorem grouped_factorial_minus_maximum :
    PostfixBehindOperand [(.operand 5 : Token Nat), .postfixOp .factorial, .infixOp .subtract,
        .function "max" 2, .opening, .function "zero" 0, .opening, .closing, .comma, .opening,
        .operand 2, .closing, .closing] ∧
    Grouped [(.operand 5 : Token Nat), .postfixOp .factorial, .infixOp .subtract,
        .function "max" 2, .opening, .function "zero" 0, .opening, .closing, .comma, .opening,
        .operand 2, .closing, .closing] ∧
    ¬ Grouped [(.operand 5 : Token Nat), .postfixOp .factorial, .infixOp .subtract,
        .function "max" 2, .opening, .opening, .operand 7, .comma, .operand 2, .closing,
        .closing] := by
  have hbehind := fun ts => postfixBehindOperand_cons (5 : Nat) ts
  refine ⟨hbehind _, (exists_toPostfix_iff_grouped (hbehind _)).1 ⟨_, rfl⟩, fun h => ?_⟩
  obtain ⟨p, hp⟩ := (exists_toPostfix_iff_grouped (hbehind _)).2 h
  cases hp

end Formula
