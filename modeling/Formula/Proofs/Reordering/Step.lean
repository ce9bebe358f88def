import Mathlib.Data.List.Basic
import Mathlib.Data.List.Induction
import Mathlib.Data.List.TakeWhile
import Formula.PostfixOrder
import Formula.Proofs.Success

/-!
# The reordering as a transition system

`Reordering.Step` lists what one token can do to a state of the reordering, one rule for each kind
of token and of parenthesis.  It is exactly what `Reordering.push` does where it succeeds
(`push_eq_ok_iff_step`), so that a property of all runs is a property that every rule keeps.
`Reordering.feed` runs through a list of tokens.
-/

namespace Formula

variable {α : Type}

/-- The open parentheses once the innermost has content. -/
def withContent : List Parenthesis → List Parenthesis
  | [] => []
  | p :: ps => { p with slotIsEmpty := false } :: ps

@[simp]
theorem withContent_withContent (ps : List Parenthesis) :
    withContent (withContent ps) = withContent ps := by
  cases ps <;> rfl

/-! ## Held operators -/

namespace Held

theorem isOperator_of_yieldsTo {h : Held} {op : InfixOp} (hy : h.yieldsTo op = true) :
    h.isOperator = true := by
  cases h with
  | infixOp top => rfl
  | prefixOp top => rfl
  | mark => cases hy

/-- The operators on top of what is held back, down to the first mark. -/
theorem exists_split_isOperator (held : List Held) :
    ∃ ops rest, held = ops ++ rest ∧ (∀ h ∈ ops, h.isOperator = true) ∧
      (rest = [] ∨ ∃ below, rest = .mark :: below) := by
  induction held with
  | nil => exact ⟨[], [], rfl, by simp, .inl rfl⟩
  | cons h held ih =>
    cases h with
    | mark => exact ⟨[], .mark :: held, rfl, by simp, .inr ⟨held, rfl⟩⟩
    | infixOp op =>
      obtain ⟨ops, rest, rfl, hops, hrest⟩ := ih
      exact ⟨.infixOp op :: ops, rest, rfl, by simpa using ⟨rfl, hops⟩, hrest⟩
    | prefixOp op =>
      obtain ⟨ops, rest, rfl, hops, hrest⟩ := ih
      exact ⟨.prefixOp op :: ops, rest, rfl, by simpa using ⟨rfl, hops⟩, hrest⟩

end Held

namespace Reordering

/-! ## Putting held operators out -/

theorem noteContent_eq (s : Reordering α) :
    s.noteContent = { s with parentheses := withContent s.parentheses } := by
  obtain ⟨out, held, ps, awaited⟩ := s
  cases ps <;> rfl

theorem release_append {p : Held → Bool} {out : List (Token α)} {ops rest : List Held}
    {ps : List Parenthesis} {awaited : Option CallHead} (hops : ∀ h ∈ ops, p h = true)
    (hrest : ∀ h ∈ rest.head?, p h = false) :
    release ⟨out, ops ++ rest, ps, awaited⟩ p =
      ⟨(ops.filterMap Held.token?).reverse ++ out, rest, ps, awaited⟩ := by
  have htake : rest.takeWhile p = [] := by
    cases rest with
    | nil => rfl
    | cons h rest => rw [List.takeWhile_cons, hrest h rfl]; rfl
  have hdrop : rest.dropWhile p = rest := by
    cases rest with
    | nil => rfl
    | cons h rest => rw [List.dropWhile_cons, hrest h rfl]; rfl
  simp only [release, List.takeWhile_append_of_pos hops, List.dropWhile_append_of_pos hops, htake,
    hdrop, List.append_nil]

theorem release_isOperator_append_mark {out : List (Token α)} {ops below : List Held}
    {ps : List Parenthesis} {awaited : Option CallHead} (hops : ∀ h ∈ ops, h.isOperator = true) :
    release ⟨out, ops ++ .mark :: below, ps, awaited⟩ Held.isOperator =
      ⟨(ops.filterMap Held.token?).reverse ++ out, .mark :: below, ps, awaited⟩ := by
  refine release_append hops fun h hh => ?_
  obtain rfl : Held.mark = h := Option.some.inj hh
  rfl

/-! ## One token -/

/-- What one token does to a state.  Operators that are put out end up in the output in the order in
which they lay on top of each other. -/
inductive Step : Reordering α → Token α → Reordering α → Prop
  | operand {out : List (Token α)} {held : List Held} {ps : List Parenthesis} (a : α) :
    Step ⟨out, held, ps, none⟩ (.operand a) ⟨.operand a :: out, held, withContent ps, none⟩
  | function {out : List (Token α)} {held : List Held} {ps : List Parenthesis} (name : String)
      (arity : Nat) :
    Step ⟨out, held, ps, none⟩ (.function name arity)
      ⟨out, held, withContent ps, some ⟨name, arity⟩⟩
  | prefixOp {out : List (Token α)} {held : List Held} {ps : List Parenthesis} (op : PrefixOp) :
    Step ⟨out, held, ps, none⟩ (.prefixOp op) ⟨out, .prefixOp op :: held, withContent ps, none⟩
  | postfixOp {out : List (Token α)} {held : List Held} {ps : List Parenthesis} (op : PostfixOp)
      (hout : out ≠ []) :
    Step ⟨out, held, ps, none⟩ (.postfixOp op) ⟨.postfixOp op :: out, held, withContent ps, none⟩
  | infixOp {out : List (Token α)} {ops rest : List Held} {ps : List Parenthesis} (op : InfixOp)
      (hops : ∀ h ∈ ops, h.yieldsTo op = true) (hrest : ∀ h ∈ rest.head?, h.yieldsTo op = false) :
    Step ⟨out, ops ++ rest, ps, none⟩ (.infixOp op)
      ⟨(ops.filterMap Held.token?).reverse ++ out, .infixOp op :: rest, withContent ps, none⟩
  | opening {out : List (Token α)} {held : List Held} {ps : List Parenthesis} :
    Step ⟨out, held, ps, none⟩ .opening
      ⟨out, .mark :: held, ⟨none, 0, true⟩ :: withContent ps, none⟩
  | callOpening {out : List (Token α)} {held : List Held} {ps : List Parenthesis}
      (call : CallHead) :
    Step ⟨out, held, ps, some call⟩ .opening
      ⟨out, .mark :: held, ⟨some call, 0, true⟩ :: ps, none⟩
  | closing {out : List (Token α)} {ops below : List Held} {ps : List Parenthesis} {n : Nat}
      {slotIsEmpty : Bool} (hops : ∀ h ∈ ops, h.isOperator = true) :
    Step ⟨out, ops ++ .mark :: below, ⟨none, n, slotIsEmpty⟩ :: ps, none⟩ .closing
      ⟨(ops.filterMap Held.token?).reverse ++ out, below, ps, none⟩
  | callClosing {out : List (Token α)} {ops below : List Held} {ps : List Parenthesis} {n : Nat}
      {slotIsEmpty : Bool} (call : CallHead) (hops : ∀ h ∈ ops, h.isOperator = true)
      (hslot : slotIsEmpty = true → n = 0)
      (harity : Parenthesis.arguments ⟨some call, n, slotIsEmpty⟩ = call.arity) :
    Step ⟨out, ops ++ .mark :: below, ⟨some call, n, slotIsEmpty⟩ :: ps, none⟩ .closing
      ⟨.function call.name call.arity :: ((ops.filterMap Held.token?).reverse ++ out), below, ps,
        none⟩
  | comma {out : List (Token α)} {ops below : List Held} {ps : List Parenthesis} {n : Nat}
      (call : CallHead) (hops : ∀ h ∈ ops, h.isOperator = true) :
    Step ⟨out, ops ++ .mark :: below, ⟨some call, n, false⟩ :: ps, none⟩ .comma
      ⟨(ops.filterMap Held.token?).reverse ++ out, .mark :: below, ⟨some call, n + 1, true⟩ :: ps,
        none⟩

theorem Step.push_eq {s s' : Reordering α} {t : Token α} (h : Step s t s') :
    s.push t = .ok s' := by
  cases h with
  | operand a => simp only [push, noteContent_eq, emit]
  | function name arity => simp only [push, noteContent_eq]
  | prefixOp op => simp only [push, noteContent_eq, hold]
  | postfixOp op hout =>
    simp only [push, noteContent_eq, emit, List.isEmpty_iff, hout, if_false]
  | infixOp op hops hrest =>
    simp only [push, noteContent_eq, release_append hops hrest, hold]
  | opening => simp only [push, noteContent_eq, openParenthesis]
  | callOpening call => simp only [push, openParenthesis]
  | closing hops => simp only [push, closeParenthesis, release_isOperator_append_mark hops]
  | callClosing call hops hslot harity =>
    rename_i out ops below ps n slotIsEmpty
    have hfull : ¬ (slotIsEmpty && decide (0 < n)) = true := by
      cases slotIsEmpty with
      | false => simp
      | true => simp [hslot rfl]
    simp only [push, closeParenthesis, release_isOperator_append_mark hops, hfull, harity, emit,
      ne_eq, not_true_eq_false, Bool.false_eq_true, if_false]
  | comma call hops =>
    simp only [push, nextArgument, release_isOperator_append_mark hops, Bool.false_eq_true,
      if_false]

theorem Step.of_closeParenthesis {out : List (Token α)} {held : List Held} {ps : List Parenthesis}
    {s' : Reordering α} (h : closeParenthesis ⟨out, held, ps, none⟩ = .ok s') :
    Step ⟨out, held, ps, none⟩ .closing s' := by
  obtain ⟨ops, rest, rfl, hops, rfl | ⟨below, rfl⟩⟩ := Held.exists_split_isOperator held
  · rw [closeParenthesis, release_append hops (by simp)] at h
    cases h
  · rw [closeParenthesis, release_isOperator_append_mark hops] at h
    match ps, h with
    | ⟨none, n, slotIsEmpty⟩ :: ps, h =>
      cases h
      exact .closing hops
    | ⟨some call, n, slotIsEmpty⟩ :: ps, h =>
      simp only at h
      split at h
      · cases h
      · rename_i hfull
        split at h
        · cases h
        · rename_i harity
          cases h
          refine .callClosing call hops (fun hslot => ?_) (Decidable.not_not.1 harity)
          simpa [hslot] using hfull

theorem Step.of_nextArgument {out : List (Token α)} {held : List Held} {ps : List Parenthesis}
    {s' : Reordering α} (h : nextArgument ⟨out, held, ps, none⟩ = .ok s') :
    Step ⟨out, held, ps, none⟩ .comma s' := by
  obtain ⟨ops, rest, rfl, hops, rfl | ⟨below, rfl⟩⟩ := Held.exists_split_isOperator held
  · rw [nextArgument, release_append hops (by simp)] at h
    cases h
  · rw [nextArgument, release_isOperator_append_mark hops] at h
    match ps, h with
    | ⟨none, n, slotIsEmpty⟩ :: ps, h => cases h
    | ⟨some call, n, true⟩ :: ps, h => cases h
    | ⟨some call, n, false⟩ :: ps, h =>
      cases h
      exact .comma call hops

/-- The rules are exactly what `push` does where it succeeds. -/
theorem push_eq_ok_iff_step {s s' : Reordering α} {t : Token α} :
    s.push t = .ok s' ↔ Step s t s' := by
  refine ⟨fun h => ?_, Step.push_eq⟩
  obtain ⟨out, held, ps, _ | call⟩ := s
  · cases t with
    | operand a =>
      cases h
      rw [noteContent_eq]
      exact .operand a
    | function name arity =>
      cases h
      rw [noteContent_eq]
      exact .function name arity
    | prefixOp op =>
      cases h
      rw [noteContent_eq]
      exact .prefixOp op
    | postfixOp op =>
      simp only [push] at h
      split at h
      · cases h
      · rename_i hout
        cases h
        rw [noteContent_eq]
        exact .postfixOp op (by simpa using hout)
    | infixOp op =>
      cases h
      rw [noteContent_eq]
      have hrest : ∀ h ∈ (held.dropWhile (Held.yieldsTo op)).head?, h.yieldsTo op = false := by
        intro h hh
        have hnot := List.head?_dropWhile_not (Held.yieldsTo op) held
        rwa [Option.mem_def.1 hh] at hnot
      have hops : ∀ h ∈ held.takeWhile (Held.yieldsTo op), h.yieldsTo op = true :=
        fun _ hh => List.mem_takeWhile_imp hh
      have hstep : Step ⟨out, _, ps, none⟩ (.infixOp op) _ := .infixOp op hops hrest
      rwa [List.takeWhile_append_dropWhile] at hstep
    | opening =>
      cases h
      rw [noteContent_eq]
      exact .opening
    | closing => exact .of_closeParenthesis h
    | comma => exact .of_nextArgument h
  · cases t with
    | opening =>
      cases h
      exact .callOpening call
    | operand a => cases h
    | function name arity => cases h
    | prefixOp op => cases h
    | postfixOp op => cases h
    | infixOp op => cases h
    | closing => cases h
    | comma => cases h

/-! ## Lists of tokens -/

/-- The state after a list of tokens. -/
def feed (s : Reordering α) (ts : List (Token α)) : Except Failure (Reordering α) :=
  ts.foldlM push s

@[simp]
theorem feed_nil (s : Reordering α) : s.feed [] = .ok s :=
  rfl

theorem feed_cons (s : Reordering α) (t : Token α) (ts : List (Token α)) :
    s.feed (t :: ts) = s.push t >>= fun m => m.feed ts :=
  rfl

theorem feed_append (s : Reordering α) (ts us : List (Token α)) :
    s.feed (ts ++ us) = s.feed ts >>= fun m => m.feed us :=
  List.foldlM_append

theorem Step.feed_cons {s m : Reordering α} {t : Token α} (h : Step s t m) (ts : List (Token α)) :
    s.feed (t :: ts) = m.feed ts := by
  rw [Reordering.feed_cons, h.push_eq]
  rfl

theorem feed_append_of_eq_ok {s m : Reordering α} {ts : List (Token α)} (h : s.feed ts = .ok m)
    (us : List (Token α)) : s.feed (ts ++ us) = m.feed us := by
  rw [feed_append, h]
  rfl

/-- A property that every rule keeps holds after any list of tokens. -/
theorem feed_induction {P : Reordering α → Prop}
    (hstep : ∀ s t s', Step s t s' → P s → P s') {s s' : Reordering α} {ts : List (Token α)}
    (hs : P s) (h : s.feed ts = .ok s') : P s' := by
  induction ts generalizing s with
  | nil =>
    cases h
    exact hs
  | cons t ts ih =>
    obtain ⟨m, hm, hrest⟩ := bind_eq_ok_iff.1 h
    exact ih (hstep s t m (push_eq_ok_iff_step.1 hm) hs) hrest

/-- A relation between the tokens read and the state holds after any list of tokens if it holds at
the start and every rule keeps it. -/
theorem feed_start_induction {P : List (Token α) → Reordering α → Prop} (hstart : P [] {})
    (hstep : ∀ us s t s', ({} : Reordering α).feed us = .ok s → Step s t s' → P us s →
      P (us ++ [t]) s') {us : List (Token α)} {s : Reordering α}
    (h : ({} : Reordering α).feed us = .ok s) : P us s := by
  induction us using List.reverseRecOn generalizing s with
  | nil =>
    cases h
    exact hstart
  | append_singleton us t ih =>
    rw [feed_append] at h
    obtain ⟨m, hm, hlast⟩ := bind_eq_ok_iff.1 h
    obtain ⟨m', hpush, hnil⟩ := bind_eq_ok_iff.1 hlast
    cases hnil
    exact hstep us m t _ hm (push_eq_ok_iff_step.1 hpush) (ih hm)

/-! ## Behind the last token -/

theorem exists_step_of_feed_concat {s s' : Reordering α} {ts : List (Token α)} {t : Token α}
    (h : s.feed (ts ++ [t]) = .ok s') : ∃ m, Step m t s' := by
  rw [feed_append] at h
  obtain ⟨m, -, hlast⟩ := bind_eq_ok_iff.1 h
  obtain ⟨m', hpush, hnil⟩ := bind_eq_ok_iff.1 hlast
  cases hnil
  exact ⟨m, push_eq_ok_iff_step.1 hpush⟩

theorem Step.awaited_eq_none {s s' : Reordering α} {t : Token α} (h : Step s t s')
    (ht : ∀ name arity, t ≠ .function name arity) : s'.awaited = none := by
  cases h with
  | function name arity => exact absurd rfl (ht name arity)
  | operand a => rfl
  | prefixOp op => rfl
  | postfixOp op hout => rfl
  | infixOp op hops hrest => rfl
  | opening => rfl
  | callOpening call => rfl
  | closing hops => rfl
  | callClosing call hops hslot harity => rfl
  | comma call hops => rfl

theorem awaited_eq_none_of_feed {ts : List (Token α)} {s : Reordering α}
    (h : ({} : Reordering α).feed ts = .ok s)
    (hlast : ∀ name arity, ts.getLast? ≠ some (.function name arity)) : s.awaited = none := by
  rcases List.eq_nil_or_concat' ts with rfl | ⟨init, t, rfl⟩
  · cases h
    rfl
  · obtain ⟨m, hstep⟩ := exists_step_of_feed_concat h
    refine hstep.awaited_eq_none fun name arity ht => hlast name arity ?_
    rw [List.getLast?_concat, ht]

/-- An opening parenthesis and a comma leave a mark on top. -/
theorem Step.exists_eq_mark {s s' : Reordering α} {t : Token α} (h : Step s t s')
    (ht : t = .opening ∨ t = .comma) :
    ∃ out below ps, s' = ⟨out, .mark :: below, ps, none⟩ := by
  rcases ht with rfl | rfl
  · cases h with
    | opening => exact ⟨_, _, _, rfl⟩
    | callOpening call => exact ⟨_, _, _, rfl⟩
  · cases h with
    | comma call hops => exact ⟨_, _, _, rfl⟩

theorem exists_eq_mark_of_feed {ts : List (Token α)} {s : Reordering α}
    (h : ({} : Reordering α).feed ts = .ok s)
    (hlast : ts.getLast? = some .opening ∨ ts.getLast? = some .comma) :
    ∃ out below ps, s = ⟨out, .mark :: below, ps, none⟩ := by
  rcases List.eq_nil_or_concat' ts with rfl | ⟨init, t, rfl⟩
  · rcases hlast with hlast | hlast <;> cases hlast
  · obtain ⟨m, hstep⟩ := exists_step_of_feed_concat h
    rw [List.getLast?_concat, Option.some.injEq, Option.some.injEq] at hlast
    exact hstep.exists_eq_mark hlast

/-! ## The end of the tokens -/

/-- There is a result if no function name waits for its parenthesis and no parenthesis is open. -/
theorem result_eq_ok_iff {s : Reordering α} {p : List (Token α)} :
    s.result = .ok p ↔ s.awaited = none ∧ (∀ h ∈ s.held, h.isOperator = true) ∧
      s.output.reverse ++ s.held.filterMap Held.token? = p := by
  obtain ⟨out, held, ps, _ | call⟩ := s
  · obtain ⟨ops, rest, rfl, hops, rfl | ⟨below, rfl⟩⟩ := Held.exists_split_isOperator held
    · have hnil : ∀ h ∈ ([] : List Held).head?, h.isOperator = false := by simp
      simp only [result, release_append hops hnil, List.isEmpty_nil, if_true, Except.ok.injEq,
        List.reverse_append, List.reverse_reverse, true_and]
      rw [List.append_nil]
      exact ⟨fun h => ⟨hops, h⟩, fun h => h.2⟩
    · simp only [result, release_isOperator_append_mark hops, List.isEmpty_cons,
        Bool.false_eq_true, if_false, reduceCtorEq, true_and, false_iff]
      rintro ⟨hall, -⟩
      exact Bool.false_ne_true (hall .mark (by simp))
  · constructor
    · intro h
      cases h
    · rintro ⟨h, -⟩
      cases h

end Reordering

theorem toPostfix_eq (ts : List (Token α)) :
    toPostfix ts = ({} : Reordering α).feed ts >>= Reordering.result :=
  rfl

end Formula
