import Mathlib.Data.List.Forall2
import Mathlib.Data.List.Nodup
import Mathlib.Data.List.Perm.Subperm
import Formula.Proofs.Arrangement
import Formula.Proofs.Reordering.Contents

/-!
# The order of the output

The reordering is followed with a log: for every token that is put out, the place from which it
comes and the moment, counted in tokens read, at which it is put out.  Operands and postfix
operators come at the moment of their place and calls when their parenthesis closes; an operator
comes after its own place and not after the end of its slot (`Logged`).  Since the log is in order
of moments, it settles the order of the result (`exists_arranged_of_toPostfix`).
-/

namespace Formula

variable {α : Type}

/-! ## Arrangements -/

/-- The token `x` is put out before the token `y`. -/
def Precedes (order : List (Token α × Nat)) (x y : Token α × Nat) : Prop :=
  [x, y].Sublist order

/-- The order in which the tokens of `ts`, given with their places, are put out. -/
structure Arranged (ts : List (Token α)) (order : List (Token α × Nat)) : Prop where
  perm : order.Perm (ts.zipIdx.filter fun x => x.1.isComputed)
  /-- Operands, postfix operators and functions come in the order in which they are complete. -/
  completed : ∃ ends, List.Forall₂ (CompletedAt ts) (order.filter fun x => !x.1.isOperator) ends ∧
    ends.Pairwise (· < ·)
  /-- An operator comes after everything before it that needs no operand to its right. -/
  behind : ∀ x ∈ order, ∀ y ∈ order, x.1.isOperator = true → y.1.isPrompt = true → y.2 < x.2 →
    Precedes order y x
  /-- An operator comes before everything that stands behind its slot. -/
  before : ∀ x ∈ order, ∀ y ∈ order, x.1.isOperator = true → y.1.isPrompt = true →
    ∀ k, BoundsSlot ts x.2 k → k < y.2 → Precedes order x y
  /-- An operator comes before the function of every call in which it stands. -/
  inside : ∀ x ∈ order, ∀ y ∈ order, x.1.isOperator = true →
    ∀ k, ClosesCall ts y.2 k → y.2 < x.2 → x.2 < k → Precedes order x y

namespace Token

theorem isOperator_eq_false_of_isPrompt {t : Token α} (h : t.isPrompt = true) :
    t.isOperator = false := by
  cases t <;> first | rfl | cases h

theorem isComputed_of_isOperator {t : Token α} (h : t.isOperator = true) :
    t.isComputed = true := by
  cases t <;> first | rfl | cases h

theorem isComputed_of_isPrompt {t : Token α} (h : t.isPrompt = true) : t.isComputed = true := by
  cases t <;> first | rfl | cases h

theorem weight_of_isComputed {t : Token α} (h : t.isComputed = true) : t.weight = 0 := by
  cases t <;> first | rfl | cases h

end Token

namespace Held

theorem isOperator_of_token? {h : Held} {t : Token α} (ht : h.token? = some t) :
    t.isOperator = true := by
  cases h with
  | infixOp op => cases ht; rfl
  | prefixOp op => cases ht; rfl
  | mark => cases ht

end Held

/-! ## The log -/

namespace Reordering

/-- A token that has been put out. -/
structure Emission (α : Type) where
  token : Token α
  /-- The place of the token. -/
  place : Nat
  /-- The number of tokens that had been read before the one that had it put out. -/
  moment : Nat

namespace Emission

/-- A token that has been put out, with its place. -/
def origin (e : Emission α) : Token α × Nat :=
  (e.token, e.place)

/-- What is known about a token that was put out while the tokens `us` were read. -/
structure Sound (us : List (Token α)) (e : Emission α) : Prop where
  at_place : us[e.place]? = some e.token
  lt_moment : e.token.isOperator = true → e.place < e.moment
  moment_le : e.token.isOperator = true → ∀ k, BoundsSlot us e.place k → e.moment ≤ k
  completed : e.token.isOperator = false → CompletedAt us e.origin e.moment

/-- Whether a token can come before those of the moment `n`.  At one moment operators come
first. -/
def Due (n : Nat) (e : Emission α) : Prop :=
  e.moment < n ∨ e.moment = n ∧ e.token.isOperator = true

theorem Sound.isComputed {us : List (Token α)} {e : Emission α} (h : e.Sound us) :
    e.token.isComputed = true := by
  obtain ⟨t, i, moment⟩ := e
  cases hop : t.isOperator with
  | true => exact Token.isComputed_of_isOperator hop
  | false =>
    cases h.completed hop with
    | prompt ht => exact Token.isComputed_of_isPrompt ht
    | call hcall => rfl

theorem Sound.moment_eq_place {us : List (Token α)} {e : Emission α} (h : e.Sound us)
    (ht : e.token.isPrompt = true) : e.moment = e.place := by
  obtain ⟨t, i, moment⟩ := e
  cases h.completed (Token.isOperator_eq_false_of_isPrompt ht) with
  | prompt ht => rfl
  | call hcall => cases ht

theorem Sound.moment_eq_of_closesCall {us : List (Token α)} {e : Emission α} {k : Nat}
    (h : e.Sound us) (hcall : ClosesCall us e.place k) :
    e.token.isOperator = false ∧ e.moment = k := by
  obtain ⟨t, i, moment⟩ := e
  obtain ⟨name, arity, hname⟩ := hcall.name
  obtain rfl : t = .function name arity := Option.some.inj (h.at_place.symm.trans hname)
  refine ⟨rfl, ?_⟩
  cases h.completed rfl with
  | prompt ht => cases ht
  | call hcall' => exact hcall'.eq hcall

/-- What is known stays true when one more token is read, which may end a slot only now. -/
theorem Sound.read {us : List (Token α)} {e : Emission α} (h : e.Sound us)
    (hmoment : e.moment ≤ us.length) (t : Token α) : e.Sound (us ++ [t]) where
  at_place := getElem?_append_of_eq_some h.at_place [t]
  lt_moment := h.lt_moment
  moment_le := by
    intro hop k hk
    by_cases hlt : k < us.length
    · exact h.moment_le hop k (hk.of_append hlt)
    · omega
  completed hop := (h.completed hop).append [t]

end Emission

open Emission

/-- The log of a run through the tokens `us` up to the moment `n`, the last token first. -/
structure Logged (us : List (Token α)) (n : Nat) (log : List (Emission α)) : Prop where
  sound : ∀ e ∈ log, e.Sound us
  due : ∀ e ∈ log, e.Due n
  sorted : log.Pairwise fun f e => e.Due f.moment

theorem Emission.Due.moment_le {n : Nat} {e : Emission α} (h : e.Due n) : e.moment ≤ n := by
  rcases h with h | h <;> omega

variable {us : List (Token α)} {n : Nat} {log : List (Emission α)} {t : Token α}

namespace Logged

theorem read (h : Logged us us.length log) (t : Token α) : Logged (us ++ [t]) us.length log :=
  ⟨fun e he => (h.sound e he).read (h.due e he).moment_le t, h.due, h.sorted⟩

theorem tick (h : Logged us n log) : Logged us (n + 1) log :=
  ⟨h.sound, fun e he => .inl (Nat.lt_succ_of_le (h.due e he).moment_le), h.sorted⟩

theorem next (h : Logged us us.length log) (t : Token α) :
    Logged (us ++ [t]) (us ++ [t]).length log := by
  rw [List.length_append]
  exact (h.read t).tick

/-- Operators are put out at the present moment. -/
theorem cons_operator {i : Nat} (h : Logged us n log) (ht : t.isOperator = true)
    (hi : us[i]? = some t) (hlt : i < n) (hslot : ∀ k, BoundsSlot us i k → n ≤ k) :
    Logged us n (⟨t, i, n⟩ :: log) where
  sound := by
    refine List.forall_mem_cons.2 ⟨⟨hi, fun _ => hlt, fun _ => hslot, fun hf => ?_⟩, h.sound⟩
    rw [ht] at hf
    cases hf
  due := List.forall_mem_cons.2 ⟨.inr ⟨rfl, ht⟩, h.due⟩
  sorted := List.pairwise_cons.2 ⟨h.due, h.sorted⟩

/-- The present moment is over when something is complete. -/
theorem cons_completed {i : Nat} (h : Logged us n log) (ht : t.isOperator = false)
    (hi : us[i]? = some t) (hcompleted : CompletedAt us (t, i) n) :
    Logged us (n + 1) (⟨t, i, n⟩ :: log) where
  sound := by
    refine List.forall_mem_cons.2 ⟨⟨hi, fun hop => ?_, fun hop => ?_, fun _ => hcompleted⟩, h.sound⟩
    · rw [ht] at hop
      cases hop
    · rw [ht] at hop
      cases hop
  due := List.forall_mem_cons.2 ⟨.inl (Nat.lt_succ_self n), h.tick.due⟩
  sorted := List.pairwise_cons.2 ⟨h.due, h.sorted⟩

end Logged

/-! ## What is held back -/

/-- An operator with its place that waits behind the tokens `us` with `m` parentheses open above
it. -/
structure Waits (us : List (Token α)) (m : Int) (x : Held × Nat) : Prop where
  at_place : ∃ t, x.1.token? = some t ∧ us[x.2]? = some t
  depth_eq : depth (us.drop (x.2 + 1)) = m
  not_boundsSlot : ∀ k, ¬ BoundsSlot us x.2 k

/-- What is held back behind the tokens `us`, with its places, below `m` open parentheses. -/
inductive Stacked (us : List (Token α)) : Int → List (Held × Nat) → Prop
  | nil {m : Int} : Stacked us m []
  | operator {m : Int} {x : Held × Nat} {stack : List (Held × Nat)} (hx : Waits us m x)
      (h : Stacked us m stack) : Stacked us m (x :: stack)
  | mark {m : Int} {i : Nat} {stack : List (Held × Nat)} (hi : us[i]? = some .opening)
      (h : Stacked us (m + 1) stack) : Stacked us m ((.mark, i) :: stack)

variable {m : Int} {x : Held × Nat} {stack : List (Held × Nat)}

/-- A token that ends no slot around the operator leaves it waiting. -/
theorem Waits.concat (h : Waits us m x) (hm : t = .comma ∨ t = .closing → 0 < m) :
    Waits (us ++ [t]) (m + t.weight) x := by
  obtain ⟨u, hu, hat⟩ := h.at_place
  have hlt : x.2 + 1 ≤ us.length := (List.getElem?_eq_some_iff.1 hat).1
  refine ⟨⟨u, hu, getElem?_append_of_eq_some hat [t]⟩, ?_, fun k hk => ?_⟩
  · rw [List.drop_append_of_le_length hlt, depth_append, h.depth_eq, depth_cons, depth_nil]
    omega
  · have hkl := hk.lt_length
    rw [List.length_append, List.length_singleton, Nat.lt_succ_iff_lt_or_eq] at hkl
    rcases hkl with hkl | rfl
    · exact h.not_boundsSlot k (hk.of_append hkl)
    · -- The last token bounds the slots of the innermost parenthesis only.
      have hdepth := hk.balanced.depth_eq
      rw [between_length, h.depth_eq] at hdepth
      have hbound := hk.bound
      rw [List.getElem?_concat_length, Option.some.injEq, Option.some.injEq] at hbound
      have hpos := hm hbound
      omega

namespace Stacked

theorem concat (h : Stacked us m stack) (hnonneg : 0 ≤ m) (hm : t = .comma ∨ t = .closing → 0 < m) :
    Stacked (us ++ [t]) (m + t.weight) stack := by
  induction h with
  | nil => exact .nil
  | operator hx h ih => exact .operator (hx.concat hm) (ih hnonneg hm)
  | @mark m i stack hi h ih =>
    refine .mark (getElem?_append_of_eq_some hi [t]) ?_
    rw [Int.add_right_comm]
    exact ih (by omega) fun _ => by omega

theorem concat_of_isComputed (h : Stacked us 0 stack) (ht : t.isComputed = true) :
    Stacked (us ++ [t]) 0 stack := by
  have hconcat : Stacked (us ++ [t]) (0 + t.weight) stack := by
    refine h.concat Int.le_rfl ?_
    rintro (rfl | rfl) <;> cases ht
  rwa [Token.weight_of_isComputed ht] at hconcat

theorem of_mark {i : Nat} (h : Stacked us m ((.mark, i) :: stack)) :
    us[i]? = some .opening ∧ Stacked us (m + 1) stack := by
  cases h with
  | operator hx h =>
    obtain ⟨t, ht, -⟩ := hx.at_place
    cases ht
  | mark hi h => exact ⟨hi, h⟩

/-- Below a mark, any token may follow. -/
theorem concat_below_mark {i : Nat} (h : Stacked us 0 ((.mark, i) :: stack)) (t : Token α) :
    Stacked (us ++ [t]) (1 + t.weight) stack :=
  h.of_mark.2.concat Int.one_nonneg fun _ => Int.one_pos

theorem of_operator (h : Stacked us m (x :: stack)) (hx : x.1.isOperator = true) :
    Waits us m x ∧ Stacked us m stack := by
  cases h with
  | operator hx h => exact ⟨hx, h⟩
  | mark hi h => cases hx

/-- Every held token is an operator or an opening parenthesis. -/
theorem exists_getElem?_eq (h : Stacked us m stack) (hx : x ∈ stack) :
    ∃ t, us[x.2]? = some t ∧ (t.isOperator = true ∨ t = .opening) := by
  induction h with
  | nil => cases hx
  | operator hy h ih =>
    rcases List.mem_cons.1 hx with rfl | hx
    · obtain ⟨t, ht, hat⟩ := hy.at_place
      exact ⟨t, hat, .inl (Held.isOperator_of_token? ht)⟩
    · exact ih hx
  | mark hi h ih =>
    rcases List.mem_cons.1 hx with rfl | hx
    · exact ⟨.opening, hi, .inr rfl⟩
    · exact ih hx

end Stacked

/-! ## Runs with a log -/

/-- The log and the places explain the output and what is held back behind the tokens `us`. -/
structure Explains (us out : List (Token α)) (held : List Held) (log : List (Emission α))
    (stack : List (Held × Nat)) : Prop where
  output : log.map Emission.token = out
  held : stack.map Prod.fst = held
  logged : Logged us us.length log
  stacked : Stacked us 0 stack
  nodup : (log.map Emission.place ++ stack.map Prod.snd).Nodup

/-- Some log explains the output and what is held back. -/
def Explained (us out : List (Token α)) (held : List Held) : Prop :=
  ∃ log stack, Explains us out held log stack

variable {out : List (Token α)} {held below : List Held} {name : String} {arity i : Nat}

theorem Explains.place_lt (h : Explains us out held log stack) :
    ∀ p ∈ log.map Emission.place ++ stack.map Prod.snd, p < us.length := by
  intro p hp
  rcases List.mem_append.1 hp with hp | hp
  · obtain ⟨e, he, rfl⟩ := List.mem_map.1 hp
    exact (List.getElem?_eq_some_iff.1 (h.logged.sound e he).at_place).1
  · obtain ⟨x, hx, rfl⟩ := List.mem_map.1 hp
    obtain ⟨t, hat, -⟩ := h.stacked.exists_getElem?_eq hx
    exact (List.getElem?_eq_some_iff.1 hat).1

theorem Explains.length_not_mem (h : Explains us out held log stack) :
    us.length ∉ log.map Emission.place ++ stack.map Prod.snd :=
  fun hmem => Nat.lt_irrefl _ (h.place_lt _ hmem)

/-- A call that closes only now has not been put out. -/
theorem Explains.call_not_mem (h : Explains us out held log stack)
    (hi : us[i]? = some (.function name arity))
    (hcall : ClosesCall (us ++ [.closing]) i us.length) :
    i ∉ log.map Emission.place ++ stack.map Prod.snd := by
  intro hmem
  rcases List.mem_append.1 hmem with hmem | hmem
  · obtain ⟨e, he, rfl⟩ := List.mem_map.1 hmem
    have hdue := h.logged.due e he
    have hread : e.Sound (us ++ [.closing]) := (h.logged.sound e he).read hdue.moment_le .closing
    obtain ⟨hfunction, hmoment⟩ := hread.moment_eq_of_closesCall hcall
    rcases hdue with hlt | ⟨-, htrue⟩
    · omega
    · exact Bool.false_ne_true (hfunction.symm.trans htrue)
  · obtain ⟨x, hx, rfl⟩ := List.mem_map.1 hmem
    obtain ⟨t, hat, ht⟩ := h.stacked.exists_getElem?_eq hx
    obtain rfl : t = .function name arity := Option.some.inj (hat.symm.trans hi)
    rcases ht with ht | ht <;> cases ht

namespace Explained

theorem start : Explained ([] : List (Token α)) [] [] :=
  ⟨[], [], rfl, rfl, ⟨by simp, by simp, .nil⟩, .nil, by simp⟩

theorem release_top {x : Held} (h : Explained us out (x :: held)) (hx : x.isOperator = true) :
    ∃ t, x.token? = some t ∧ Explained us (t :: out) held := by
  obtain ⟨log, stack, hlog⟩ := h
  obtain ⟨⟨x, i⟩, stack, rfl, rfl, rfl⟩ := List.map_eq_cons_iff.1 hlog.held
  obtain ⟨hwaits, hstacked⟩ := hlog.stacked.of_operator hx
  obtain ⟨t, ht, hat⟩ := hwaits.at_place
  have hop := Held.isOperator_of_token? ht
  have hlt : i < us.length := (List.getElem?_eq_some_iff.1 hat).1
  refine ⟨t, ht, ⟨t, i, us.length⟩ :: log, stack, ?_, rfl, ?_, hstacked, ?_⟩
  · rw [List.map_cons, hlog.output]
  · exact hlog.logged.cons_operator hop hat hlt fun k hk => absurd hk (hwaits.not_boundsSlot k)
  · exact List.nodup_middle.1 hlog.nodup

theorem release {ops held : List Held} (h : Explained us out (ops ++ held))
    (hops : ∀ x ∈ ops, x.isOperator = true) :
    Explained us ((ops.filterMap Held.token?).reverse ++ out) held := by
  induction ops generalizing out with
  | nil => exact h
  | cons x ops ih =>
    obtain ⟨t, ht, htop⟩ := h.release_top (hops x List.mem_cons_self)
    rw [List.filterMap_cons_some ht, List.reverse_cons, List.append_assoc]
    exact ih htop fun y hy => hops y (List.mem_cons_of_mem x hy)

theorem emit (h : Explained us out held) (ht : t.isPrompt = true) :
    Explained (us ++ [t]) (t :: out) held := by
  obtain ⟨log, stack, hlog⟩ := h
  refine ⟨⟨t, us.length, us.length⟩ :: log, stack, ?_, hlog.held, ?_, ?_, ?_⟩
  · rw [List.map_cons, hlog.output]
  · rw [List.length_append]
    exact (hlog.logged.read t).cons_completed (Token.isOperator_eq_false_of_isPrompt ht)
      List.getElem?_concat_length (.prompt ht)
  · exact hlog.stacked.concat_of_isComputed (Token.isComputed_of_isPrompt ht)
  · exact List.nodup_cons.2 ⟨hlog.length_not_mem, hlog.nodup⟩

theorem function (h : Explained us out held) (name : String) (arity : Nat) :
    Explained (us ++ [.function name arity]) out held := by
  obtain ⟨log, stack, hlog⟩ := h
  exact ⟨log, stack, hlog.output, hlog.held, hlog.logged.next _,
    hlog.stacked.concat_of_isComputed rfl, hlog.nodup⟩

theorem hold {x : Held} (h : Explained us out held) (ht : x.token? = some t) :
    Explained (us ++ [t]) out (x :: held) := by
  obtain ⟨log, stack, hlog⟩ := h
  have hop := Held.isOperator_of_token? ht
  refine ⟨log, (x, us.length) :: stack, hlog.output, ?_, ?_, ?_, ?_⟩
  · rw [List.map_cons, hlog.held]
  · exact hlog.logged.next t
  · refine .operator ⟨⟨t, ht, List.getElem?_concat_length⟩, ?_, fun k hk => ?_⟩
      (hlog.stacked.concat_of_isComputed (Token.isComputed_of_isOperator hop))
    · rw [← List.length_concat, List.concat_eq_append, List.drop_length, depth_nil]
    · have hlt := hk.lt
      have hlength := hk.lt_length
      rw [List.length_append, List.length_singleton] at hlength
      omega
  · exact List.nodup_middle.2 (List.nodup_cons.2 ⟨hlog.length_not_mem, hlog.nodup⟩)

theorem opening (h : Explained us out held) : Explained (us ++ [.opening]) out (.mark :: held) := by
  obtain ⟨log, stack, hlog⟩ := h
  refine ⟨log, (.mark, us.length) :: stack, hlog.output, ?_, ?_, ?_, ?_⟩
  · rw [List.map_cons, hlog.held]
  · exact hlog.logged.next _
  · exact .mark List.getElem?_concat_length (hlog.stacked.concat Int.le_rfl (by simp))
  · exact List.nodup_middle.2 (List.nodup_cons.2 ⟨hlog.length_not_mem, hlog.nodup⟩)

theorem comma (h : Explained us out (.mark :: below)) :
    Explained (us ++ [.comma]) out (.mark :: below) := by
  obtain ⟨log, stack, hlog⟩ := h
  obtain ⟨⟨x, i⟩, stack, rfl, rfl, rfl⟩ := List.map_eq_cons_iff.1 hlog.held
  have hmark := getElem?_append_of_eq_some hlog.stacked.of_mark.1 [.comma]
  have hbelow := hlog.stacked.concat_below_mark .comma
  exact ⟨log, _, hlog.output, rfl, hlog.logged.next _, .mark hmark hbelow, hlog.nodup⟩

theorem closing (h : Explained us out (.mark :: below)) :
    Explained (us ++ [.closing]) out below := by
  obtain ⟨log, stack, hlog⟩ := h
  obtain ⟨⟨x, i⟩, stack, rfl, rfl, rfl⟩ := List.map_eq_cons_iff.1 hlog.held
  have hbelow := hlog.stacked.concat_below_mark .closing
  exact ⟨log, stack, hlog.output, rfl, hlog.logged.next _, hbelow,
    (List.nodup_cons.1 (List.nodup_middle.1 hlog.nodup)).2⟩

theorem callClosing (h : Explained us out (.mark :: below))
    (hi : us[i]? = some (.function name arity))
    (hcall : ClosesCall (us ++ [.closing]) i us.length) :
    Explained (us ++ [.closing]) (.function name arity :: out) below := by
  obtain ⟨log, stack, hlog⟩ := h
  have hfresh := hlog.call_not_mem hi hcall
  obtain ⟨⟨x, j⟩, stack, rfl, rfl, rfl⟩ := List.map_eq_cons_iff.1 hlog.held
  have hbelow := hlog.stacked.concat_below_mark .closing
  obtain ⟨hj, hnodup⟩ := List.nodup_cons.1 (List.nodup_middle.1 hlog.nodup)
  refine ⟨⟨.function name arity, i, us.length⟩ :: log, stack, ?_, rfl, ?_, hbelow, ?_⟩
  · rw [List.map_cons, hlog.output]
  · rw [List.length_append]
    exact (hlog.logged.read _).cons_completed rfl (getElem?_append_of_eq_some hi _) (.call hcall)
  · refine List.nodup_cons.2 ⟨fun hmem => hfresh ?_, hnodup⟩
    exact (List.perm_middle.mem_iff).2 (List.mem_cons_of_mem _ hmem)

/-- Every rule has its line in the log. -/
theorem step {s s' : Reordering α} (h : Explained us s.output s.held) (htracks : Tracks us s)
    (hstep : Step s t s') : Explained (us ++ [t]) s'.output s'.held := by
  cases hstep with
  | operand a => exact h.emit rfl
  | function name arity => exact h.function name arity
  | prefixOp op => exact h.hold rfl
  | postfixOp op hout => exact h.emit rfl
  | infixOp op hops hrest =>
    exact (h.release fun x hx => Held.isOperator_of_yieldsTo (hops x hx)).hold rfl
  | opening => exact h.opening
  | callOpening call => exact h.opening
  | closing hops => exact (h.release hops).closing
  | callClosing call hops hslot harity =>
    cases htracks with
    | settled henclosed hlast =>
      obtain ⟨pre, name, arity, inner, rfl, hinner⟩ := henclosed.exists_call
      obtain ⟨filled, current, -, -, hp⟩ := henclosed.innermost hinner
      obtain rfl := Option.some.inj (Parenthesis.mk.inj hp).1
      exact (h.release hops).callClosing (by simp) (hinner.closesCall pre name arity)
  | comma call hops => exact (h.release hops).comma

end Explained

theorem explained_of_feed {s : Reordering α} (h : ({} : Reordering α).feed us = .ok s) :
    Explained us s.output s.held :=
  feed_start_induction (P := fun us s => Explained us s.output s.held) .start
    (fun _ _ _ _ hfeed hstep hs => hs.step (tracks_of_feed hfeed) hstep) h

/-! ## From the log to the order -/

theorem pair_sublist_or {β : Type} {l : List β} {x y : β} (hx : x ∈ l) (hy : y ∈ l) (hne : x ≠ y) :
    [x, y].Sublist l ∨ [y, x].Sublist l := by
  obtain ⟨pre, post, rfl⟩ := List.append_of_mem hy
  rcases List.mem_append.1 hx with hx | hx
  · exact .inl ((List.singleton_sublist.2 hx).append (List.singleton_sublist.2 List.mem_cons_self))
  · have hpost : x ∈ post := (List.mem_cons.1 hx).resolve_left hne
    have htail : [y, x].Sublist (y :: post) := (List.singleton_sublist.2 hpost).cons_cons y
    exact .inr (htail.trans (List.sublist_append_right pre _))

/-- The tokens of a log with their places, the first one first. -/
def order (log : List (Emission α)) : List (Token α × Nat) :=
  log.reverse.map Emission.origin

theorem exists_origin_eq {x : Token α × Nat} (hx : x ∈ order log) : ∃ e ∈ log, e.origin = x := by
  obtain ⟨e, he, rfl⟩ := List.mem_map.1 hx
  exact ⟨e, List.mem_reverse.1 he, rfl⟩

theorem map_fst_order (log : List (Emission α)) :
    (order log).map Prod.fst = (log.map Emission.token).reverse := by
  rw [order, List.map_map, List.map_reverse]
  rfl

theorem map_snd_order (log : List (Emission α)) :
    (order log).map Prod.snd = (log.map Emission.place).reverse := by
  rw [order, List.map_map, List.map_reverse]
  rfl

namespace Logged

/-- What cannot have come before `e` comes behind it. -/
theorem precedes_of_not_due (h : Logged us n log) {e f : Emission α} (he : e ∈ log) (hf : f ∈ log)
    (hne : e ≠ f) (hdue : ¬ f.Due e.moment) : Precedes (order log) e.origin f.origin := by
  have hsublist : [f, e].Sublist log := by
    rcases pair_sublist_or hf he hne.symm with hsublist | hsublist
    · exact hsublist
    · have hsorted := List.pairwise_iff_forall_sublist.1 h.sorted hsublist
      exact absurd hsorted hdue
  exact hsublist.reverse.map Emission.origin

theorem precedes_of_lt (h : Logged us n log) {e f : Emission α} (he : e ∈ log) (hf : f ∈ log)
    (hlt : e.moment < f.moment) : Precedes (order log) e.origin f.origin := by
  refine h.precedes_of_not_due he hf ?_ ?_
  · rintro rfl
    exact Nat.lt_irrefl _ hlt
  · rintro (hbefore | ⟨heq, -⟩) <;> omega

theorem exists_completed (h : Logged us n log) :
    ∃ ends, List.Forall₂ (CompletedAt us) ((order log).filter fun x => !x.1.isOperator) ends ∧
      ends.Pairwise (· < ·) := by
  refine ⟨(log.reverse.filter fun e => !e.token.isOperator).map Emission.moment, ?_, ?_⟩
  · have hfilter : (order log).filter (fun x => !x.1.isOperator) =
        (log.reverse.filter fun e => !e.token.isOperator).map Emission.origin := by
      rw [order, List.filter_map]
      rfl
    rw [hfilter, List.forall₂_map_left_iff, List.forall₂_map_right_iff, List.forall₂_same]
    intro e he
    obtain ⟨hlog, hop⟩ := List.mem_filter.1 he
    exact (h.sound e (List.mem_reverse.1 hlog)).completed (by simpa using hop)
  · rw [List.pairwise_map, List.pairwise_filter, List.pairwise_reverse]
    refine h.sorted.imp fun {f e} hdue he hf => ?_
    rcases hdue with hlt | ⟨-, hop⟩
    · exact hlt
    · rw [hop] at he
      cases he

theorem order_perm (h : Logged us n log) (hnodup : (log.map Emission.place).Nodup)
    (hlength : log.length = (us.filter Token.isComputed).length) :
    (order log).Perm (us.zipIdx.filter fun x => x.1.isComputed) := by
  have horder : (order log).Nodup := by
    have hplaces : ((order log).map Prod.snd).Nodup := by
      rw [map_snd_order]
      exact List.nodup_reverse.2 hnodup
    exact hplaces.of_map
  have hsubset : order log ⊆ us.zipIdx.filter fun x => x.1.isComputed := by
    intro x hx
    obtain ⟨e, he, rfl⟩ := exists_origin_eq hx
    have hsound := h.sound e he
    exact List.mem_filter.2 ⟨List.mk_mem_zipIdx_iff_getElem?.2 hsound.at_place, hsound.isComputed⟩
  refine (horder.subperm hsubset).perm_of_length_le ?_
  have htokens : ((us.zipIdx.filter fun x => x.1.isComputed).map Prod.fst) =
      us.filter Token.isComputed := by
    conv_rhs => rw [← List.zipIdx_map_fst 0 us, List.filter_map]
    rfl
  rw [← List.length_map Prod.fst, htokens, ← hlength, order, List.length_map, List.length_reverse]

theorem arranged (h : Logged us n log) (hnodup : (log.map Emission.place).Nodup)
    (hlength : log.length = (us.filter Token.isComputed).length) : Arranged us (order log) where
  perm := h.order_perm hnodup hlength
  completed := h.exists_completed
  behind := by
    intro x hx y hy hop hprompt hlt
    obtain ⟨e, he, rfl⟩ := exists_origin_eq hx
    obtain ⟨f, hf, rfl⟩ := exists_origin_eq hy
    have hplace : e.place < e.moment := (h.sound e he).lt_moment hop
    have hmoment : f.moment = f.place := (h.sound f hf).moment_eq_place hprompt
    have hearlier : f.moment < e.moment := hmoment.trans_lt (Nat.lt_trans hlt hplace)
    exact h.precedes_of_lt hf he hearlier
  before := by
    intro x hx y hy hop hprompt k hk hlt
    obtain ⟨e, he, rfl⟩ := exists_origin_eq hx
    obtain ⟨f, hf, rfl⟩ := exists_origin_eq hy
    have hslot : e.moment ≤ k := (h.sound e he).moment_le hop k hk
    have hmoment : f.moment = f.place := (h.sound f hf).moment_eq_place hprompt
    have hearlier : e.moment < f.moment := hmoment ▸ Nat.lt_of_le_of_lt hslot hlt
    exact h.precedes_of_lt he hf hearlier
  inside := by
    intro x hx y hy hop k hcall hyx hxk
    obtain ⟨e, he, rfl⟩ := exists_origin_eq hx
    obtain ⟨f, hf, rfl⟩ := exists_origin_eq hy
    have hsound := h.sound e he
    have hne : f.place + 1 ≠ e.place := by
      intro heq
      have htoken := Option.some.inj (hsound.at_place.symm.trans (heq ▸ hcall.opening))
      rw [Emission.origin, htoken] at hop
      cases hop
    have hweight := Token.weight_of_isComputed (Token.isComputed_of_isOperator hop)
    obtain ⟨l, hlk, hl⟩ := hcall.exists_boundsSlot (Nat.lt_of_le_of_ne hyx hne) hxk
      hsound.at_place hweight
    have hslot : e.moment ≤ l := hsound.moment_le hop l hl
    -- The call is put out at the moment `k`, and then operators come first.
    obtain ⟨hfunction, hmoment⟩ := (h.sound f hf).moment_eq_of_closesCall hcall
    refine h.precedes_of_not_due he hf ?_ ?_
    · rintro rfl
      exact Bool.false_ne_true (hfunction.symm.trans hop)
    · rintro (hbefore | ⟨-, htrue⟩)
      · omega
      · exact Bool.false_ne_true (hfunction.symm.trans htrue)

end Logged

end Reordering

open Reordering

/-- The postfix order of tokens is an arrangement of them. -/
theorem exists_arranged_of_toPostfix {ts p : List (Token α)} (h : toPostfix ts = .ok p) :
    ∃ order, order.map Prod.fst = p ∧ Arranged ts order := by
  obtain ⟨s, hfeed, hresult⟩ := bind_eq_ok_iff.1 h
  obtain ⟨-, hheld, hp⟩ := result_eq_ok_iff.1 hresult
  have hexplained := explained_of_feed hfeed
  rw [← List.append_nil s.held] at hexplained
  obtain ⟨log, stack, hlog⟩ := hexplained.release hheld
  have horder : (order log).map Prod.fst = p := by
    rw [map_fst_order, hlog.output, List.reverse_append, List.reverse_reverse, hp]
  refine ⟨order log, horder, hlog.logged.arranged ?_ ?_⟩
  · exact hlog.nodup.of_append_left
  · have hlength := (toPostfix_perm h).length_eq
    rw [← horder] at hlength
    simpa [order] using hlength

/-- In `2 * max(1 + 3, 4) - 5!` the addition comes before the `4` behind its slot and before
`max`, which comes where its call closes. -/
theorem exists_arranged_of_maximum_in_difference :
    toPostfix [(.operand 2 : Token Nat), .infixOp .multiply, .function "max" 2, .opening,
        .operand 1, .infixOp .add, .operand 3, .comma, .operand 4, .closing, .infixOp .subtract,
        .operand 5, .postfixOp .factorial] =
      .ok [.operand 2, .operand 1, .operand 3, .infixOp .add, .operand 4, .function "max" 2,
        .infixOp .multiply, .operand 5, .postfixOp .factorial, .infixOp .subtract] ∧
    ∃ order, order.map Prod.fst =
        [.operand 2, .operand 1, .operand 3, .infixOp .add, .operand 4, .function "max" 2,
          .infixOp .multiply, .operand 5, .postfixOp .factorial, .infixOp .subtract] ∧
      Arranged [(.operand 2 : Token Nat), .infixOp .multiply, .function "max" 2, .opening,
        .operand 1, .infixOp .add, .operand 3, .comma, .operand 4, .closing, .infixOp .subtract,
        .operand 5, .postfixOp .factorial] order :=
  ⟨rfl, exists_arranged_of_toPostfix rfl⟩

end Formula
