import Mathlib.Data.List.Basic
import Formula.Proofs.Nesting

/-!
# Places in a formula

A token stands in a formula at a place, its index in the list of tokens.  Three things happen at
places: an operand or a postfix operator is complete where it stands, a call is complete where its
parenthesis closes (`CompletedAt`), and what stands in a parenthesis ends at a comma or a closing
parenthesis of the same level (`BoundsSlot`).  A call closes at one place only
(`ClosesCall.eq`), and inside a call everything ends there at the latest
(`ClosesCall.exists_boundsSlot`).
-/

namespace Formula

variable {α : Type}

namespace Token

/-- Whether a token is held back until its right operand is complete. -/
def isOperator : Token α → Bool
  | infixOp _ | prefixOp _ => true
  | _ => false

/-- Whether a token is computed as soon as it is read. -/
def isPrompt : Token α → Bool
  | operand _ | postfixOp _ => true
  | _ => false

end Token

/-- The tokens strictly between two places. -/
def between (ts : List (Token α)) (i k : Nat) : List (Token α) :=
  (ts.take k).drop (i + 1)

/-- The comma or closing parenthesis at place `k` belongs to the parenthesis in which place `i`
lies.  The first of them behind `i` ends the slot of `i`. -/
structure BoundsSlot (ts : List (Token α)) (i k : Nat) : Prop where
  lt : i < k
  balanced : Balanced (between ts i k)
  bound : ts[k]? = some .comma ∨ ts[k]? = some .closing

/-- The call whose function name stands at place `i` closes at place `k`. -/
structure ClosesCall (ts : List (Token α)) (i k : Nat) : Prop where
  lt : i + 1 < k
  name : ∃ name arity, ts[i]? = some (.function name arity)
  opening : ts[i + 1]? = some .opening
  balanced : Balanced (between ts (i + 1) k)
  closing : ts[k]? = some .closing

/-- A token, given with its place, is complete at place `k`: an operand or a postfix operator where
it stands, a function where its call closes. -/
inductive CompletedAt (ts : List (Token α)) : Token α × Nat → Nat → Prop
  | prompt {t : Token α} {i : Nat} (ht : t.isPrompt = true) : CompletedAt ts (t, i) i
  | call {name : String} {arity i k : Nat} (h : ClosesCall ts i k) :
    CompletedAt ts (.function name arity, i) k

/-! ## Tokens between places -/

theorem getElem?_append_of_eq_some {us : List (Token α)} {t : Token α} {i : Nat}
    (h : us[i]? = some t) (vs : List (Token α)) : (us ++ vs)[i]? = some t := by
  rw [List.getElem?_append_left (List.getElem?_eq_some_iff.1 h).1, h]

theorem between_append {ts : List (Token α)} {k : Nat} (hk : k ≤ ts.length) (vs : List (Token α))
    (i : Nat) : between (ts ++ vs) i k = between ts i k := by
  rw [between, between, List.take_append_of_le_length hk]

theorem between_length (ts vs : List (Token α)) (i : Nat) :
    between (ts ++ vs) i ts.length = ts.drop (i + 1) := by
  rw [between, List.take_left]

theorem between_eq_append_cons {ts : List (Token α)} {t : Token α} {i k l : Nat} (hik : i < k)
    (hkl : k < l) (ht : ts[k]? = some t) :
    between ts i l = between ts i k ++ t :: between ts k l := by
  have htake : (ts.take l)[k]? = some t := by rw [List.getElem?_take_of_lt hkl, ht]
  obtain ⟨hlt, hget⟩ := List.getElem?_eq_some_iff.1 htake
  have hdrop : (ts.take l).drop k = t :: between ts k l := by
    rw [List.drop_eq_getElem_cons hlt, hget, between]
  have hsplit : ts.take l = ts.take k ++ t :: between ts k l := by
    have htt : (ts.take l).take k = ts.take k := by rw [List.take_take, Nat.min_eq_left hkl.le]
    rw [← hdrop, ← htt, List.take_append_drop]
  have hle : i + 1 ≤ (ts.take k).length := by
    rw [List.length_take] at hlt ⊢
    omega
  rw [between.eq_def ts i l, hsplit, List.drop_append_of_le_length hle, between.eq_def ts i k]

/-- A token behind place `i`, found by the tokens between. -/
theorem between_eq_of_append_cons {ts inner post : List (Token α)} {t : Token α} {i k : Nat}
    (h : between ts i k = inner ++ t :: post) :
    ts[i + 1 + inner.length]? = some t ∧ between ts i (i + 1 + inner.length) = inner ∧
      i + 1 + inner.length < k := by
  have hget : (ts.take k)[i + 1 + inner.length]? = some t := by
    rw [← List.getElem?_drop, ← between, h]
    simp
  have hlt : i + 1 + inner.length < k := by
    obtain ⟨hlen, -⟩ := List.getElem?_eq_some_iff.1 hget
    rw [List.length_take] at hlen
    omega
  rw [List.getElem?_take_of_lt hlt] at hget
  refine ⟨hget, ?_, hlt⟩
  have hi : i < i + 1 + inner.length := by omega
  have happend := between_eq_append_cons hi hlt hget
  rw [h] at happend
  have hlen : (between ts i (i + 1 + inner.length)).length = inner.length := by
    obtain ⟨hlen, -⟩ := List.getElem?_eq_some_iff.1 hget
    rw [between, List.length_drop, List.length_take]
    omega
  exact (List.append_inj happend hlen.symm).1.symm

/-! ## Slots and calls -/

theorem BoundsSlot.of_append {ts vs : List (Token α)} {i k : Nat} (h : BoundsSlot (ts ++ vs) i k)
    (hk : k < ts.length) : BoundsSlot ts i k where
  lt := h.lt
  balanced := by
    rw [← between_append hk.le vs]
    exact h.balanced
  bound := by
    rw [← List.getElem?_append_left hk]
    exact h.bound

theorem BoundsSlot.lt_length {ts : List (Token α)} {i k : Nat} (h : BoundsSlot ts i k) :
    k < ts.length := by
  rcases h.bound with hk | hk
  · exact (List.getElem?_eq_some_iff.1 hk).1
  · exact (List.getElem?_eq_some_iff.1 hk).1

theorem ClosesCall.lt_length {ts : List (Token α)} {i k : Nat} (h : ClosesCall ts i k) :
    k < ts.length :=
  (List.getElem?_eq_some_iff.1 h.closing).1

theorem ClosesCall.append {ts : List (Token α)} {i k : Nat} (h : ClosesCall ts i k)
    (vs : List (Token α)) : ClosesCall (ts ++ vs) i k where
  lt := h.lt
  name := by
    obtain ⟨name, arity, hname⟩ := h.name
    exact ⟨name, arity, getElem?_append_of_eq_some hname vs⟩
  opening := getElem?_append_of_eq_some h.opening vs
  balanced := by
    rw [between_append h.lt_length.le]
    exact h.balanced
  closing := getElem?_append_of_eq_some h.closing vs

theorem CompletedAt.append {ts : List (Token α)} {x : Token α × Nat} {k : Nat}
    (h : CompletedAt ts x k) (vs : List (Token α)) : CompletedAt (ts ++ vs) x k := by
  cases h with
  | prompt ht => exact .prompt ht
  | call h => exact .call (h.append vs)

/-- A parenthesis that closes before place `l` cannot close at `l` again. -/
theorem ClosesCall.not_lt {ts : List (Token α)} {i k l : Nat} (h : ClosesCall ts i k)
    (h' : ClosesCall ts i l) : ¬ k < l := by
  intro hkl
  have hbalanced := h'.balanced
  rw [between_eq_append_cons h.lt hkl h.closing, List.append_cons] at hbalanced
  have hnonneg := hbalanced.nested.of_append.depth_nonneg
  rw [depth_append, h.balanced.depth_eq, depth_cons, depth_nil, Token.weight] at hnonneg
  omega

theorem ClosesCall.eq {ts : List (Token α)} {i k l : Nat} (h : ClosesCall ts i k)
    (h' : ClosesCall ts i l) : k = l :=
  Nat.le_antisymm (Nat.not_lt.1 (h'.not_lt h)) (Nat.not_lt.1 (h.not_lt h'))

theorem Balanced.closesCall {inner : List (Token α)} (h : Balanced inner) (pre : List (Token α))
    (name : String) (arity : Nat) :
    ClosesCall (pre ++ .function name arity :: .opening :: inner ++ [.closing]) pre.length
      (pre ++ .function name arity :: .opening :: inner).length where
  lt := by
    simp only [List.length_append, List.length_cons]
    omega
  name := ⟨name, arity, by simp⟩
  opening := by simp
  balanced := by
    have hinner : (pre ++ .function name arity :: .opening :: inner).drop (pre.length + 1 + 1) =
        inner := by
      rw [Nat.add_assoc, List.drop_length_add_append]
      rfl
    rwa [between_length, hinner]
  closing := List.getElem?_concat_length

/-- What stands in the parenthesis of a call ends where the call closes, or before. -/
theorem ClosesCall.exists_boundsSlot {ts : List (Token α)} {t : Token α} {c i k : Nat}
    (h : ClosesCall ts c k) (hci : c + 1 < i) (hik : i < k) (ht : ts[i]? = some t)
    (hweight : t.weight = 0) : ∃ l ≤ k, BoundsSlot ts i l := by
  have hinner : depth (between ts i k) ≤ 0 := by
    have hbalanced := h.balanced
    rw [between_eq_append_cons hci hik ht] at hbalanced
    have hbefore := hbalanced.nested.of_append.depth_nonneg
    have hdepth := hbalanced.depth_eq
    rw [depth_append, depth_cons, hweight] at hdepth
    omega
  have hclose : between ts i (k + 1) = between ts i k ++ [.closing] := by
    rw [between_eq_append_cons hik (Nat.lt_succ_self k) h.closing]
    simp [between]
  have hneg : 0 + depth (between ts i (k + 1)) < 0 := by
    rw [hclose, depth_append, depth_cons, depth_nil, Token.weight]
    omega
  obtain ⟨inner, post, heq, hprefix, hdepth⟩ := exists_closing Int.le_rfl hneg
  obtain ⟨hbound, hbetween, hlt⟩ := between_eq_of_append_cons heq
  refine ⟨i + 1 + inner.length, by omega, by omega, ?_, .inr hbound⟩
  rw [hbetween]
  refine ⟨fun us hus => ?_, by omega⟩
  have hnonneg := hprefix us hus
  omega

end Formula
