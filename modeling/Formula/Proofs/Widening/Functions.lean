import Mathlib.Data.List.Forall2
import Formula.Library.Real
import Formula.Proofs.Success
import Formula.Proofs.Symbols
import Formula.Proofs.Widening.Basic

/-!
# Functions and constants in a wider number type

A host function follows another one if it has the same arity and the mapped value of every call that
had a value; a failing call may turn out either way.  The library functions do, and so do tables
that are built in the same way.
-/

namespace Formula

variable {α β : Type} {f : α → β}

/-! ## Host functions -/

/-- Whether `k'` has the arity of `k` and the values of `k`, mapped by `f`. -/
structure HostFunction.Follows (f : α → β) (k : HostFunction α) (k' : HostFunction β) : Prop where
  arity_eq : k'.arity = k.arity
  body_map : ∀ args a, k.body args = .ok a → k'.body (args.map f) = .ok (f a)

/-- The same for functions and results before they are made into host functions. -/
structure HostBody.Follows (f : α → β) {φ ψ : Type} [HostBody α φ] [HostBody β ψ] (x : φ) (y : ψ) :
    Prop where
  arity_eq : HostBody.arity β ψ = HostBody.arity α φ
  call?_map : ∀ args a, HostBody.call? x args = some (.ok a) →
    HostBody.call? y (args.map f) = some (.ok (f a))

namespace HostBody

theorem Follows.value (a : α) : HostBody.Follows f a (f a) where
  arity_eq := rfl
  call?_map args b h := by
    cases args with
    | nil =>
      cases h
      rfl
    | cons c args => cases h

theorem Follows.fallible {x : Except String α} {y : Except String β}
    (h : ∀ a, x = .ok a → y = .ok (f a)) : HostBody.Follows f x y where
  arity_eq := rfl
  call?_map args a hx := by
    cases args with
    | nil =>
      rw [List.map_nil]
      exact congrArg some (h a (Option.some.inj hx))
    | cons c args => cases hx

theorem Follows.curried [Number α] {φ ψ : Type} [HostBody α φ] [HostBody β ψ] {k : α → φ}
    {k' : β → ψ} (h : ∀ a, HostBody.Follows f (k a) (k' (f a))) : HostBody.Follows f k k' where
  arity_eq := congrArg (· + 1) (h Number.zero).arity_eq
  call?_map args a hk := by
    cases args with
    | nil => cases hk
    | cons c args => exact (h c).call?_map args a hk

theorem Follows.of {φ ψ : Type} [HostBody α φ] [HostBody β ψ] {x : φ} {y : ψ}
    (h : HostBody.Follows f x y) :
    (HostFunction.of x : HostFunction α).Follows f (HostFunction.of y) where
  arity_eq := h.arity_eq
  body_map args a hbody := by
    have hcall : HostBody.call? x args = some (.ok a) := by
      unfold HostFunction.of at hbody
      dsimp only at hbody
      cases hx : HostBody.call? x args with
      | none =>
        rw [hx] at hbody
        cases hbody
      | some r =>
        rw [hx] at hbody
        exact congrArg some hbody
    unfold HostFunction.of
    dsimp only
    rw [h.call?_map args a hcall, Option.getD_some]

end HostBody

/-! ## The library -/

namespace Widening

variable [Number α] [Number β] (hf : Widening f)
include hf

open Library

theorem magnitude_map {x a : α} (h : magnitude x = .ok a) : magnitude (f x) = .ok (f a) := by
  unfold magnitude at h ⊢
  rw [hf.isNegative_map]
  split at h
  · rename_i hnegative
    rw [if_pos hnegative]
    cases hx : Number.neg? x with
    | none =>
      rw [hx] at h
      cases h
    | some b =>
      rw [hx] at h
      cases h
      rw [hf.neg? x a hx]
  · rename_i hnegative
    rw [if_neg hnegative]
    cases h
    rfl

theorem map_minimum (a b : α) : f (minimum a b) = minimum (f a) (f b) := by
  rw [minimum, minimum, hf.less_map]
  split <;> rfl

theorem map_maximum (a b : α) : f (maximum a b) = maximum (f a) (f b) := by
  rw [maximum, maximum, hf.less_map]
  split <;> rfl

theorem map_sign (a : α) : f (sign a) = sign (f a) := by
  obtain ⟨m, hm⟩ := Option.isSome_iff_exists.1 hf.isSome_neg?_one
  have hm' := hf.neg? _ m hm
  rw [hf.map_one] at hm'
  rw [sign, sign, ← hf.map_zero, hf.less_map, hf.isNegative_map, hm, hm', Option.getD_some,
    Option.getD_some]
  split
  · exact hf.map_one
  · split <;> rfl

theorem gcdWithin_map {rounds : Nat} {a b c : α} (h : gcdWithin rounds a b = .ok c) :
    gcdWithin rounds (f a) (f b) = .ok (f c) := by
  induction rounds generalizing a b with
  | zero =>
    cases h
    rfl
  | succ rounds ih =>
    unfold gcdWithin at h ⊢
    rw [hf.isZero_map]
    split at h
    · rename_i hzero
      rw [if_pos hzero]
      cases h
      rfl
    · rename_i hzero
      rw [if_neg hzero]
      cases hr : Number.remainder? a b with
      | none =>
        rw [hr] at h
        cases h
      | some r =>
        rw [hr] at h
        rw [hf.remainder? a b r hr]
        exact ih h

theorem gcd_map {a b c : α} (h : Library.gcd a b = .ok c) :
    Library.gcd (f a) (f b) = .ok (f c) := by
  unfold Library.gcd at h ⊢
  rw [hf.toInt?_map, hf.toInt?_map]
  split at h
  · obtain ⟨x, hx, h⟩ := bind_eq_ok_iff.1 h
    obtain ⟨y, hy, h⟩ := bind_eq_ok_iff.1 h
    exact bind_eq_ok_iff.2 ⟨f x, hf.magnitude_map hx,
      bind_eq_ok_iff.2 ⟨f y, hf.magnitude_map hy, hf.gcdWithin_map h⟩⟩
  · cases h

theorem basicFunctions_follow :
    List.Forall₂ (fun k k' => k'.1 = k.1 ∧ k.2.Follows f k'.2)
      (basicFunctions α) (basicFunctions β) := by
  refine .cons ⟨rfl, ?_⟩ <| .cons ⟨rfl, ?_⟩ <| .cons ⟨rfl, ?_⟩ <| .cons ⟨rfl, ?_⟩ <|
    .cons ⟨rfl, ?_⟩ .nil
  · exact (HostBody.Follows.curried fun a => .fallible fun _ => hf.magnitude_map).of
  · refine (HostBody.Follows.curried fun a => .curried fun b => ?_).of
    rw [← hf.map_minimum]
    exact .value _
  · refine (HostBody.Follows.curried fun a => .curried fun b => ?_).of
    rw [← hf.map_maximum]
    exact .value _
  · refine (HostBody.Follows.curried fun a => ?_).of
    rw [← hf.map_sign]
    exact .value _
  · exact (HostBody.Follows.curried fun a => .curried fun b => .fallible fun _ => hf.gcd_map).of

end Widening

/-! ## Symbol tables -/

namespace SymbolTable

/-- Whether the functions of a table follow those of another one, and its constants are the mapped
ones. -/
structure Follows (f : α → β) (table : SymbolTable α) (table' : SymbolTable β) : Prop where
  function?_rel : ∀ name,
    Option.Rel (HostFunction.Follows f) (table.function? name) (table'.function? name)
  constant?_map : ∀ name, table'.constant? name = (table.constant? name).map f

theorem follows_empty : (empty : SymbolTable α).Follows f empty where
  function?_rel _ := .none
  constant?_map _ := rfl

variable {table : SymbolTable α} {table' : SymbolTable β}

theorem Follows.insertFunction (h : table.Follows f table') (name : String) {k : HostFunction α}
    {k' : HostFunction β} (hk : k.Follows f k') :
    (table.insertFunction name k).1.Follows f (table'.insertFunction name k').1 := by
  by_cases hname : isIdentifier name = true
  · constructor
    · intro key
      rw [function?_insertFunction hname, function?_insertFunction hname]
      split
      · exact .some hk
      · exact h.function?_rel key
    · intro key
      rw [constant?_insertFunction hname, constant?_insertFunction hname]
      split
      · rfl
      · exact h.constant?_map key
  · rwa [SymbolTable.insertFunction, SymbolTable.insertFunction, if_neg hname, if_neg hname]

theorem Follows.insertConstant (h : table.Follows f table') (name : String) (a : α) :
    (table.insertConstant name a).1.Follows f (table'.insertConstant name (f a)).1 := by
  by_cases hname : isIdentifier name = true
  · constructor
    · intro key
      rw [function?_insertConstant hname, function?_insertConstant hname]
      split
      · exact .none
      · exact h.function?_rel key
    · intro key
      rw [constant?_insertConstant hname, constant?_insertConstant hname]
      split
      · rfl
      · exact h.constant?_map key
  · rwa [SymbolTable.insertConstant, SymbolTable.insertConstant, if_neg hname, if_neg hname]

theorem Follows.addFunctions (h : table.Follows f table') {ks : List (String × HostFunction α)}
    {ks' : List (String × HostFunction β)}
    (hks : List.Forall₂ (fun k k' => k'.1 = k.1 ∧ k.2.Follows f k'.2) ks ks') :
    (Library.addFunctions table ks).Follows f (Library.addFunctions table' ks') := by
  induction hks generalizing table table' with
  | nil => exact h
  | @cons k k' ks ks' hk _ ih =>
    rw [Library.addFunctions, Library.addFunctions, List.foldl_cons, List.foldl_cons, hk.1]
    exact ih (h.insertFunction k.1 hk.2)

theorem Follows.addConstants (h : table.Follows f table') (constants : List (String × α)) :
    (Library.addConstants table constants).Follows f
      (Library.addConstants table' (constants.map fun c => (c.1, f c.2))) := by
  induction constants generalizing table table' with
  | nil => exact h
  | cons c constants ih => exact ih (h.insertConstant c.1 c.2)

end SymbolTable

end Formula
