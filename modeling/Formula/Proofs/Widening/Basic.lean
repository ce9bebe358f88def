import Formula.Failure
import Formula.Number.BoundedInt

/-!
# Wider number types

A `Widening` maps the values of a number type into another one where every operation that had a
result keeps it.  A computation there `Follows` the same computation here: it gives the image of the
value or fails for the same reason, and it may only do better where a value was too large, a literal
was refused or a host function failed.  `BoundedInt.widening` is the case of 32-bit integers among
those of 64 bits.
-/

namespace Formula

variable {α β γ δ : Type}

/-! ## Results that follow -/

/-- Whether a computation with more room may get past this failure. -/
def Failure.IsAvoidable (e : Failure) : Prop :=
  e.kind = .overflow ∨ e.kind = .invalidLiteral ∨ e.kind = .functionFailed

/-- Whether `y` is the result `x` with its value mapped by `f`, unless `x` is an avoidable
failure. -/
inductive Follows (f : α → β) : Except Failure α → Except Failure β → Prop
  | ok (a : α) : Follows f (.ok a) (.ok (f a))
  | error (e : Failure) : Follows f (.error e) (.error e)
  | avoidable {e : Failure} (h : e.IsAvoidable) (y : Except Failure β) : Follows f (.error e) y

/-- Whether `y` is the value of `x` mapped by `f`, if `x` has a value. -/
def Carries (f : α → β) (x : Option α) (y : Option β) : Prop :=
  ∀ a, x = some a → y = some (f a)

variable {f : α → β} {g : γ → δ}

theorem follows_refl (x : Except Failure α) : Follows id x x := by
  cases x with
  | ok a => exact .ok a
  | error e => exact .error e

theorem follows_ok {a : α} {b : β} (h : f a = b) : Follows f (.ok a) (.ok b) := by
  rw [← h]
  exact .ok a

theorem Follows.bind {x : Except Failure α} {y : Except Failure β} {k : α → Except Failure γ}
    {l : β → Except Failure δ} (h : Follows f x y) (hk : ∀ a, Follows g (k a) (l (f a))) :
    Follows g (x >>= k) (y >>= l) := by
  cases h with
  | ok a => exact hk a
  | error e => exact .error e
  | avoidable he y => exact .avoidable he _

theorem Follows.map_some {x : Except Failure α} {y : Except Failure β} (h : Follows f x y) :
    Follows (Option.map f) (some <$> x) (some <$> y) := by
  cases h with
  | ok a => exact .ok (some a)
  | error e => exact .error e
  | avoidable he y => exact .avoidable he _

theorem Follows.ok_of_eq_ok {x : Except Failure α} {y : Except Failure β} (h : Follows f x y)
    {a : α} (hx : x = .ok a) : y = .ok (f a) := by
  cases h with
  | ok b =>
    cases hx
    rfl
  | error e => cases hx
  | avoidable he y => cases hx

theorem Follows.error_of_eq_error {x : Except Failure α} {y : Except Failure β} (h : Follows f x y)
    {e : Failure} (hx : x = .error e) (he : ¬ e.IsAvoidable) : y = .error e := by
  cases h with
  | ok b => cases hx
  | error e =>
    cases hx
    rfl
  | avoidable he' y =>
    cases hx
    exact absurd he' he

theorem carries_some (a : α) : Carries f (some a) (some (f a)) := by
  rintro _ ⟨⟩
  rfl

theorem carries_none (y : Option β) : Carries f none y :=
  nofun

theorem Carries.bind {x : Option α} {y : Option β} {k : α → Option γ} {l : β → Option δ}
    (h : Carries f x y) (hk : ∀ a, Carries g (k a) (l (f a))) : Carries g (x >>= k) (y >>= l) := by
  cases x with
  | none => exact carries_none _
  | some a =>
    rw [h a rfl]
    exact hk a

theorem Failure.IsAvoidable.follows {e : Failure} (he : e.IsAvoidable) (x : Option α)
    (y : Option β) : Carries f x y →
      Follows f (match x with | some a => .ok a | none => .error e)
        (match y with | some b => .ok b | none => .error e) := by
  intro h
  cases x with
  | none => exact .avoidable he _
  | some a =>
    rw [h a rfl]
    exact .ok a

/-! ## Widenings -/

/-- Whether `f` maps a number type into another one that keeps its results. -/
structure Widening [Number α] [Number β] (f : α → β) : Prop where
  map_zero : f Number.zero = Number.zero
  map_one : f Number.one = Number.one
  isInteger_eq : Number.isInteger β = Number.isInteger α
  text_map : ∀ a, Number.text (f a) = Number.text a
  compare?_map : ∀ a b, Number.compare? (f a) (f b) = Number.compare? a b
  toInt?_map : ∀ a, Number.toInt? (f a) = Number.toInt? a
  isSaturated_map : ∀ a, Number.isSaturated (f a) = Number.isSaturated a
  isSome_neg?_one : (Number.neg? (Number.one : α)).isSome
  ofLiteral? : ∀ cs, Carries f (Number.ofLiteral? cs) (Number.ofLiteral? cs)
  ofInt? : ∀ n, Carries f (Number.ofInt? n) (Number.ofInt? n)
  neg? : ∀ a, Carries f (Number.neg? a) (Number.neg? (f a))
  add? : ∀ a b, Carries f (Number.add? a b) (Number.add? (f a) (f b))
  sub? : ∀ a b, Carries f (Number.sub? a b) (Number.sub? (f a) (f b))
  mul? : ∀ a b, Carries f (Number.mul? a b) (Number.mul? (f a) (f b))
  quotient? : ∀ a b, Carries f (Number.quotient? a b) (Number.quotient? (f a) (f b))
  remainder? : ∀ a b, Carries f (Number.remainder? a b) (Number.remainder? (f a) (f b))
  truncatedQuotient? : ∀ a b,
    Carries f (Number.truncatedQuotient? a b) (Number.truncatedQuotient? (f a) (f b))
  fractionalPower?_map : ∀ a b,
    Number.fractionalPower? (f a) (f b) = (Number.fractionalPower? a b).map f

namespace Widening

variable [Number α] [Number β] (hf : Widening f)
include hf

theorem equal_map (a b : α) : Number.equal (f a) (f b) = Number.equal a b := by
  rw [Number.equal, hf.compare?_map, Number.equal]

theorem less_map (a b : α) : Number.less (f a) (f b) = Number.less a b := by
  rw [Number.less, hf.compare?_map, Number.less]

theorem lessEqual_map (a b : α) : Number.lessEqual (f a) (f b) = Number.lessEqual a b := by
  rw [Number.lessEqual, hf.less_map, hf.equal_map, Number.lessEqual]

theorem isZero_map (a : α) : Number.isZero (f a) = Number.isZero a := by
  rw [Number.isZero, ← hf.map_zero, hf.equal_map, Number.isZero]

theorem isNegative_map (a : α) : Number.isNegative (f a) = Number.isNegative a := by
  rw [Number.isNegative, ← hf.map_zero, hf.less_map, Number.isNegative]

theorem isTruthy_map (a : α) : Number.isTruthy (f a) = Number.isTruthy a := by
  rw [Number.isTruthy, hf.isZero_map, Number.isTruthy]

theorem map_ofBool (b : Bool) : f (Number.ofBool b) = Number.ofBool b := by
  cases b with
  | false => exact hf.map_zero
  | true => exact hf.map_one

theorem isIntegral_map (a : α) : Number.isIntegral (f a) = Number.isIntegral a := by
  rw [Number.isIntegral, hf.toInt?_map, Number.isIntegral]

theorem toInt64?_map (a : α) : Number.toInt64? (f a) = Number.toInt64? a := by
  rw [Number.toInt64?, hf.toInt?_map, Number.toInt64?]

end Widening

/-! ## Integers -/

namespace BoundedInt

/-- A 32-bit integer as one of 64 bits. -/
def widen (a : BoundedInt .w32) : BoundedInt .w64 where
  val := a.val
  neg_bound_le := Int.le_trans (by decide) a.neg_bound_le
  lt_bound := Int.lt_of_lt_of_le a.lt_bound (by decide)

theorem carries_ofInt? (n : Int) : Carries widen (ofInt? n) (ofInt? n) := by
  intro a h
  rw [ofInt?_eq_some_iff] at h ⊢
  exact h

theorem carries_quotient? (a b : BoundedInt .w32) :
    Carries widen (quotient? a b) (quotient? a.widen b.widen) := by
  unfold quotient?
  have hval : ∀ a, (widen a).val = a.val := fun _ => rfl
  rw [hval, hval]
  split
  · exact carries_none _
  · exact carries_ofInt? _

theorem carries_ofLiteral? (cs : List Char) : Carries widen (ofLiteral? cs) (ofLiteral? cs) := by
  unfold ofLiteral?
  split
  · split
    · exact carries_some zero
    · exact Carries.bind (f := id) (fun _ => id) carries_ofInt?
  · exact carries_none _

theorem widening : Widening widen where
  map_zero := rfl
  map_one := rfl
  isInteger_eq := rfl
  text_map _ := rfl
  compare?_map _ _ := rfl
  toInt?_map _ := rfl
  isSaturated_map _ := rfl
  isSome_neg?_one := by decide
  ofLiteral? := carries_ofLiteral?
  ofInt? := carries_ofInt?
  neg? _ := carries_ofInt? _
  add? _ _ := carries_ofInt? _
  sub? _ _ := carries_ofInt? _
  mul? _ _ := carries_ofInt? _
  quotient? := carries_quotient?
  remainder? a b := (carries_quotient? a b).bind fun _ => carries_ofInt? _
  truncatedQuotient? := carries_quotient?
  fractionalPower?_map _ _ := rfl

end BoundedInt

end Formula
