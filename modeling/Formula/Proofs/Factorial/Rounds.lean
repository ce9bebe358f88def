import Formula.Operator.Apply
import Formula.Proofs.Factorial.Exact

/-!
# The rounds of a factorial

`PartialFactorial.Finishes value s m e` says that the loop, begun in the state `s`, multiplies `m`
times and ends as `e` says; nothing bounds its rounds.  This is what `PartialFactorial.run` computes
as soon as it is given as many rounds (`Finishes.run_eq`).  Where the counter is exact up to a limit
and never gets beyond it, the loop multiplies no more often than the limit says
(`Counts.exists_course`).
-/

namespace Formula

open Number

variable {α : Type} [Number α]

namespace PartialFactorial

/-- How the factorial of a value comes to its end. -/
inductive Ending (α : Type) where
  /-- The value has no factorial, and the loop does not begin. -/
  | refused
  /-- The counter is no longer below the value. -/
  | reached (state : PartialFactorial α)
  /-- The product can no longer change. -/
  | saturated (product : α)
  /-- The product is lost. -/
  | overflow

/-- What the factorial of a value is, by how it ends. -/
def Ending.result (value : α) : Ending α → Except Failure α
  | refused => .error (.outsideDomain (.factorial (text value)))
  | reached s => .ok s.product
  | saturated product => .ok product
  | overflow => .error (.overflow PostfixOp.factorial.spelling)

/-- The rounds of the loop from a state to the end, with the number of multiplications in them. -/
inductive Finishes (value : α) : PartialFactorial α → Nat → Ending α → Prop
  | reached {s : PartialFactorial α} (hless : less s.counter value = false) :
    Finishes value s 0 (.reached s)
  | overflow {s : PartialFactorial α} {c : α} (hless : less s.counter value = true)
    (hadd : add? s.counter one = some c) (hmul : mul? s.product c = none) :
    Finishes value s 1 .overflow
  | saturated {s : PartialFactorial α} {c p : α} (hless : less s.counter value = true)
    (hadd : add? s.counter one = some c) (hmul : mul? s.product c = some p)
    (hsaturated : isSaturated p = true) : Finishes value s 1 (.saturated p)
  | more {s : PartialFactorial α} {c p : α} {m : Nat} {e : Ending α}
    (hless : less s.counter value = true) (hadd : add? s.counter one = some c)
    (hmul : mul? s.product c = some p) (hsaturated : isSaturated p = false)
    (hrest : Finishes value ⟨c, p⟩ m e) : Finishes value s (m + 1) e

/-- The whole course of a factorial: the loop begins if the value is a natural number. -/
inductive Course (value : α) : Nat → Ending α → Prop
  | refused (h : isNegative value = true ∨ isIntegral value = false) : Course value 0 .refused
  | loop {m : Nat} {e : Ending α} (hsign : isNegative value = false)
    (hwhole : isIntegral value = true) (hrest : Finishes value .start m e) : Course value m e

variable {value : α} {s s' : PartialFactorial α} {m : Nat} {e : Ending α}

/-! ## One round -/

/-- A round that leads to another one has raised the counter, and its product can still change. -/
theorem of_next_eq_more (h : s.next value = .more s') :
    less s.counter value = true ∧ add? s.counter one = some s'.counter ∧
      mul? s.product s'.counter = some s'.product ∧ isSaturated s'.product = false := by
  unfold next at h
  split at h
  · rename_i hless
    split at h
    · cases h
    · rename_i c hadd
      split at h
      · cases h
      · rename_i p hmul
        split at h
        · cases h
        · rename_i hsaturated
          cases h
          exact ⟨hless, hadd, hmul, Bool.eq_false_iff.2 hsaturated⟩
  · cases h

theorem Reached.of_add {c p : α} (h : Reached value s) (hless : less s.counter value = true)
    (hadd : add? s.counter one = some c) (hmul : mul? s.product c = some p)
    (hsaturated : isSaturated p = false) : Reached value ⟨c, p⟩ := by
  refine h.more ?_
  rw [next_of_mul_eq_some hless hadd hmul, hsaturated]
  rfl

/-! ## All rounds -/

/-- There is only one way to the end. -/
theorem Finishes.unique {m' : Nat} {e' : Ending α} (h : Finishes value s m e)
    (h' : Finishes value s m' e') : m' = m ∧ e' = e := by
  induction h generalizing m' e' with
  | reached hless => cases h' <;> simp_all
  | overflow hless hadd hmul => cases h' <;> simp_all
  | saturated hless hadd hmul hsaturated => cases h' <;> simp_all
  | more hless hadd hmul hsaturated hrest ih =>
    cases h' with
    | reached hless' => simp_all
    | overflow hless' hadd' hmul' => simp_all
    | saturated hless' hadd' hmul' hsaturated' => simp_all
    | more hless' hadd' hmul' hsaturated' hrest' =>
      rw [hadd] at hadd'
      cases hadd'
      rw [hmul] at hmul'
      cases hmul'
      obtain ⟨rfl, rfl⟩ := ih hrest'
      exact ⟨rfl, rfl⟩

theorem Course.unique {m' : Nat} {e' : Ending α} (h : Course value m e)
    (h' : Course value m' e') : m' = m ∧ e' = e := by
  cases h with
  | refused h => cases h' <;> simp_all
  | loop hsign hwhole hrest =>
    cases h' with
    | refused h => simp_all
    | loop _ _ hrest' => exact hrest.unique hrest'

/-- The bounded loop does what its rounds do, if they are not more than it may take. -/
theorem Finishes.run_eq (h : Finishes value s m e) {rounds : Nat} (hm : m ≤ rounds) :
    (s.run value rounds).elim (.error (.overflow PostfixOp.factorial.spelling)) .ok =
      e.result value := by
  induction h generalizing rounds with
  | reached hless =>
    cases rounds with
    | zero => rfl
    | succ rounds => rw [run, next_of_less_eq_false hless, Ending.result, Option.elim]
  | overflow hless hadd hmul =>
    cases rounds with
    | zero => omega
    | succ rounds => rw [run, next_of_mul_eq_none hless hadd hmul, Ending.result, Option.elim]
  | saturated hless hadd hmul hsaturated =>
    cases rounds with
    | zero => omega
    | succ rounds =>
      rw [run, next_of_mul_eq_some hless hadd hmul, if_pos hsaturated, Ending.result, Option.elim]
  | more hless hadd hmul hsaturated hrest ih =>
    cases rounds with
    | zero => omega
    | succ rounds =>
      rw [run, next_of_mul_eq_some hless hadd hmul, hsaturated]
      exact ih (by omega)

/-- The loop of a factorial may take as many rounds as the value says, which must be enough. -/
theorem Course.factorial_eq (h : Course value m e) (hm : ∀ n, toInt? value = some n → m ≤ n.toNat) :
    factorial value = e.result value := by
  unfold factorial
  cases h with
  | refused h =>
    split
    · rename_i n hsign hwhole
      simp [isIntegral, hsign, hwhole] at h
    · rfl
  | loop hsign hwhole hrest =>
    obtain ⟨n, hn⟩ := Option.isSome_iff_exists.1 hwhole
    rw [hsign, hn, ← hrest.run_eq (hm n hn)]
    dsimp only
    cases run value n.toNat .start <;> rfl

/-- The loop ends in a state, or after a state that it has reached. -/
theorem Finishes.ending_cases (h : Finishes value s m e) (hs : Reached value s) :
    (∃ s', Reached value s' ∧ less s'.counter value = false ∧ e = .reached s') ∨
    (∃ s' c, Reached value s' ∧ less s'.counter value = true ∧ add? s'.counter one = some c ∧
      mul? s'.product c = none ∧ e = .overflow) ∨
    ∃ s' c p, Reached value s' ∧ less s'.counter value = true ∧ add? s'.counter one = some c ∧
      mul? s'.product c = some p ∧ isSaturated p = true ∧ e = .saturated p := by
  induction h with
  | @reached s hless => exact .inl ⟨s, hs, hless, rfl⟩
  | @overflow s c hless hadd hmul => exact .inr (.inl ⟨s, c, hs, hless, hadd, hmul, rfl⟩)
  | @saturated s c p hless hadd hmul hsaturated =>
    exact .inr (.inr ⟨s, c, p, hs, hless, hadd, hmul, hsaturated, rfl⟩)
  | more hless hadd hmul hsaturated hrest ih => exact ih (hs.of_add hless hadd hmul hsaturated)

/-! ## Counting -/

/-- What the loop needs to count up to a limit on the way to a value that equals the integer `n`. -/
structure Counts (value : α) (n : Int) (limit : Nat) : Prop where
  toInt?_value : toInt? value = some n
  toInt?_one : toInt? (one : α) = some 1
  /-- Integers are compared as such. -/
  less_iff {a : α} {k : Int} : toInt? a = some k → (less a value = true ↔ k < n)
  /-- The counter is exact. -/
  add_one {a : α} {k : Int} : toInt? a = some k → 1 ≤ k → k ≤ limit → k < n →
    ∃ c, add? a one = some c ∧ toInt? c = some (k + 1)
  /-- No round begins with a larger counter. -/
  counter_le {s : PartialFactorial α} {k : Int} : Reached value s → toInt? s.counter = some k →
    k ≤ limit

section Counts

variable {n : Int} {limit : Nat}

/-- The counter runs from one to the value. -/
theorem Counts.exists_counter (h : Counts value n limit) (hs : Reached value s) :
    ∃ k : Int, toInt? s.counter = some k ∧ 1 ≤ k ∧ (k = 1 ∨ k ≤ n) := by
  induction hs with
  | start => exact ⟨1, h.toInt?_one, Int.le_refl 1, .inl rfl⟩
  | more hs hnext ih =>
    obtain ⟨k, hk, hone, -⟩ := ih
    obtain ⟨hless, hadd, -, -⟩ := of_next_eq_more hnext
    have hlt := (h.less_iff hk).1 hless
    obtain ⟨c, hc, hsucc⟩ := h.add_one hk hone (h.counter_le hs hk) hlt
    rw [hadd] at hc
    cases hc
    exact ⟨k + 1, hsucc, by omega, .inr (by omega)⟩

/-- From a state on there are as many multiplications left as there are counters up to the limit,
and up to the value. -/
theorem Counts.exists_finishes_of_lt (h : Counts value n limit) {left : Nat} {k : Int}
    (hs : Reached value s) (hk : toInt? s.counter = some k) (hone : 1 ≤ k)
    (hleft : limit < k + left) :
    ∃ m e, Finishes value s m e ∧ m + k ≤ limit + 1 ∧ (m = 0 ∨ m + k ≤ n) := by
  have hlimit := h.counter_le hs hk
  induction left generalizing s k with
  | zero => omega
  | succ left ih =>
    by_cases hlt : k < n
    · have hless := (h.less_iff hk).2 hlt
      obtain ⟨c, hadd, hc⟩ := h.add_one hk hone hlimit hlt
      cases hmul : mul? s.product c with
      | none => exact ⟨1, _, .overflow hless hadd hmul, by omega, .inr (by omega)⟩
      | some p =>
        cases hsaturated : isSaturated p with
        | true => exact ⟨1, _, .saturated hless hadd hmul hsaturated, by omega, .inr (by omega)⟩
        | false =>
          have hs' := hs.of_add hless hadd hmul hsaturated
          obtain ⟨m, e, hrest, hm, hmn⟩ :=
            ih hs' hc (by omega) (by push_cast at hleft; omega) (h.counter_le hs' hc)
          exact ⟨m + 1, e, .more hless hadd hmul hsaturated hrest, by push_cast; omega,
            .inr (by push_cast; omega)⟩
    · have hless : less s.counter value = false :=
        Bool.eq_false_iff.2 fun hless => hlt ((h.less_iff hk).1 hless)
      exact ⟨0, _, .reached hless, by push_cast; omega, .inl rfl⟩

/-- Where the loop ends because the counter is no longer below the value, it is the value, unless
that is zero. -/
theorem Counts.reaches_value (h : Counts value n limit) (hn : 0 ≤ n) (hs : Reached value s)
    (hless : less s.counter value = false) :
    toInt? s.counter = toInt? value ∨ toInt? value = some 0 := by
  obtain ⟨k, hk, hone, hle⟩ := h.exists_counter hs
  have hnot : ¬ k < n := fun hlt => Bool.eq_false_iff.1 hless ((h.less_iff hk).2 hlt)
  rw [hk, h.toInt?_value, Option.some.injEq, Option.some.injEq]
  omega

/-- The factorial of a natural number multiplies no more often than the counter's limit says, and no
more often than the bounded loop may. -/
theorem Counts.exists_course (h : Counts value n limit) (hn : 0 ≤ n)
    (hsign : isNegative value = false) :
    ∃ m e, Course value m e ∧ m ≤ limit ∧ factorial value = e.result value ∧
      Finishes value .start m e := by
  have hwhole : isIntegral value = true := Option.isSome_iff_exists.2 ⟨n, h.toInt?_value⟩
  have hleft : (limit : Int) < 1 + limit := by omega
  obtain ⟨m, e, hfinishes, hm, hmn⟩ :=
    h.exists_finishes_of_lt .start h.toInt?_one (Int.le_refl 1) hleft
  have hcourse : Course value m e := .loop hsign hwhole hfinishes
  refine ⟨m, e, hcourse, by omega, hcourse.factorial_eq fun n' hn' => ?_, hfinishes⟩
  rw [h.toInt?_value] at hn'
  cases hn'
  omega

end Counts

/-- A value that is no natural number is refused before any multiplication. -/
theorem exists_course_of_refused (h : isNegative value = true ∨ isIntegral value = false) :
    Course value 0 .refused ∧ factorial value = Ending.refused.result value :=
  ⟨.refused h, (Course.refused h).factorial_eq fun _ _ => Nat.zero_le _⟩

end PartialFactorial

end Formula
