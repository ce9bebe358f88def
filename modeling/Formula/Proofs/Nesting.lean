import Mathlib.Data.List.Basic
import Mathlib.Data.List.Infix
import Formula.Token

/-!
# How tokens are nested

`depth ts` counts the parentheses that the tokens `ts` open and do not close.  Tokens are `Nested`
if no parenthesis is closed before it is opened, and `Balanced` if in addition all are closed.  The
parenthesis that is open last before a place is the one with balanced tokens between it and the
place; there is only one (`eq_of_append_opening_eq`).
-/

namespace Formula

variable {α : Type}

namespace Token

/-- What a token adds to the number of open parentheses. -/
def weight : Token α → Int
  | opening => 1
  | closing => -1
  | _ => 0

end Token

/-- The number of parentheses that are opened, less the number of those that are closed. -/
def depth : List (Token α) → Int
  | [] => 0
  | t :: ts => t.weight + depth ts

/-- Whether no parenthesis is closed before it is opened. -/
def Nested (ts : List (Token α)) : Prop :=
  ∀ us, us <+: ts → 0 ≤ depth us

/-- Whether all parentheses are properly nested and closed. -/
structure Balanced (ts : List (Token α)) : Prop where
  nested : Nested ts
  depth_eq : depth ts = 0

/-! ## Depth -/

@[simp]
theorem depth_nil : depth ([] : List (Token α)) = 0 :=
  rfl

@[simp]
theorem depth_cons (t : Token α) (ts : List (Token α)) : depth (t :: ts) = t.weight + depth ts :=
  rfl

@[simp]
theorem depth_append (ts us : List (Token α)) : depth (ts ++ us) = depth ts + depth us := by
  induction ts with
  | nil => rw [List.nil_append, depth_nil, Int.zero_add]
  | cons t ts ih => rw [List.cons_append, depth_cons, depth_cons, ih, Int.add_assoc]

/-! ## Nested tokens -/

theorem Nested.depth_nonneg {ts : List (Token α)} (h : Nested ts) : 0 ≤ depth ts :=
  h ts (List.prefix_refl ts)

theorem Nested.of_append {ts us : List (Token α)} (h : Nested (ts ++ us)) : Nested ts :=
  fun vs hvs => h vs (hvs.trans (List.prefix_append ts us))

theorem nested_nil : Nested ([] : List (Token α)) := by
  intro us hus
  obtain rfl := List.prefix_nil.1 hus
  exact Int.le_refl 0

theorem nested_append_iff {ts us : List (Token α)} :
    Nested (ts ++ us) ↔ Nested ts ∧ ∀ vs, vs <+: us → 0 ≤ depth ts + depth vs := by
  constructor
  · intro h
    refine ⟨h.of_append, fun vs hvs => ?_⟩
    have hprefix := h (ts ++ vs) ((List.prefix_append_right_inj ts).2 hvs)
    rwa [depth_append] at hprefix
  · rintro ⟨hts, hus⟩ vs hvs
    rcases List.prefix_or_prefix_of_prefix hvs (List.prefix_append ts us) with hvs | ⟨ws, rfl⟩
    · exact hts vs hvs
    · rw [depth_append]
      exact hus ws ((List.prefix_append_right_inj ts).1 hvs)

theorem nested_concat_iff {ts : List (Token α)} {t : Token α} :
    Nested (ts ++ [t]) ↔ Nested ts ∧ 0 ≤ depth ts + t.weight := by
  constructor
  · intro h
    have hdepth := h.depth_nonneg
    rw [depth_append, depth_cons, depth_nil, Int.add_zero] at hdepth
    exact ⟨h.of_append, hdepth⟩
  · rintro ⟨hts, hdepth⟩ us hus
    rcases List.prefix_concat_iff.1 hus with rfl | hus
    · rwa [depth_append, depth_cons, depth_nil, Int.add_zero]
    · exact hts us hus

/-! ## Balanced tokens -/

theorem balanced_nil : Balanced ([] : List (Token α)) :=
  ⟨nested_nil, rfl⟩

theorem Balanced.append {ts us : List (Token α)} (hts : Balanced ts) (hus : Balanced us) :
    Balanced (ts ++ us) := by
  refine ⟨nested_append_iff.2 ⟨hts.nested, fun vs hvs => ?_⟩, ?_⟩
  · rw [hts.depth_eq, Int.zero_add]
    exact hus.nested vs hvs
  · rw [depth_append, hts.depth_eq, hus.depth_eq, Int.zero_add]

/-- What is left of balanced tokens behind balanced ones is balanced. -/
theorem Balanced.of_append_left {ts us : List (Token α)} (h : Balanced (ts ++ us))
    (hts : Balanced ts) : Balanced us := by
  refine ⟨fun vs hvs => ?_, ?_⟩
  · have hnonneg := (nested_append_iff.1 h.nested).2 vs hvs
    rwa [hts.depth_eq, Int.zero_add] at hnonneg
  · have hdepth := h.depth_eq
    rwa [depth_append, hts.depth_eq, Int.zero_add] at hdepth

theorem balanced_singleton {t : Token α} (ht : t.weight = 0) : Balanced [t] := by
  have hnested : Nested ([] ++ [t]) := nested_concat_iff.2 ⟨nested_nil, by simp [ht]⟩
  exact ⟨hnested, by simp [ht]⟩

theorem Balanced.group {ts : List (Token α)} (h : Balanced ts) :
    Balanced (.opening :: ts ++ [.closing]) := by
  have hopen : Nested (.opening :: ts) := by
    intro us hus
    rcases List.prefix_cons_iff.1 hus with rfl | ⟨vs, rfl, hvs⟩
    · exact Int.le_refl 0
    · have hnonneg := h.nested vs hvs
      rw [depth_cons, Token.weight]
      omega
  refine ⟨nested_concat_iff.2 ⟨hopen, ?_⟩, ?_⟩
  · simp [Token.weight, h.depth_eq]
  · simp [Token.weight, h.depth_eq]

/-- Balanced tokens leave no parenthesis open. -/
theorem Balanced.ne_append_opening {ts inner : List (Token α)} (hinner : Balanced inner)
    (pre : List (Token α)) (h : Balanced ts) : ts ≠ pre ++ .opening :: inner := by
  rintro rfl
  have hpre := h.nested.of_append.depth_nonneg
  have hdepth := h.depth_eq
  rw [depth_append, depth_cons, hinner.depth_eq, Token.weight] at hdepth
  omega

/-- The parenthesis that is open last is determined. -/
theorem eq_of_append_opening_eq {pre pre' inner inner' : List (Token α)} (h : Balanced inner)
    (h' : Balanced inner') (heq : pre ++ .opening :: inner = pre' ++ .opening :: inner') :
    pre = pre' ∧ inner = inner' := by
  rcases List.append_eq_append_iff.1 heq with ⟨ws, rfl, hws⟩ | ⟨ws, rfl, hws⟩
  · rcases ws with _ | ⟨w, ws⟩
    · obtain ⟨-, rfl⟩ := List.cons.inj hws
      exact ⟨(List.append_nil _).symm, rfl⟩
    · obtain ⟨-, hinner⟩ := List.cons.inj hws
      exact absurd hinner (h'.ne_append_opening ws h)
  · rcases ws with _ | ⟨w, ws⟩
    · obtain ⟨-, rfl⟩ := List.cons.inj hws
      exact ⟨List.append_nil _, rfl⟩
    · obtain ⟨-, hinner⟩ := List.cons.inj hws
      exact absurd hinner (h.ne_append_opening ws h')

/-- Where more is closed than opened, some parenthesis closes one that was open before. -/
theorem exists_closing {d : Int} {ts : List (Token α)} (hd : 0 ≤ d) (h : d + depth ts < 0) :
    ∃ inner post, ts = inner ++ .closing :: post ∧ (∀ us, us <+: inner → 0 ≤ d + depth us) ∧
      d + depth inner = 0 := by
  induction ts generalizing d with
  | nil =>
    rw [depth_nil] at h
    omega
  | cons t ts ih =>
    rw [depth_cons] at h
    by_cases ht : 0 ≤ d + t.weight
    · obtain ⟨inner, post, rfl, hinner, hdepth⟩ := ih ht (by omega)
      refine ⟨t :: inner, post, rfl, fun us hus => ?_, ?_⟩
      · rcases List.prefix_cons_iff.1 hus with rfl | ⟨vs, rfl, hvs⟩
        · simpa using hd
        · have hnonneg := hinner vs hvs
          rw [depth_cons]
          omega
      · rw [depth_cons]
        omega
    · -- Only a closing parenthesis takes the count below zero.
      cases t with
      | closing =>
        rw [Token.weight] at ht
        refine ⟨[], ts, rfl, fun us hus => ?_, ?_⟩
        · rw [List.prefix_nil.1 hus]
          simpa using hd
        · rw [depth_nil]
          omega
      | opening =>
        rw [Token.weight] at ht
        omega
      | operand _ | function _ _ | infixOp _ | prefixOp _ | postfixOp _ | comma =>
        change ¬ 0 ≤ d + 0 at ht
        omega

/-! ## Unclosed parentheses -/

/-- Whether some parenthesis in `ts` is not closed by the tokens behind it. -/
def Unclosed (ts : List (Token α)) : Prop :=
  ∃ pre inner, ts = pre ++ .opening :: inner ∧ Nested inner

theorem weight_le_one (t : Token α) : t.weight ≤ 1 := by
  cases t <;> simp [Token.weight]

theorem eq_opening_of_weight_pos {t : Token α} (h : 0 < t.weight) : t = .opening := by
  cases t <;> simp [Token.weight] at h ⊢

theorem Unclosed.cons {ts : List (Token α)} (h : Unclosed ts) (t : Token α) :
    Unclosed (t :: ts) := by
  obtain ⟨pre, inner, rfl, hinner⟩ := h
  exact ⟨t :: pre, inner, rfl, hinner⟩

theorem unclosed_of_suffix {ts vs : List (Token α)} (hvs : vs <:+ ts) (h : 0 < depth vs) :
    Unclosed ts := by
  induction ts generalizing vs with
  | nil =>
    rw [List.suffix_nil.1 hvs, depth_nil] at h
    omega
  | cons t ts ih =>
    rcases List.suffix_cons_iff.1 hvs with rfl | hvs
    · by_cases hlater : ∃ ws, ws <:+ ts ∧ 0 < depth ws
      · obtain ⟨ws, hws, hdepth⟩ := hlater
        exact (ih hws hdepth).cons t
      · -- Every end of the other tokens closes at least as much as it opens, so `t` is unclosed.
        have hend : ∀ ws, ws <:+ ts → depth ws ≤ 0 := fun ws hws =>
          Int.not_lt.1 fun hpos => hlater ⟨ws, hws, hpos⟩
        have hts := hend ts (List.suffix_refl ts)
        rw [depth_cons] at h
        have hweight := weight_le_one t
        obtain rfl := eq_opening_of_weight_pos (t := t) (by omega)
        refine ⟨[], ts, rfl, ?_⟩
        rintro us ⟨ws, rfl⟩
        have hws := hend ws (List.suffix_append us ws)
        rw [depth_append] at h
        omega
    · exact (ih hvs h).cons t

theorem unclosed_iff_depth_pos {ts : List (Token α)} (h : Nested ts) :
    Unclosed ts ↔ 0 < depth ts := by
  constructor
  · rintro ⟨pre, inner, rfl, hinner⟩
    have hpre := h.of_append.depth_nonneg
    have hdepth := hinner.depth_nonneg
    rw [depth_append, depth_cons, Token.weight]
    omega
  · exact unclosed_of_suffix (List.suffix_refl ts)

end Formula
