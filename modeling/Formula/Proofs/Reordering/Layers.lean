import Formula.Proofs.Reordering.Contents
import Formula.Proofs.Reordering.Frame
import Formula.Proofs.Reordering.Written

/-!
# What is held back between two tokens

The marks cut the operators that are held back into layers, one for each open parenthesis and one
below all of them.  From bottom to top a layer is a run of infix operators, each of which binds
tighter than those below it, and then a run of prefix operators (`IsLayer`).  Any token keeps this
and three more properties of the state (`Reordering.WellFormed`), whatever the tokens are and
wherever they stand.

An infix operator lands on something that does not yield to it, which is all that has to be known
about its layer; `Layered` says it of every operator with what lies right below it.
-/

namespace Formula

variable {α : Type}

/-! ## Layers -/

/-- Whether an operator binds tighter than another one below it.  Powers may follow each other. -/
def InfixOp.Rises (lower upper : InfixOp) : Prop :=
  lower.precedence < upper.precedence ∨ lower = .power ∧ upper = .power

/-- Whether operators, the lowest one first, are infix operators that rise and then prefix
operators. -/
def IsLayer (ops : List Held) : Prop :=
  ∃ (infixes : List InfixOp) (prefixes : List PrefixOp),
    ops = infixes.map .infixOp ++ prefixes.map .prefixOp ∧ infixes.Pairwise InfixOp.Rises

namespace InfixOp

variable {lower middle upper : InfixOp}

theorem Rises.trans (h : lower.Rises middle) (h' : middle.Rises upper) : lower.Rises upper := by
  rcases h with hlt | ⟨rfl, rfl⟩
  · rcases h' with hlt' | ⟨rfl, rfl⟩
    · exact .inl (Nat.lt_trans hlt hlt')
    · exact .inl hlt
  · exact h'

/-- The operators that do not yield are those that are exceeded. -/
theorem yieldsTo_eq_false_iff_rises :
    (Held.infixOp lower).yieldsTo upper = false ↔ lower.Rises upper := by
  have hright : lower.associatesLeft = false ↔ lower = power := by
    cases lower <;> decide
  have hpower : upper.precedence = power.precedence ↔ upper = power := by
    cases upper <;> decide
  rw [Held.yieldsTo_eq_false_iff]
  constructor
  · rintro (hlt | ⟨hlower, heq⟩)
    · exact .inl hlt
    · obtain rfl := hright.1 hlower
      exact .inr ⟨rfl, hpower.1 heq⟩
  · rintro (hlt | ⟨rfl, rfl⟩)
    · exact .inl hlt
    · exact .inr ⟨rfl, rfl⟩

end InfixOp

section Layer

variable {ops : List Held}

theorem isLayer_nil : IsLayer [] :=
  ⟨[], [], rfl, .nil⟩

theorem isLayer_concat_prefixOp_iff {op : PrefixOp} :
    IsLayer (ops ++ [.prefixOp op]) ↔ IsLayer ops := by
  constructor
  · rintro ⟨infixes, prefixes, hops, hrises⟩
    rcases List.eq_nil_or_concat' prefixes with rfl | ⟨prefixes, op', rfl⟩
    · -- The last one of the infix operators would be a prefix operator.
      rw [List.map_nil, List.append_nil] at hops
      have hmem : Held.prefixOp op ∈ infixes.map .infixOp := by
        rw [← hops]
        exact List.mem_append_right ops List.mem_cons_self
      obtain ⟨op', -, hop'⟩ := List.mem_map.1 hmem
      cases hop'
    · rw [List.map_append, ← List.append_assoc] at hops
      exact ⟨infixes, prefixes, (List.append_inj' hops rfl).1, hrises⟩
  · rintro ⟨infixes, prefixes, rfl, hrises⟩
    refine ⟨infixes, prefixes ++ [op], ?_, hrises⟩
    rw [List.map_append, List.append_assoc]
    rfl

theorem isLayer_concat_infixOp_iff {op : InfixOp} :
    IsLayer (ops ++ [.infixOp op]) ↔ IsLayer ops ∧ ∀ x ∈ ops.getLast?, x.yieldsTo op = false := by
  constructor
  · rintro ⟨infixes, prefixes, hops, hrises⟩
    rcases List.eq_nil_or_concat' prefixes with rfl | ⟨prefixes, op', rfl⟩
    · rw [List.map_nil, List.append_nil] at hops
      obtain ⟨lower, last, rfl, rfl, hlast⟩ := List.map_eq_append_iff.1 hops.symm
      obtain ⟨_, _, rfl, ⟨⟩, htail⟩ := List.map_eq_cons_iff.1 hlast
      obtain rfl := List.map_eq_nil_iff.1 htail
      obtain ⟨hlower, -, hlast⟩ := List.pairwise_append.1 hrises
      refine ⟨⟨lower, [], (List.append_nil _).symm, hlower⟩, fun x hx => ?_⟩
      obtain ⟨below, hbelow, rfl⟩ := List.mem_map.1 (List.mem_of_mem_getLast? hx)
      exact InfixOp.yieldsTo_eq_false_iff_rises.2 (hlast below hbelow op List.mem_cons_self)
    · rw [List.map_append, ← List.append_assoc] at hops
      cases (List.append_inj' hops rfl).2
  · rintro ⟨⟨infixes, prefixes, rfl, hrises⟩, hlast⟩
    rcases List.eq_nil_or_concat' prefixes with rfl | ⟨prefixes, op', rfl⟩
    · refine ⟨infixes ++ [op], [], by simp, ?_⟩
      refine List.pairwise_append.2 ⟨hrises, List.pairwise_singleton _ _, fun lower hlower => ?_⟩
      rw [List.forall_mem_singleton]
      rcases List.eq_nil_or_concat' infixes with rfl | ⟨infixes, top, rfl⟩
      · cases hlower
      · -- What is exceeded by the last infix operator is exceeded by `op` too.
        have htop : top.Rises op := InfixOp.yieldsTo_eq_false_iff_rises.1 (hlast _ (by simp))
        rcases List.mem_append.1 hlower with hlower | hlower
        · have hrise := (List.pairwise_append.1 hrises).2.2 lower hlower top List.mem_cons_self
          exact hrise.trans htop
        · rwa [List.mem_singleton.1 hlower]
    · cases hlast (.prefixOp op') (by simp)

end Layer

/-! ## All that is held back -/

/-- Whether no infix operator lies right on top of an operator that yields to it. -/
inductive Layered : List Held → Prop
  | nil : Layered []
  | mark {held : List Held} (h : Layered held) : Layered (.mark :: held)
  | prefixOp {held : List Held} (op : PrefixOp) (h : Layered held) : Layered (.prefixOp op :: held)
  | infixOp {held : List Held} (op : InfixOp) (h : Layered held)
      (hbelow : ∀ x ∈ held.head?, x.yieldsTo op = false) : Layered (.infixOp op :: held)

namespace Layered

variable {held rest : List Held} {x : Held}

theorem tail (h : Layered (x :: held)) : Layered held := by
  cases h with
  | mark h => exact h
  | prefixOp op h => exact h
  | infixOp op h hbelow => exact h

theorem of_append {ops : List Held} (h : Layered (ops ++ rest)) : Layered rest := by
  induction ops with
  | nil => exact h
  | cons x ops ih => exact ih h.tail

/-- An infix operator above a prefix operator lies above a mark that is in between. -/
theorem mark_mem {op : InfixOp} {op' : PrefixOp} {between below : List Held}
    (h : Layered (.infixOp op :: (between ++ .prefixOp op' :: below))) : .mark ∈ between := by
  induction between generalizing op with
  | nil =>
    cases h with
    | infixOp op h hbelow => cases hbelow (.prefixOp op') rfl
  | cons x between ih =>
    cases x with
    | mark => exact List.mem_cons_self
    | infixOp lower => exact List.mem_cons_of_mem _ (ih h.tail)
    | prefixOp lower =>
      cases h with
      | infixOp op h hbelow => cases hbelow (.prefixOp lower) rfl

end Layered

theorem splitOn_mark_cons_mark (held : List Held) :
    (Held.mark :: held).splitOn .mark = [] :: held.splitOn .mark := by
  rw [List.splitOn_eq_splitOnP, List.splitOnP_cons_eq_if_modifyHead]
  rfl

theorem splitOn_mark_cons_operator {x : Held} {held top : List Held} {layers : List (List Held)}
    (hx : x.isOperator = true) (h : held.splitOn .mark = top :: layers) :
    (x :: held).splitOn .mark = (x :: top) :: layers := by
  have hmark : (x == .mark) = false := by
    cases x with
    | infixOp op => rfl
    | prefixOp op => rfl
    | mark => cases hx
  rw [List.splitOn_eq_splitOnP] at h
  rw [List.splitOn_eq_splitOnP, List.splitOnP_cons_eq_if_modifyHead, hmark, h]
  rfl

/-- A layer begins with what lies on top, unless that is a mark, which never yields. -/
theorem forall_head?_top_iff {held top : List Held} {layers : List (List Held)}
    (h : held.splitOn .mark = top :: layers) (op : InfixOp) :
    (∀ x ∈ top.head?, x.yieldsTo op = false) ↔ ∀ x ∈ held.head?, x.yieldsTo op = false := by
  cases held with
  | nil =>
    rw [List.splitOn_nil] at h
    cases h
    exact Iff.rfl
  | cons x held =>
    obtain ⟨top', layers', hsplit⟩ : ∃ top layers, held.splitOn .mark = top :: layers :=
      List.exists_cons_of_ne_nil (List.splitOnP_ne_nil _ held)
    cases x with
    | infixOp lower | prefixOp lower =>
      rw [splitOn_mark_cons_operator rfl hsplit] at h
      cases h
      exact Iff.rfl
    | mark =>
      rw [splitOn_mark_cons_mark] at h
      cases h
      simp [Held.yieldsTo]

/-- What lies right below each infix operator decides about all layers. -/
theorem layered_iff {held : List Held} :
    Layered held ↔ ∀ layer ∈ held.splitOn .mark, IsLayer layer.reverse := by
  induction held with
  | nil => simp [isLayer_nil, Layered.nil]
  | cons x held ih =>
    obtain ⟨top, layers, hsplit⟩ : ∃ top layers, held.splitOn .mark = top :: layers :=
      List.exists_cons_of_ne_nil (List.splitOnP_ne_nil _ held)
    cases x with
    | mark =>
      rw [splitOn_mark_cons_mark, List.forall_mem_cons, ← ih]
      exact ⟨fun h => ⟨isLayer_nil, h.tail⟩, fun h => .mark h.2⟩
    | prefixOp op =>
      rw [hsplit, List.forall_mem_cons] at ih
      rw [splitOn_mark_cons_operator rfl hsplit, List.forall_mem_cons, List.reverse_cons,
        isLayer_concat_prefixOp_iff, ← ih]
      exact ⟨Layered.tail, Layered.prefixOp op⟩
    | infixOp op =>
      rw [hsplit, List.forall_mem_cons] at ih
      rw [splitOn_mark_cons_operator rfl hsplit, List.forall_mem_cons, List.reverse_cons,
        isLayer_concat_infixOp_iff, List.getLast?_reverse, forall_head?_top_iff hsplit,
        and_right_comm, ← ih]
      constructor
      · rintro (⟨⟩ | ⟨⟩ | ⟨⟩ | ⟨op, h, hbelow⟩)
        exact ⟨h, hbelow⟩
      · exact fun h => .infixOp op h.1 h.2

namespace Reordering

/-! ## The invariant -/

/-- Whether arguments are separated in calls only. -/
def SeparatesCalls (ps : List Parenthesis) : Prop :=
  ∀ p ∈ ps, p.separators ≠ 0 → p.call.isSome = true

/-- What is true between any two tokens. -/
structure WellFormed (s : Reordering α) : Prop where
  /-- There is a mark for each open parenthesis. -/
  marks : s.held.count .mark = s.parentheses.length
  layers : ∀ layer ∈ s.held.splitOn .mark, IsLayer layer.reverse
  /-- Parentheses and commas are never put out. -/
  output : ∀ t ∈ s.output, t.isComputed = true
  separators : SeparatesCalls s.parentheses

variable {s s' : Reordering α} {t : Token α}

theorem wellFormed_start : ({} : Reordering α).WellFormed where
  marks := rfl
  layers := layered_iff.1 .nil
  output := nofun
  separators := nofun

theorem Step.layered (h : Step s t s') (hs : Layered s.held) : Layered s'.held := by
  cases h with
  | operand a => exact hs
  | function name arity => exact hs
  | prefixOp op => exact .prefixOp op hs
  | postfixOp op hout => exact hs
  | infixOp op hops hrest => exact .infixOp op hs.of_append hrest
  | opening => exact .mark hs
  | callOpening call => exact .mark hs
  | closing hops => exact hs.of_append.tail
  | callClosing call hops hslot harity => exact hs.of_append.tail
  | comma call hops => exact hs.of_append

theorem isComputed_of_release {ops : List Held} {out : List (Token α)}
    (hout : ∀ t ∈ out, t.isComputed = true) :
    ∀ t ∈ (ops.filterMap Held.token?).reverse ++ out, t.isComputed = true := by
  refine List.forall_mem_append.2 ⟨fun t ht => ?_, hout⟩
  obtain ⟨x, -, hx⟩ := List.mem_filterMap.1 (List.mem_reverse.1 ht)
  cases x with
  | infixOp op => cases hx; rfl
  | prefixOp op => cases hx; rfl
  | mark => cases hx

theorem Step.isComputed_output (h : Step s t s') (hs : ∀ u ∈ s.output, u.isComputed = true) :
    ∀ u ∈ s'.output, u.isComputed = true := by
  cases h with
  | operand a => exact List.forall_mem_cons.2 ⟨rfl, hs⟩
  | function name arity => exact hs
  | prefixOp op => exact hs
  | postfixOp op hout => exact List.forall_mem_cons.2 ⟨rfl, hs⟩
  | infixOp op hops hrest => exact isComputed_of_release hs
  | opening => exact hs
  | callOpening call => exact hs
  | closing hops => exact isComputed_of_release hs
  | callClosing call hops hslot harity =>
    exact List.forall_mem_cons.2 ⟨rfl, isComputed_of_release hs⟩
  | comma call hops => exact isComputed_of_release hs

theorem SeparatesCalls.withContent {ps : List Parenthesis} (h : SeparatesCalls ps) :
    SeparatesCalls (withContent ps) := by
  cases ps with
  | nil => exact h
  | cons p ps => exact List.forall_mem_cons.2 (List.forall_mem_cons.1 h)

theorem Step.separatesCalls (h : Step s t s') (hs : SeparatesCalls s.parentheses) :
    SeparatesCalls s'.parentheses := by
  cases h with
  | operand a => exact hs.withContent
  | function name arity => exact hs.withContent
  | prefixOp op => exact hs.withContent
  | postfixOp op hout => exact hs.withContent
  | infixOp op hops hrest => exact hs.withContent
  | opening => exact List.forall_mem_cons.2 ⟨fun h => absurd rfl h, hs.withContent⟩
  | callOpening call => exact List.forall_mem_cons.2 ⟨fun _ => rfl, hs⟩
  | closing hops => exact (List.forall_mem_cons.1 hs).2
  | callClosing call hops hslot harity => exact (List.forall_mem_cons.1 hs).2
  | comma call hops => exact List.forall_mem_cons.2 ⟨fun _ => rfl, (List.forall_mem_cons.1 hs).2⟩

theorem Step.wellFormed (h : Step s t s') (hs : s.WellFormed) : s'.WellFormed where
  marks := h.count_mark_eq hs.marks
  layers := layered_iff.1 (h.layered (layered_iff.2 hs.layers))
  output := h.isComputed_output hs.output
  separators := h.separatesCalls hs.separators

/-- After any tokens that are accepted so far, wherever they stand, the state is well formed.  So no
infix operator lies above a prefix operator without a mark between them. -/
theorem wellFormed_of_feed {ts : List (Token α)} (h : ({} : Reordering α).feed ts = .ok s) :
    s.WellFormed ∧
      ∀ (above between below : List Held) (op : InfixOp) (op' : PrefixOp),
        s.held = above ++ .infixOp op :: (between ++ .prefixOp op' :: below) → .mark ∈ between := by
  have hs : s.WellFormed := feed_induction (fun _ _ _ hstep => hstep.wellFormed) wellFormed_start h
  refine ⟨hs, fun above between below op op' hheld => ?_⟩
  have hlayered : Layered s.held := layered_iff.2 hs.layers
  rw [hheld] at hlayered
  exact hlayered.of_append.mark_mem

/-- Behind `+ 2 ** -(3 - 4 * 5 ** max(6, 7 + -` two parentheses are open, and the infix operators
in the first one lie above a prefix operator in front of it. -/
theorem wellFormed_of_unfinished_power :
    ∃ s, ({} : Reordering Nat).feed [.infixOp .add, .operand 2, .infixOp .power, .prefixOp .negate,
        .opening, .operand 3, .infixOp .subtract, .operand 4, .infixOp .multiply, .operand 5,
        .infixOp .power, .function "max" 2, .opening, .operand 6, .comma, .operand 7, .infixOp .add,
        .prefixOp .negate] = .ok s ∧
      s.held.splitOn .mark = [[.prefixOp .negate, .infixOp .add],
        [.infixOp .power, .infixOp .multiply, .infixOp .subtract],
        [.prefixOp .negate, .infixOp .power, .infixOp .add]] ∧
      s.WellFormed := by
  have hfeed : ({} : Reordering Nat).feed [.infixOp .add, .operand 2, .infixOp .power,
      .prefixOp .negate, .opening, .operand 3, .infixOp .subtract, .operand 4, .infixOp .multiply,
      .operand 5, .infixOp .power, .function "max" 2, .opening, .operand 6, .comma, .operand 7,
      .infixOp .add, .prefixOp .negate] = .ok _ := rfl
  exact ⟨_, hfeed, by decide, (wellFormed_of_feed hfeed).1⟩

end Reordering

end Formula
