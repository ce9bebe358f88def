import Formula.Proofs.Nesting

/-!
# How tokens are grouped

`Slots` cuts the tokens between the parentheses of a call at the commas of the call itself, and
`Grouped` says, in terms of the tokens alone, that parentheses, function names, commas and arguments
fit together.  `Groupable` is what is left of these conditions for the first tokens of a formula, so
that they can be followed from token to token (`groupable_concat_iff`).
-/

namespace Formula

variable {α : Type}

theorem concat_eq_append_cons {ts pre post : List (Token α)} {t u : Token α}
    (h : ts ++ [t] = pre ++ u :: post) :
    (post = [] ∧ pre = ts ∧ u = t) ∨ ∃ init, post = init ++ [t] ∧ ts = pre ++ u :: init := by
  rcases List.eq_nil_or_concat' post with rfl | ⟨init, v, rfl⟩
  · obtain ⟨hts, ht⟩ := List.append_inj' h rfl
    exact .inl ⟨rfl, hts.symm, (List.singleton_inj.1 ht).symm⟩
  · have hassoc : ts ++ [t] = (pre ++ u :: init) ++ [v] := by simpa using h
    obtain ⟨hts, ht⟩ := List.append_inj' hassoc rfl
    obtain rfl := List.singleton_inj.1 ht
    exact .inr ⟨init, rfl, hts⟩

/-! ## Slots -/

/-- Whether `ts` can stand between two neighbouring commas of a call: no comma in it belongs to the
call itself. -/
structure IsSlot (ts : List (Token α)) : Prop where
  balanced : Balanced ts
  not_balanced_of_comma : ∀ us vs, ts = us ++ .comma :: vs → ¬ Balanced us

/-- The slots of a call with the tokens `inner` between its parentheses. -/
structure Slots (inner : List (Token α)) (slots : List (List (Token α))) : Prop where
  ne_nil : slots ≠ []
  eq_intercalate : inner = [.comma].intercalate slots
  isSlot : ∀ slot ∈ slots, IsSlot slot

theorem isSlot_nil : IsSlot ([] : List (Token α)) :=
  ⟨balanced_nil, by simp⟩

theorem isSlot_singleton {t : Token α} (hweight : t.weight = 0) (ht : t ≠ .comma) :
    IsSlot [t] := by
  refine ⟨balanced_singleton hweight, fun us vs heq => ?_⟩
  rcases List.cons_eq_append_iff.1 heq with ⟨rfl, hcons⟩ | ⟨us, rfl, hnil⟩
  · exact absurd (List.cons.inj hcons).1.symm ht
  · simp at hnil

theorem IsSlot.append {ts us : List (Token α)} (hts : IsSlot ts) (hus : IsSlot us) :
    IsSlot (ts ++ us) := by
  refine ⟨hts.balanced.append hus.balanced, fun xs ys heq hxs => ?_⟩
  rcases List.append_eq_append_iff.1 heq with ⟨ws, rfl, hcomma⟩ | ⟨ws, rfl, hcomma⟩
  · exact hus.not_balanced_of_comma ws ys hcomma (hxs.of_append_left hts.balanced)
  · rcases ws with _ | ⟨w, ws⟩
    · exact hus.not_balanced_of_comma [] ys hcomma.symm balanced_nil
    · obtain ⟨rfl, rfl⟩ := List.cons.inj hcomma
      exact hts.not_balanced_of_comma xs ws rfl hxs

/-- A comma inside a parenthesis does not belong to what stands around it. -/
theorem isSlot_group {inner : List (Token α)} (h : Balanced inner) :
    IsSlot (.opening :: inner ++ [.closing]) := by
  refine ⟨h.group, fun us vs heq hus => ?_⟩
  rcases us with _ | ⟨u, us⟩
  · cases heq
  · obtain ⟨rfl, hinner⟩ := List.cons.inj heq
    rcases concat_eq_append_cons hinner with ⟨-, -, hcomma⟩ | ⟨init, -, rfl⟩
    · cases hcomma
    · have hnonneg := h.nested.of_append.depth_nonneg
      have hdepth := hus.depth_eq
      rw [depth_cons, Token.weight] at hdepth
      omega

theorem intercalate_concat (slots : List (List (Token α))) (last : List (Token α)) :
    [.comma].intercalate (slots ++ [last]) = slots.flatMap (· ++ [.comma]) ++ last := by
  induction slots with
  | nil => simp
  | cons slot slots ih =>
    rcases hslots : slots ++ [last] with _ | ⟨next, rest⟩
    · simp at hslots
    · rw [hslots] at ih
      rw [List.cons_append, hslots, List.intercalate_cons_cons, ih, List.flatMap_cons,
        ← List.append_assoc]

theorem slots_nil : Slots ([] : List (Token α)) [[]] :=
  ⟨by simp, by simp, by simpa using isSlot_nil⟩

theorem Slots.append {inner block current : List (Token α)} {filled : List (List (Token α))}
    (h : Slots inner (filled ++ [current])) (hblock : IsSlot block) :
    Slots (inner ++ block) (filled ++ [current ++ block]) := by
  refine ⟨by simp, ?_, fun slot hslot => ?_⟩
  · rw [intercalate_concat, h.eq_intercalate, intercalate_concat, List.append_assoc]
  · rcases List.mem_append.1 hslot with hfilled | hlast
    · exact h.isSlot slot (List.mem_append_left _ hfilled)
    · obtain rfl := List.mem_singleton.1 hlast
      exact (h.isSlot current (by simp)).append hblock

theorem Slots.comma {inner : List (Token α)} {slots : List (List (Token α))}
    (h : Slots inner slots) : Slots (inner ++ [.comma]) (slots ++ [[]]) := by
  refine ⟨by simp, ?_, fun slot hslot => ?_⟩
  · obtain ⟨filled, last, rfl⟩ := List.eq_nil_or_concat' slots |>.resolve_left h.ne_nil
    rw [intercalate_concat, h.eq_intercalate, intercalate_concat]
    simp
  · rcases List.mem_append.1 hslot with hslot | hlast
    · exact h.isSlot slot hslot
    · obtain rfl := List.mem_singleton.1 hlast
      exact isSlot_nil

theorem balanced_intercalate {slots : List (List (Token α))} (h : ∀ slot ∈ slots, Balanced slot) :
    Balanced ([.comma].intercalate slots) := by
  induction slots with
  | nil => exact balanced_nil
  | cons slot slots ih =>
    have hslot := h slot (by simp)
    have hslots := ih fun x hx => h x (List.mem_cons_of_mem _ hx)
    cases slots with
    | nil => rwa [List.intercalate_singleton]
    | cons next slots =>
      rw [List.intercalate_cons_cons]
      exact (hslot.append (balanced_singleton rfl)).append hslots

theorem Slots.balanced {inner : List (Token α)} {slots : List (List (Token α))}
    (h : Slots inner slots) : Balanced inner := by
  rw [h.eq_intercalate]
  exact balanced_intercalate fun slot hslot => (h.isSlot slot hslot).balanced

theorem IsSlot.append_comma_inj {slot slot' rest rest' : List (Token α)} (h : IsSlot slot)
    (h' : IsSlot slot') (heq : slot ++ .comma :: rest = slot' ++ .comma :: rest') :
    slot = slot' ∧ rest = rest' := by
  rcases List.append_eq_append_iff.1 heq with ⟨ws, rfl, hws⟩ | ⟨ws, rfl, hws⟩
  · rcases ws with _ | ⟨w, ws⟩
    · exact ⟨by simp, (List.cons.inj hws).2⟩
    · obtain ⟨rfl, -⟩ := List.cons.inj hws
      exact absurd h.balanced (h'.not_balanced_of_comma slot ws rfl)
  · rcases ws with _ | ⟨w, ws⟩
    · exact ⟨by simp, (List.cons.inj hws).2.symm⟩
    · obtain ⟨rfl, -⟩ := List.cons.inj hws
      exact absurd h'.balanced (h.not_balanced_of_comma slot' ws rfl)

theorem Slots.eq_of_singleton {inner slot : List (Token α)} (h : Slots inner [slot]) :
    inner = slot := by
  rw [h.eq_intercalate, List.intercalate_singleton]

theorem Slots.exists_eq_append {inner slot next : List (Token α)} {slots : List (List (Token α))}
    (h : Slots inner (slot :: next :: slots)) :
    ∃ rest, inner = slot ++ .comma :: rest ∧ Slots rest (next :: slots) := by
  refine ⟨[.comma].intercalate (next :: slots), ?_, by simp, rfl, fun x hx => ?_⟩
  · rw [h.eq_intercalate, List.intercalate_cons_cons, List.append_assoc, List.singleton_append]
  · exact h.isSlot x (List.mem_cons_of_mem _ hx)

theorem Slots.cons {inner slot : List (Token α)} {slots : List (List (Token α))}
    (h : Slots inner slots) (hslot : IsSlot slot) :
    Slots (slot ++ .comma :: inner) (slot :: slots) := by
  obtain ⟨next, rest, rfl⟩ := List.exists_cons_of_ne_nil h.ne_nil
  refine ⟨by simp, ?_, fun x hx => ?_⟩
  · rw [List.intercalate_cons_cons, ← h.eq_intercalate, List.append_assoc, List.singleton_append]
  · rcases List.mem_cons.1 hx with rfl | hx
    · exact hslot
    · exact h.isSlot x hx

/-- The slots of a call are determined. -/
theorem Slots.unique {inner : List (Token α)} {slots slots' : List (List (Token α))}
    (h : Slots inner slots) (h' : Slots inner slots') : slots = slots' := by
  induction slots generalizing inner slots' with
  | nil => exact absurd rfl h.ne_nil
  | cons slot slots ih =>
    rcases slots' with _ | ⟨slot', slots'⟩
    · exact absurd rfl h'.ne_nil
    have hslot := h.isSlot slot (by simp)
    have hslot' := h'.isSlot slot' (by simp)
    rcases slots with _ | ⟨next, slots⟩ <;> rcases slots' with _ | ⟨next', slots'⟩
    · rw [← h.eq_of_singleton, ← h'.eq_of_singleton]
    · obtain ⟨rest', heq', -⟩ := h'.exists_eq_append
      rw [h.eq_of_singleton] at heq'
      exact absurd hslot'.balanced (hslot.not_balanced_of_comma slot' rest' heq')
    · obtain ⟨rest, heq, -⟩ := h.exists_eq_append
      rw [h'.eq_of_singleton] at heq
      exact absurd hslot.balanced (hslot'.not_balanced_of_comma slot rest heq)
    · obtain ⟨rest, rfl, hrest⟩ := h.exists_eq_append
      obtain ⟨rest', heq, hrest'⟩ := h'.exists_eq_append
      obtain ⟨rfl, rfl⟩ := hslot.append_comma_inj hslot' heq
      rw [ih hrest hrest']

theorem IsSlot.of_append {xs ys : List (Token α)} (h : IsSlot (xs ++ ys)) (hxs : Balanced xs) :
    IsSlot xs := by
  refine ⟨hxs, ?_⟩
  rintro us vs rfl
  exact h.not_balanced_of_comma us (vs ++ ys) (by simp)

/-- Behind balanced tokens in a call, all slots but the last are already what they will be. -/
theorem Slots.of_append {xs ys : List (Token α)} {slots : List (List (Token α))}
    (h : Slots (xs ++ ys) slots) (hxs : Balanced xs) :
    ∃ filled current, Slots xs (filled ++ [current]) ∧ ∀ slot ∈ filled, slot ∈ slots := by
  induction slots generalizing xs with
  | nil => exact absurd rfl h.ne_nil
  | cons slot slots ih =>
    have hslot := h.isSlot slot (by simp)
    have hwhole : ∀ ws, slot = xs ++ ws → ∃ filled current, Slots xs (filled ++ [current]) ∧
        ∀ x ∈ filled, x ∈ slot :: slots := by
      rintro ws rfl
      refine ⟨[], xs, ⟨by simp, by simp, fun x hx => ?_⟩, by simp⟩
      obtain rfl := List.mem_singleton.1 hx
      exact hslot.of_append hxs
    rcases slots with _ | ⟨next, slots⟩
    · exact hwhole ys h.eq_of_singleton.symm
    · obtain ⟨rest, heq, hrest⟩ := h.exists_eq_append
      rcases List.append_eq_append_iff.1 heq with ⟨ws, hws, -⟩ | ⟨ws, rfl, hcomma⟩
      · exact hwhole ws hws
      · rcases ws with _ | ⟨w, ws⟩
        · exact hwhole [] (by simp)
        · obtain ⟨rfl, rfl⟩ := List.cons.inj hcomma
          have hcons : Balanced ([.comma] ++ ws) := hxs.of_append_left hslot.balanced
          have hws := hcons.of_append_left (balanced_singleton rfl)
          obtain ⟨filled, current, hslots, hmem⟩ := ih hrest hws
          exact ⟨slot :: filled, current, hslots.cons hslot, fun x hx =>
            (List.mem_cons.1 hx).elim (fun hx => hx ▸ by simp)
              fun hx => List.mem_cons_of_mem _ (hmem x hx)⟩

/-! ## The conditions -/

/-- Whether every slot of a call with the tokens `inner` between its parentheses has content. -/
def SlotsFilled (inner : List (Token α)) : Prop :=
  ∃ slots, Slots inner slots ∧ ∀ slot ∈ slots, slot ≠ []

/-- Whether the tokens `inner` between the parentheses of a call are `arity` arguments. -/
def Supplies (inner : List (Token α)) (arity : Nat) : Prop :=
  (inner = [] ∧ arity = 0) ∨
    ∃ slots, Slots inner slots ∧ (∀ slot ∈ slots, slot ≠ []) ∧ slots.length = arity

/-- Whether every comma stands directly inside a call. -/
def CommasSeparate (ts : List (Token α)) : Prop :=
  ∀ us post, ts = us ++ .comma :: post →
    ∃ pre name arity inner, us = pre ++ .function name arity :: .opening :: inner ∧ Balanced inner

/-- Whether every call that is closed has the arguments that its function takes. -/
def CallsSupplied (ts : List (Token α)) : Prop :=
  ∀ pre name arity inner post,
    ts = pre ++ .function name arity :: .opening :: (inner ++ .closing :: post) →
      Balanced inner → Supplies inner arity

/-- What the reordering asks of the tokens of a formula. -/
structure Grouped (ts : List (Token α)) : Prop where
  balanced : Balanced ts
  /-- A function name stands directly before a parenthesis. -/
  named : ∀ pre name arity post, ts = pre ++ .function name arity :: post →
    post.head? = some .opening
  separated : CommasSeparate ts
  supplied : CallsSupplied ts

/-- Whether the last token is a function name, which waits for its parenthesis. -/
def EndsInFunction (ts : List (Token α)) : Prop :=
  ∃ pre name arity, ts = pre ++ [.function name arity]

/-- What the reordering asks of the tokens read so far.  A call that is still open cannot have all
of its arguments, but none of them may be empty once a comma follows it. -/
structure Groupable (ts : List (Token α)) : Prop where
  nested : Nested ts
  named : ∀ pre name arity t post, ts = pre ++ .function name arity :: t :: post → t = .opening
  separated : CommasSeparate ts
  filled : ∀ pre name arity inner post,
    ts = pre ++ .function name arity :: .opening :: (inner ++ .comma :: post) →
      Balanced inner → SlotsFilled inner
  supplied : CallsSupplied ts

theorem Supplies.slotsFilled_of_comma {inner post : List (Token α)} {arity : Nat}
    (h : Supplies (inner ++ .comma :: post) arity) (hinner : Balanced inner) :
    SlotsFilled inner := by
  rcases h with ⟨hnil, -⟩ | ⟨slots, hslots, hne, -⟩
  · simp at hnil
  have hcomma : inner ++ .comma :: post = (inner ++ [.comma]) ++ post := by simp
  rw [hcomma] at hslots
  -- The slots before the comma are among those of the whole call.
  obtain ⟨filled, current, hbefore, hmem⟩ :=
    hslots.of_append (hinner.append (balanced_singleton rfl))
  obtain ⟨init, last, hinit, -⟩ := hbefore.of_append hinner
  obtain ⟨rfl, -⟩ := List.append_inj' (hbefore.unique hinit.comma) rfl
  exact ⟨init ++ [last], hinit, fun slot hslot => hne slot (hmem slot hslot)⟩

theorem Grouped.slotsFilled {ts pre inner post : List (Token α)} {name : String} {arity : Nat}
    (h : Grouped ts)
    (hts : ts = pre ++ .function name arity :: .opening :: (inner ++ .comma :: post))
    (hinner : Balanced inner) : SlotsFilled inner := by
  have hpre : Nested pre := (hts ▸ h.balanced.nested).of_append
  have hdepth := h.balanced.depth_eq
  have hnonneg := hpre.depth_nonneg
  simp only [hts, depth_append, depth_cons, hinner.depth_eq, Token.weight] at hdepth
  -- The parenthesis of the call is closed behind the comma.
  have hneg : 0 + depth post < 0 := by omega
  obtain ⟨rest, after, rfl, hrest, hclosed⟩ := exists_closing (Int.le_refl 0) hneg
  have hbalanced : Balanced (inner ++ ([.comma] ++ rest)) := by
    refine hinner.append ((balanced_singleton rfl).append ⟨fun us hus => ?_, by omega⟩)
    simpa using hrest us hus
  have hsupplied := h.supplied pre name arity (inner ++ ([.comma] ++ rest)) after
    (by simpa using hts) hbalanced
  exact hsupplied.slotsFilled_of_comma hinner

theorem grouped_iff {ts : List (Token α)} :
    Grouped ts ↔ Groupable ts ∧ depth ts = 0 ∧ ¬ EndsInFunction ts := by
  constructor
  · intro h
    refine ⟨⟨h.balanced.nested, fun pre name arity t post heq => ?_, h.separated, ?_, h.supplied⟩,
      h.balanced.depth_eq, ?_⟩
    · exact Option.some.inj (h.named pre name arity (t :: post) heq)
    · intro pre name arity inner post heq hinner
      exact h.slotsFilled heq hinner
    · rintro ⟨pre, name, arity, heq⟩
      cases h.named pre name arity [] heq
  · rintro ⟨h, hdepth, hlast⟩
    refine ⟨⟨h.nested, hdepth⟩, fun pre name arity post heq => ?_, h.separated, h.supplied⟩
    cases post with
    | nil => exact absurd ⟨pre, name, arity, heq⟩ hlast
    | cons t post => rw [List.head?_cons, h.named pre name arity t post heq]

/-! ## From token to token -/

theorem groupable_nil : Groupable ([] : List (Token α)) :=
  ⟨nested_nil, by simp, by simp [CommasSeparate], by simp, by simp [CallsSupplied]⟩

theorem Groupable.of_append {ts us : List (Token α)} (h : Groupable (ts ++ us)) :
    Groupable ts := by
  refine ⟨h.nested.of_append, ?_, ?_, ?_, ?_⟩
  · rintro pre name arity t post rfl
    exact h.named pre name arity t (post ++ us) (by simp)
  · rintro vs post rfl
    exact h.separated vs (post ++ us) (by simp)
  · rintro pre name arity inner post rfl
    exact h.filled pre name arity inner (post ++ us) (by simp)
  · rintro pre name arity inner post rfl
    exact h.supplied pre name arity inner (post ++ us) (by simp)

/-- What the conditions ask of a token `t` behind the tokens `ts`. -/
structure Groupable.Next (ts : List (Token α)) (t : Token α) : Prop where
  depth_nonneg : 0 ≤ depth ts + t.weight
  named : EndsInFunction ts → t = .opening
  separated : t = .comma →
    ∃ pre name arity inner, ts = pre ++ .function name arity :: .opening :: inner ∧ Balanced inner
  filled : t = .comma → ∀ pre name arity inner,
    ts = pre ++ .function name arity :: .opening :: inner → Balanced inner → SlotsFilled inner
  supplied : t = .closing → ∀ pre name arity inner,
    ts = pre ++ .function name arity :: .opening :: inner → Balanced inner → Supplies inner arity

theorem concat_eq_append_call {ts pre inner post : List (Token α)} {name : String} {arity : Nat}
    {t u : Token α}
    (h : ts ++ [t] = pre ++ .function name arity :: .opening :: (inner ++ u :: post)) :
    (ts = pre ++ .function name arity :: .opening :: inner ∧ t = u) ∨
      ∃ init, ts = pre ++ .function name arity :: .opening :: (inner ++ u :: init) := by
  have hassoc : pre ++ .function name arity :: .opening :: (inner ++ u :: post) =
      (pre ++ .function name arity :: .opening :: inner) ++ u :: post := by simp
  rw [hassoc] at h
  rcases concat_eq_append_cons h with ⟨-, rfl, rfl⟩ | ⟨init, -, hts⟩
  · exact .inl ⟨rfl, rfl⟩
  · exact .inr ⟨init, by simpa using hts⟩

theorem groupable_concat_iff {ts : List (Token α)} {t : Token α} :
    Groupable (ts ++ [t]) ↔ Groupable ts ∧ Groupable.Next ts t := by
  constructor
  · intro h
    refine ⟨h.of_append, (nested_concat_iff.1 h.nested).2, ?_, ?_, ?_, ?_⟩
    · rintro ⟨pre, name, arity, rfl⟩
      exact h.named pre name arity t [] (by simp)
    · rintro rfl
      exact h.separated ts [] rfl
    · rintro rfl pre name arity inner rfl
      exact h.filled pre name arity inner [] (by simp)
    · rintro rfl pre name arity inner rfl
      exact h.supplied pre name arity inner [] (by simp)
  · rintro ⟨h, hnext⟩
    refine ⟨nested_concat_iff.2 ⟨h.nested, hnext.depth_nonneg⟩, ?_, ?_, ?_, ?_⟩
    · intro pre name arity u post heq
      have hassoc : pre ++ .function name arity :: u :: post =
          (pre ++ [.function name arity]) ++ u :: post := by simp
      rw [hassoc] at heq
      rcases concat_eq_append_cons heq with ⟨-, hts, rfl⟩ | ⟨init, -, hts⟩
      · exact hnext.named ⟨pre, name, arity, hts.symm⟩
      · exact h.named pre name arity u init (by simpa using hts)
    · intro us post heq
      rcases concat_eq_append_cons heq with ⟨-, rfl, rfl⟩ | ⟨init, -, hts⟩
      · exact hnext.separated rfl
      · exact h.separated us init hts
    · intro pre name arity inner post heq hinner
      rcases concat_eq_append_call heq with ⟨hts, ht⟩ | ⟨init, hts⟩
      · exact hnext.filled ht pre name arity inner hts hinner
      · exact h.filled pre name arity inner init hts hinner
    · intro pre name arity inner post heq hinner
      rcases concat_eq_append_call heq with ⟨hts, ht⟩ | ⟨init, hts⟩
      · exact hnext.supplied ht pre name arity inner hts hinner
      · exact h.supplied pre name arity inner init hts hinner

end Formula
