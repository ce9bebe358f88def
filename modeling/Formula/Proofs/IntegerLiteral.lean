import Mathlib.Data.Nat.Digits.Defs
import Formula.Proofs.Lexing
import Formula.Proofs.Width

/-!
# Literals of integers

A literal of an integer writes it in front of its first dot, as one or more digits with or without a
sign; where nothing stands there it is a literal of zero, and it has to have a digit somewhere
(`IsIntegerLiteral`).  The digits may be of any number, and what they write is found by summing up
their weights (`Decimal.Writes`).  A bounded integer is read from exactly the literals of the
integers that fit (`BoundedInt.literals_are_read_exactly`).
-/

namespace Formula

/-! ## Decimal notation -/

namespace Decimal

/-- Whether `ds` is a run of digits that writes `n`.  The last digit has the weight one. -/
structure Writes (ds : List Char) (n : Nat) : Prop where
  ne_nil : ds ≠ []
  digits : ∀ c ∈ ds, c.isDigit = true
  sum_eq : Nat.ofDigits 10 (ds.reverse.map fun c => c.toNat - '0'.toNat) = n

/-- Whether `cs` writes the integer `n`, with a sign or without. -/
inductive WritesInt : List Char → Int → Prop
  | unsigned {ds : List Char} {n : Nat} (h : Writes ds n) : WritesInt ds n
  | plus {ds : List Char} {n : Nat} (h : Writes ds n) : WritesInt ('+' :: ds) n
  | minus {ds : List Char} {n : Nat} (h : Writes ds n) : WritesInt ('-' :: ds) (-n)

variable {cs ds : List Char} {n : Nat} {v : Int}

theorem ofDigits_eq_value (ds : List Char) :
    Nat.ofDigits 10 (ds.reverse.map fun c => c.toNat - '0'.toNat) = value ds := by
  induction ds using List.reverseRecOn with
  | nil => rfl
  | append_singleton ds c ih =>
    rw [List.reverse_append, List.reverse_singleton, List.singleton_append, List.map_cons,
      Nat.ofDigits_cons, ih, value, value, Nat.ofDigitChars_append, Nat.ofDigitChars_cons,
      Nat.ofDigitChars_nil, Nat.add_comm]

theorem toNat?_eq_some_iff : toNat? ds = some n ↔ Writes ds n := by
  constructor
  · intro h
    unfold toNat? at h
    split at h
    · cases h
    · rename_i hds
      simp only [Bool.or_eq_true, List.isEmpty_iff, Bool.not_eq_true', not_or, Bool.not_eq_false,
        List.all_eq_true] at hds
      exact ⟨hds.1, hds.2, (ofDigits_eq_value ds).trans (Option.some.inj h)⟩
  · rintro ⟨hne, hdigits, rfl⟩
    rw [ofDigits_eq_value, toNat?, List.isEmpty_eq_false_iff.2 hne, List.all_eq_true.2 hdigits]
    rfl

/-- The number that digits write is an integer before the sign is applied to it. -/
theorem map_toNat?_eq_some_iff {f : Int → Int} :
    ((do return (← toNat? ds : Int)) : Option Int).map f = some v ↔
      ∃ n : Nat, Writes ds n ∧ f n = v := by
  simp only [← toNat?_eq_some_iff]
  cases toNat? ds with
  | none => simp
  | some n => simp

theorem writesInt_minus_iff : WritesInt ('-' :: ds) v ↔ ∃ n : Nat, Writes ds n ∧ -(n : Int) = v := by
  constructor
  · rintro (h | h | h)
    · cases h.digits '-' List.mem_cons_self
    · exact ⟨_, h, rfl⟩
  · rintro ⟨n, h, rfl⟩
    exact .minus h

theorem writesInt_plus_iff : WritesInt ('+' :: ds) v ↔ ∃ n : Nat, Writes ds n ∧ (n : Int) = v := by
  constructor
  · rintro (h | h | h)
    · cases h.digits '+' List.mem_cons_self
    · exact ⟨_, h, rfl⟩
  · rintro ⟨n, h, rfl⟩
    exact .plus h

theorem writesInt_iff_of_unsigned (hplus : ∀ ds, cs ≠ '+' :: ds) (hminus : ∀ ds, cs ≠ '-' :: ds) :
    WritesInt cs v ↔ ∃ n : Nat, Writes cs n ∧ (n : Int) = v := by
  constructor
  · rintro (h | @⟨ds, n, h⟩ | @⟨ds, n, h⟩)
    · exact ⟨_, h, rfl⟩
    · exact absurd rfl (hplus ds)
    · exact absurd rfl (hminus ds)
  · rintro ⟨n, h, rfl⟩
    exact .unsigned h

theorem writesInt_iff_of_isDigit {c : Char} (hc : c.isDigit = true) :
    WritesInt (c :: cs) v ↔ ∃ n : Nat, Writes (c :: cs) n ∧ (n : Int) = v := by
  refine writesInt_iff_of_unsigned ?_ ?_
  · rintro ds ⟨⟩
    cases hc
  · rintro ds ⟨⟩
    cases hc

theorem toInt?_eq_some_iff : toInt? cs = some v ↔ WritesInt cs v := by
  unfold toInt?
  split
  · rw [map_toNat?_eq_some_iff, writesInt_minus_iff]
  · rw [map_toNat?_eq_some_iff, writesInt_plus_iff]
  · rename_i hminus hplus
    rw [map_toNat?_eq_some_iff, writesInt_iff_of_unsigned hplus hminus]

/-- Zeros in front of other digits do not count. -/
theorem writes_zeros_append_iff (k : Nat) (hne : ds ≠ []) :
    Writes (List.replicate k '0' ++ ds) n ↔ Writes ds n := by
  have hvalue : value (List.replicate k '0' ++ ds) = value ds := by
    rw [value, Nat.ofDigitChars_append, Nat.ofDigitChars_replicate_zero, Nat.mul_zero, value]
  constructor
  · intro h
    exact ⟨hne, (List.forall_mem_append.1 h.digits).2, by
      rw [← h.sum_eq, ofDigits_eq_value, ofDigits_eq_value, hvalue]⟩
  · intro h
    refine ⟨List.append_ne_nil_of_right_ne_nil _ hne, ?_, by
      rw [← h.sum_eq, ofDigits_eq_value, ofDigits_eq_value, hvalue]⟩
    refine List.forall_mem_append.2 ⟨fun c hc => ?_, h.digits⟩
    rw [List.eq_of_mem_replicate hc]
    rfl

theorem writesInt_zeros_append_iff {sign : List Char} (hsign : sign ∈ [[], ['+'], ['-']]) (k : Nat)
    {c : Char} (hc : c.isDigit = true) :
    WritesInt (sign ++ (List.replicate k '0' ++ c :: cs)) v ↔ WritesInt (sign ++ c :: cs) v := by
  have hzeros : ∀ n, Writes (List.replicate k '0' ++ c :: cs) n ↔ Writes (c :: cs) n := fun n =>
    writes_zeros_append_iff k (List.cons_ne_nil c cs)
  simp only [List.mem_cons, List.not_mem_nil, or_false] at hsign
  rcases hsign with rfl | rfl | rfl
  · cases k with
    | zero => rfl
    | succ k =>
      rw [List.replicate_succ, List.cons_append] at hzeros
      rw [List.nil_append, List.nil_append, List.replicate_succ, List.cons_append,
        writesInt_iff_of_isDigit hc, writesInt_iff_of_isDigit (c := '0') rfl]
      simp only [hzeros]
  · simp only [List.singleton_append, writesInt_plus_iff, hzeros]
  · simp only [List.singleton_append, writesInt_minus_iff, hzeros]

theorem writes_digits (n : Nat) : Writes (digits n) n :=
  ⟨Nat.toDigits_ne_nil, fun _ => isDigit_of_mem_digits, by rw [ofDigits_eq_value, value_digits]⟩

/-- The text of an integer writes it. -/
theorem writesInt_ofInt (n : Int) : WritesInt (ofInt n) n := by
  unfold ofInt
  split
  · have habs : -(n.natAbs : Int) = n := by omega
    have hminus := WritesInt.minus (writes_digits n.natAbs)
    rwa [habs] at hminus
  · have habs : (n.natAbs : Int) = n := by omega
    have hunsigned := WritesInt.unsigned (writes_digits n.natAbs)
    rwa [habs] at hunsigned

end Decimal

namespace Decimal.WritesInt

variable {cs : List Char} {v v' : Int}

/-- No text writes two integers. -/
theorem unique (h : WritesInt cs v) (h' : WritesInt cs v') : v = v' := by
  have hsome := toInt?_eq_some_iff.2 h
  rw [toInt?_eq_some_iff.2 h'] at hsome
  exact (Option.some.inj hsome).symm

/-- What is written is a sign or nothing, and then digits. -/
theorem exists_digits (h : WritesInt cs v) :
    ∃ sign ds, cs = sign ++ ds ∧ sign ∈ [[], ['+'], ['-']] ∧ ds ≠ [] ∧
      ∀ c ∈ ds, c.isDigit = true := by
  cases h with
  | unsigned h => exact ⟨[], cs, rfl, by decide, h.ne_nil, h.digits⟩
  | @plus ds n h => exact ⟨['+'], ds, rfl, by decide, h.ne_nil, h.digits⟩
  | @minus ds n h => exact ⟨['-'], ds, rfl, by decide, h.ne_nil, h.digits⟩

theorem exists_digit (h : WritesInt cs v) : ∃ c ∈ cs, c.isDigit = true := by
  obtain ⟨sign, ds, rfl, -, hne, hdigits⟩ := h.exists_digits
  obtain ⟨c, hc⟩ := List.exists_mem_of_ne_nil ds hne
  exact ⟨c, List.mem_append_right sign hc, hdigits c hc⟩

theorem ne_nil (h : WritesInt cs v) : cs ≠ [] := by
  obtain ⟨c, hc, -⟩ := h.exists_digit
  exact List.ne_nil_of_mem hc

theorem dot_notMem (h : WritesInt cs v) : '.' ∉ cs := by
  obtain ⟨sign, ds, rfl, hsign, -, hdigits⟩ := h.exists_digits
  have hdot : ∀ sign ∈ [[], ['+'], ['-']], '.' ∉ sign := by decide
  rw [List.mem_append, not_or]
  exact ⟨hdot sign hsign, fun hmem => by cases hdigits '.' hmem⟩

end Decimal.WritesInt

/-! ## Literals -/

/-- Whether `whole` is the part of a text in front of its first dot, or the text if it has none. -/
inductive IsWhole (whole : List Char) : List Char → Prop
  | all (no_dot : '.' ∉ whole) : IsWhole whole whole
  | before (no_dot : '.' ∉ whole) (after : List Char) : IsWhole whole (whole ++ '.' :: after)

/-- Whether a text is a literal of the integer `v`. -/
structure IsIntegerLiteral (cs : List Char) (v : Int) : Prop where
  has_digit : ∃ c ∈ cs, c.isDigit = true
  whole : ∃ whole, IsWhole whole cs ∧ (whole = [] ∧ v = 0 ∨ Decimal.WritesInt whole v)

section Literals

variable {whole cs : List Char} {v : Int}

theorem isWhole_iff : IsWhole whole cs ↔ cs.takeWhile (· != '.') = whole := by
  constructor
  · have hrun : '.' ∉ whole → ∀ c ∈ whole, (c != '.') = true := fun hdot c hc => by
      rw [bne_iff_ne]
      rintro rfl
      exact hdot hc
    rintro (hdot | ⟨hdot, after⟩)
    · exact List.takeWhile_eq_self_iff.2 (hrun hdot)
    · refine takeWhile_append_of_ends (hrun hdot) ?_
      rintro c ⟨⟩
      rfl
  · rintro rfl
    have hdot : '.' ∉ cs.takeWhile (· != '.') := fun hmem => by cases List.mem_takeWhile_imp hmem
    have hends := ends_dropWhile (· != '.') cs
    have hsplit := List.takeWhile_append_dropWhile (p := (· != '.')) (l := cs)
    rcases hrest : cs.dropWhile (· != '.') with _ | ⟨c, after⟩
    · rw [hrest, List.append_nil] at hsplit
      rw [hsplit] at hdot ⊢
      exact .all hdot
    · rw [hrest] at hends hsplit
      obtain rfl : c = '.' := by simpa using hends c rfl
      have hbefore := IsWhole.before hdot after
      rwa [hsplit] at hbefore

theorem IsWhole.subset (h : IsWhole whole cs) : whole ⊆ cs := by
  cases h with
  | all hdot => exact List.Subset.refl whole
  | before hdot after => exact List.subset_append_left whole _

theorem IsWhole.append_left {pre : List Char} (hpre : '.' ∉ pre) (h : IsWhole whole cs) :
    IsWhole (pre ++ whole) (pre ++ cs) := by
  cases h with
  | all hdot => exact .all (by simp [hpre, hdot])
  | before hdot after =>
    rw [← List.append_assoc]
    exact .before (by simp [hpre, hdot]) after

/-- In front of the dot something stands that decides alone. -/
theorem isIntegerLiteral_iff (hwhole : IsWhole whole cs) (hne : whole ≠ []) :
    IsIntegerLiteral cs v ↔ Decimal.WritesInt whole v := by
  constructor
  · rintro ⟨-, whole', hwhole', hv⟩
    obtain rfl := (isWhole_iff.1 hwhole).symm.trans (isWhole_iff.1 hwhole')
    exact hv.resolve_left fun h => hne h.1
  · intro hv
    refine ⟨?_, whole, hwhole, .inr hv⟩
    obtain ⟨c, hc, hdigit⟩ := hv.exists_digit
    exact ⟨c, hwhole.subset hc, hdigit⟩

end Literals

namespace BoundedInt

variable {w : Width} {cs whole : List Char}

theorem ofLiteral?_eq_some_iff {a : BoundedInt w} :
    ofLiteral? cs = some a ↔ IsIntegerLiteral cs a.val := by
  unfold ofLiteral?
  constructor
  · intro h
    split at h
    · rename_i hdigit
      have hdigit := List.any_eq_true.1 hdigit
      split at h
      · rename_i hnil
        cases h
        exact ⟨hdigit, [], isWhole_iff.2 hnil, .inl ⟨rfl, rfl⟩⟩
      · obtain ⟨v, hv, ha⟩ := Option.bind_eq_some_iff.1 h
        rw [ofInt?_eq_some_iff] at ha
        rw [ha]
        exact ⟨hdigit, _, isWhole_iff.2 rfl, .inr (Decimal.toInt?_eq_some_iff.1 hv)⟩
    · cases h
  · rintro ⟨hdigit, whole, hwhole, hv⟩
    rw [if_pos (List.any_eq_true.2 hdigit), isWhole_iff.1 hwhole]
    rcases hv with ⟨rfl, hzero⟩ | hv
    · exact congrArg some (ext hzero.symm)
    · obtain ⟨c, cs, rfl⟩ := List.exists_cons_of_ne_nil hv.ne_nil
      exact Option.bind_eq_some_iff.2 ⟨a.val, Decimal.toInt?_eq_some_iff.2 hv, ofInt?_val a⟩

theorem ofLiteral?_congr {cs' : List Char}
    (h : ∀ v, IsIntegerLiteral cs v ↔ IsIntegerLiteral cs' v) :
    (ofLiteral? cs : Option (BoundedInt w)) = ofLiteral? cs' := by
  ext a
  rw [ofLiteral?_eq_some_iff, ofLiteral?_eq_some_iff, h]

/-- A text that writes an integer is read as it, if it fits. -/
theorem ofLiteral?_of_writesInt {v : Int} (h : Decimal.WritesInt cs v) :
    (ofLiteral? cs : Option (BoundedInt w)) = ofInt? v := by
  ext a
  rw [ofLiteral?_eq_some_iff, isIntegerLiteral_iff (.all h.dot_notMem) h.ne_nil,
    ofInt?_eq_some_iff]
  constructor
  · intro ha
    exact ha.unique h
  · rintro rfl
    exact h

/-- What stands behind the first dot does not matter where something stands in front of it. -/
theorem ofLiteral?_append_dot (hne : whole ≠ []) (hdot : '.' ∉ whole) (after : List Char) :
    (ofLiteral? (whole ++ '.' :: after) : Option (BoundedInt w)) = ofLiteral? whole :=
  ofLiteral?_congr fun v => by
    rw [isIntegerLiteral_iff (.before hdot after) hne, isIntegerLiteral_iff (.all hdot) hne]

/-- Zeros in front of other digits do not matter either. -/
theorem ofLiteral?_zeros_append {sign : List Char} (hsign : sign ∈ [[], ['+'], ['-']]) (k : Nat)
    {c : Char} (hc : c.isDigit = true) (rest : List Char) :
    (ofLiteral? (sign ++ (List.replicate k '0' ++ c :: rest)) : Option (BoundedInt w)) =
      ofLiteral? (sign ++ c :: rest) := by
  have hno_dot : ∀ sign ∈ [[], ['+'], ['-']], '.' ∉ sign := by decide
  have hsign_dot := hno_dot sign hsign
  have hc_dot : '.' ∉ [c] := by
    rw [List.mem_singleton]
    rintro rfl
    cases hc
  have hzeros_dot : '.' ∉ List.replicate k '0' := by simp [List.mem_replicate]
  have hrest : IsWhole (c :: rest.takeWhile (· != '.')) (c :: rest) :=
    (isWhole_iff.2 rfl).append_left hc_dot
  generalize rest.takeWhile (· != '.') = whole at hrest
  have hshort : IsWhole (sign ++ c :: whole) (sign ++ c :: rest) := hrest.append_left hsign_dot
  have hlong : IsWhole (sign ++ (List.replicate k '0' ++ c :: whole))
      (sign ++ (List.replicate k '0' ++ c :: rest)) :=
    (hrest.append_left hzeros_dot).append_left hsign_dot
  refine ofLiteral?_congr fun v => ?_
  rw [isIntegerLiteral_iff hshort (by simp), isIntegerLiteral_iff hlong (by simp),
    Decimal.writesInt_zeros_append_iff hsign k hc]

/-- Where nothing stands in front of the dot, or zeros alone, the value is zero. -/
theorem eq_zero_of_ofLiteral?_zeros_dot {k : Nat} {after : List Char} {a : BoundedInt w}
    (h : ofLiteral? (List.replicate k '0' ++ '.' :: after) = some a) : a = zero := by
  cases k with
  | zero =>
    obtain ⟨-, whole, hwhole, hv⟩ := ofLiteral?_eq_some_iff.1 h
    obtain rfl : [] = whole := isWhole_iff.1 hwhole
    exact ext (hv.resolve_right fun h => h.ne_nil rfl).2
  | succ k =>
    rw [ofLiteral?_append_dot (by simp) (by simp [List.mem_replicate]), List.replicate_succ'] at h
    have hsign : [] ∈ [[], ['+'], ['-']] := List.mem_cons_self
    have hshort := ofLiteral?_zeros_append (w := w) hsign k (c := '0') rfl []
    rw [List.nil_append, h] at hshort
    have hwritten : Decimal.WritesInt ['0'] a.val :=
      (isIntegerLiteral_iff (.all (by decide)) (by decide)).1 (ofLiteral?_eq_some_iff.1 hshort.symm)
    exact ext (Option.some.inj (Decimal.toInt?_eq_some_iff.2 hwritten)).symm

/-- The text of an integer is a literal of it, and is one with any fraction behind. -/
theorem ofLiteral?_text (a : BoundedInt w) : ofLiteral? (Number.text a).toList = some a ∧
    ∀ after, ofLiteral? ((Number.text a).toList ++ '.' :: after) = some a := by
  have htext : (Number.text a).toList = Decimal.ofInt a.val := String.toList_ofList
  have hwritten := Decimal.writesInt_ofInt a.val
  have hvalue : ofLiteral? (Decimal.ofInt a.val) = some a := by
    rw [ofLiteral?_of_writesInt hwritten, ofInt?_val]
  rw [htext]
  refine ⟨hvalue, fun after => ?_⟩
  rw [ofLiteral?_append_dot hwritten.ne_nil hwritten.dot_notMem, hvalue]

/-- A text is read as an integer exactly if it is a literal of it and the integer fits.  Neither
zeros in front nor what stands behind the dot make a difference, and the text of an integer is a
literal of it, also that of the smallest one. -/
theorem literals_are_read_exactly (w : Width) :
    (∀ (cs : List Char) (n : Int),
      (∃ a : BoundedInt w, Number.ofLiteral? cs = some a ∧ a.val = n) ↔
        IsIntegerLiteral cs n ∧ w.Holds n) ∧
    (∀ sign ∈ [[], ['+'], ['-']], ∀ (k : Nat) (c : Char) (rest : List Char), c.isDigit = true →
      (Number.ofLiteral? (sign ++ (List.replicate k '0' ++ c :: rest)) : Option (BoundedInt w)) =
        Number.ofLiteral? (sign ++ c :: rest)) ∧
    (∀ whole after : List Char, whole ≠ [] → '.' ∉ whole →
      (Number.ofLiteral? (whole ++ '.' :: after) : Option (BoundedInt w)) =
        Number.ofLiteral? whole) ∧
    (∀ (k : Nat) (after : List Char) (a : BoundedInt w),
      Number.ofLiteral? (List.replicate k '0' ++ '.' :: after) = some a → a = .zero) ∧
    ∀ a : BoundedInt w, Number.ofLiteral? (Number.text a).toList = some a ∧
      ∀ after, Number.ofLiteral? ((Number.text a).toList ++ '.' :: after) = some a := by
  refine ⟨fun cs n => ?_, fun sign hsign k c rest hc => ofLiteral?_zeros_append hsign k hc rest,
    fun whole after hne hdot => ofLiteral?_append_dot hne hdot after,
    fun k after a h => eq_zero_of_ofLiteral?_zeros_dot h, ofLiteral?_text⟩
  constructor
  · rintro ⟨a, ha, rfl⟩
    exact ⟨ofLiteral?_eq_some_iff.1 ha, a.holds_val⟩
  · rintro ⟨hliteral, hbelow, habove⟩
    exact ⟨⟨n, hbelow, habove⟩, ofLiteral?_eq_some_iff.2 hliteral, rfl⟩

/-- The smallest integer of 32 bits has a literal, and its opposite has none; zeros behind a sign,
an empty or a zero whole part and a fraction of letters. -/
theorem literals_are_read_exactly_at_smallest :
    IsIntegerLiteral "-2147483648".toList (-2147483648) ∧
    Number.ofLiteral? "-2147483648.x".toList =
      some (⟨-2147483648, by decide, by decide⟩ : BoundedInt .w32) ∧
    (¬ ∃ a : BoundedInt .w32, Number.ofLiteral? "2147483648".toList = some a ∧
      a.val = 2147483648) ∧
    (Number.ofLiteral? "+007.5.9".toList : Option (BoundedInt .w32)) =
      Number.ofLiteral? "+7".toList ∧
    ∀ a : BoundedInt .w32, Number.ofLiteral? ".9".toList = some a ∨
      Number.ofLiteral? "00.9".toList = some a → a = .zero := by
  obtain ⟨hexact, hzeros, hfraction, hsmall, htext⟩ := literals_are_read_exactly .w32
  obtain ⟨hvalue, hlonger⟩ := htext ⟨-2147483648, by decide, by decide⟩
  refine ⟨((hexact _ _).1 ⟨_, hvalue, rfl⟩).1, hlonger ['x'], ?_, ?_, ?_⟩
  · rw [hexact]
    exact fun h => absurd h.2 (by decide)
  · exact (hzeros ['+'] (by decide) 2 '7' ".5.9".toList rfl).trans
      (hfraction "+7".toList "5.9".toList (by decide) (by decide))
  · rintro a (ha | ha)
    · exact hsmall 0 ['9'] a ha
    · exact hsmall 2 ['9'] a ha

end BoundedInt

end Formula
