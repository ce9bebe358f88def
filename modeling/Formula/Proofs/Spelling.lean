import Formula.Proofs.Lexing

/-!
# The longest spelling, searched by bytes

`longestSpelling?` compares the characters of a text with those of every spelling.  The spellings
have between one and three bytes in UTF-8, so there is another way: to look up the first three, two
and one bytes of the text in the table (`spellingByBytes`).  Behind an operator there may stand any
character, and a text cannot be cut inside a character (`firstBytes`), so those numbers of bytes have
to be passed over.  The search never cuts a character and finds the longest spelling
(`spellingByBytes_eq_longest`).
-/

namespace Formula

/-! ## The search -/

/-- A text cannot be cut `bytes` bytes behind its start: a character goes on there, or the text is
shorter. -/
structure CutFailure where
  bytes : Nat
  deriving DecidableEq, Repr

/-- The text that the first `n` bytes of a text make up. -/
def firstBytes (text : String) (n : Nat) : Except CutFailure String :=
  if h : (String.Pos.Raw.mk n).IsValid text then .ok (text.sliceTo ⟨⟨n⟩, h⟩).copy else .error ⟨n⟩

/-- The numbers of bytes, largest first, that a spelling at the start of a text can have, without
those at which a character goes on. -/
def spellingSizes (text : String) : List Nat :=
  (List.range' 1 (min 3 text.utf8ByteSize)).reverse.filter fun n => (String.Pos.Raw.mk n).isValid text

/-- The spelling that the first `n` bytes of a text make up, if there is one. -/
def spellingOfSize (text : String) (n : Nat) : Except CutFailure (Option String) := do
  let start ← firstBytes text n
  return operatorSpellings.find? (· == start)

/-- The spelling that a text begins with, tried by the number of its bytes. -/
def spellingByBytes (text : String) : Except CutFailure (Option String) :=
  (spellingSizes text).findSomeM? (spellingOfSize text)

/-! ## Cutting a text -/

section Cuts

variable {text s : String} {n : Nat}

theorem isValid_utf8ByteSize (h : s.toList <+: text.toList) :
    (String.Pos.Raw.mk s.utf8ByteSize).IsValid text := by
  obtain ⟨rest, hrest⟩ := h
  have htext : text = s ++ String.ofList rest := by
    rw [← String.toList_inj, String.toList_append, String.toList_ofList, hrest]
  exact String.Pos.Raw.isValid_iff_exists_append.2 ⟨s, String.ofList rest, htext, rfl⟩

/-- The first `n` bytes are the text of this size that the whole text begins with.  Where there is
none, the whole text cannot be cut. -/
theorem firstBytes_eq_ok_iff : firstBytes text n = .ok s ↔
    s.toList <+: text.toList ∧ s.utf8ByteSize = n := by
  unfold firstBytes
  split
  · rw [Except.ok.injEq, String.copy_sliceTo_eq_iff_exists_splits]
    constructor
    · rintro ⟨rest, happend, hoffset⟩
      refine ⟨?_, (congrArg String.Pos.Raw.byteIdx hoffset).symm⟩
      rw [happend, String.toList_append]
      exact List.prefix_append _ _
    · rintro ⟨⟨rest, hrest⟩, rfl⟩
      refine ⟨String.ofList rest, ?_, rfl⟩
      rw [← String.toList_inj, String.toList_append, String.toList_ofList, hrest]
  · rename_i hinvalid
    constructor
    · rintro ⟨⟩
    · rintro ⟨hpre, rfl⟩
      exact absurd (isValid_utf8ByteSize hpre) hinvalid

end Cuts

/-! ## What the search finds -/

section Search

variable {text s : String} {n : Nat}

theorem mem_spellingSizes_iff : n ∈ spellingSizes text ↔
    (1 ≤ n ∧ n ≤ 3 ∧ n ≤ text.utf8ByteSize) ∧ (String.Pos.Raw.mk n).IsValid text := by
  rw [spellingSizes, List.mem_filter, List.mem_reverse, List.mem_range'_1,
    String.Pos.Raw.isValid_eq_true_iff]
  constructor
  · rintro ⟨hn, hvalid⟩
    exact ⟨by omega, hvalid⟩
  · rintro ⟨hn, hvalid⟩
    exact ⟨by omega, hvalid⟩

theorem spellingSizes_descending (text : String) :
    (spellingSizes text).Pairwise fun m n => n < m :=
  (List.pairwise_reverse.2 List.pairwise_lt_range').filter _

/-- Spellings are written in ASCII. -/
theorem utf8ByteSize_of_mem_spellings (hs : s ∈ operatorSpellings) :
    s.utf8ByteSize = s.toList.length ∧ 1 ≤ s.utf8ByteSize ∧ s.utf8ByteSize ≤ 3 := by
  have h : ∀ s ∈ operatorSpellings,
      s.utf8ByteSize = s.toList.length ∧ 1 ≤ s.utf8ByteSize ∧ s.utf8ByteSize ≤ 3 := by
    decide +kernel
  exact h s hs

/-- The size of a spelling that the text begins with is tried. -/
theorem utf8ByteSize_mem_spellingSizes (hs : s ∈ operatorSpellings)
    (hpre : s.toList <+: text.toList) : s.utf8ByteSize ∈ spellingSizes text := by
  obtain ⟨-, hone, hthree⟩ := utf8ByteSize_of_mem_spellings hs
  have hvalid := isValid_utf8ByteSize hpre
  exact mem_spellingSizes_iff.2 ⟨⟨hone, hthree, hvalid.le_rawEndPos⟩, hvalid⟩

/-- Where a text can be cut, its first bytes are looked up among the spellings. -/
theorem exists_spellingOfSize_eq_ok (h : (String.Pos.Raw.mk n).IsValid text) :
    ∃ found, spellingOfSize text n = .ok found ∧
      ∀ s : String, found = some s ↔
        s ∈ operatorSpellings ∧ s.toList <+: text.toList ∧ s.utf8ByteSize = n := by
  obtain ⟨start, hstart⟩ : ∃ start, firstBytes text n = .ok start := ⟨_, dif_pos h⟩
  refine ⟨operatorSpellings.find? (· == start), ?_, fun s => ?_⟩
  · rw [spellingOfSize, hstart]
    rfl
  · rw [← firstBytes_eq_ok_iff, hstart, Except.ok.injEq, eq_comm (a := start)]
    constructor
    · intro hfind
      have hequal := List.find?_some hfind
      exact ⟨List.mem_of_find?_eq_some hfind, beq_iff_eq.1 hequal⟩
    · rintro ⟨hmem, rfl⟩
      have hsome : (operatorSpellings.find? (· == s)).isSome :=
        List.find?_isSome.2 ⟨s, hmem, beq_self_eq_true s⟩
      obtain ⟨s', hs'⟩ := Option.isSome_iff_exists.1 hsome
      have hequal := List.find?_some hs'
      rw [hs', beq_iff_eq.1 hequal]

/-- Whether `s` is the longest of the spellings that a text begins with and whose sizes are
tried. -/
structure LongestAmong (sizes : List Nat) (text s : String) : Prop where
  mem : s ∈ operatorSpellings
  isPrefix : s.toList <+: text.toList
  size_mem : s.utf8ByteSize ∈ sizes
  size_le : ∀ s' ∈ operatorSpellings, s'.toList <+: text.toList → s'.utf8ByteSize ∈ sizes →
    s'.utf8ByteSize ≤ s.utf8ByteSize

theorem longestAmong_spellingSizes_iff :
    LongestAmong (spellingSizes text) text s ↔ LongestSpelling s text.toList := by
  constructor
  · intro h
    refine ⟨h.mem, h.isPrefix, fun s' hs' hpre => ?_⟩
    have hle := h.size_le s' hs' hpre (utf8ByteSize_mem_spellingSizes hs' hpre)
    rwa [(utf8ByteSize_of_mem_spellings hs').1, (utf8ByteSize_of_mem_spellings h.mem).1] at hle
  · intro h
    refine ⟨h.mem, h.isPrefix, utf8ByteSize_mem_spellingSizes h.mem h.isPrefix, ?_⟩
    intro s' hs' hpre _
    rw [(utf8ByteSize_of_mem_spellings hs').1, (utf8ByteSize_of_mem_spellings h.mem).1]
    exact h.length_le s' hs' hpre

/-- Sizes that are tried from the largest to the smallest lead to the longest spelling. -/
theorem exists_findSomeM?_eq_ok {sizes : List Nat}
    (hvalid : ∀ n ∈ sizes, (String.Pos.Raw.mk n).IsValid text)
    (hdescending : sizes.Pairwise fun m n => n < m) :
    ∃ found, sizes.findSomeM? (spellingOfSize text) = .ok found ∧
      ∀ s, found = some s ↔ LongestAmong sizes text s := by
  induction sizes with
  | nil =>
    refine ⟨none, rfl, fun s => ?_⟩
    constructor
    · rintro ⟨⟩
    · intro h
      cases h.size_mem
  | cons n sizes ih =>
    obtain ⟨hn, hvalid⟩ := List.forall_mem_cons.1 hvalid
    obtain ⟨hsmaller, hdescending⟩ := List.pairwise_cons.1 hdescending
    obtain ⟨here, hhere, hsome⟩ := exists_spellingOfSize_eq_ok hn
    cases here with
    | some s₀ =>
      obtain ⟨hmem, hpre, hsize⟩ := (hsome s₀).1 rfl
      refine ⟨some s₀, by rw [List.findSomeM?_cons, hhere]; rfl, fun s => ?_⟩
      constructor
      · rintro ⟨⟩
        refine ⟨hmem, hpre, hsize ▸ List.mem_cons_self, fun s' _ _ hsize' => ?_⟩
        rw [hsize]
        rcases List.mem_cons.1 hsize' with heq | hsize'
        · exact heq.le
        · exact (hsmaller _ hsize').le
      · intro h
        have hle := h.size_le s₀ hmem hpre (hsize ▸ List.mem_cons_self)
        refine (hsome s).2 ⟨h.mem, h.isPrefix, ?_⟩
        rcases List.mem_cons.1 h.size_mem with heq | hsize'
        · exact heq
        · have := hsmaller _ hsize'
          omega
    | none =>
      obtain ⟨found, hfound, hiff⟩ := ih hvalid hdescending
      refine ⟨found, by rw [List.findSomeM?_cons, hhere]; exact hfound, fun s => ?_⟩
      -- No spelling that the text begins with has the size `n`.
      have hne : ∀ s' ∈ operatorSpellings, s'.toList <+: text.toList →
          (s'.utf8ByteSize ∈ n :: sizes ↔ s'.utf8ByteSize ∈ sizes) := by
        intro s' hs' hpre
        refine ⟨fun hsize => (List.mem_cons.1 hsize).resolve_left fun heq => ?_,
          List.mem_cons_of_mem n⟩
        cases (hsome s').2 ⟨hs', hpre, heq⟩
      rw [hiff]
      constructor
      · intro h
        exact ⟨h.mem, h.isPrefix, List.mem_cons_of_mem n h.size_mem, fun s' hs' hpre hsize =>
          h.size_le s' hs' hpre ((hne s' hs' hpre).1 hsize)⟩
      · intro h
        exact ⟨h.mem, h.isPrefix, (hne s h.mem h.isPrefix).1 h.size_mem, fun s' hs' hpre hsize =>
          h.size_le s' hs' hpre (List.mem_cons_of_mem n hsize)⟩

/-- The search never cuts a character, and finds the longest spelling that the text begins with,
like the comparison of characters; it finds nothing exactly if the text begins with no spelling. -/
theorem spellingByBytes_eq_longest (text : String) :
    ∃ found, spellingByBytes text = .ok found ∧ longestSpelling? text.toList = found ∧
      (∀ s, found = some s ↔ LongestSpelling s text.toList) ∧
      (found = none ↔ ∀ s ∈ operatorSpellings, ¬ s.toList <+: text.toList) := by
  obtain ⟨found, hfound, hiff⟩ := exists_findSomeM?_eq_ok
    (fun n hn => (mem_spellingSizes_iff.1 hn).2) (spellingSizes_descending text)
  have hlongest : longestSpelling? text.toList = found := by
    ext s
    rw [longestSpelling?_eq_some_iff, hiff, longestAmong_spellingSizes_iff]
  refine ⟨found, hfound, hlongest, fun s => ?_, ?_⟩
  · rw [hiff, longestAmong_spellingSizes_iff]
  · simp only [← hlongest, longestSpelling?, List.find?_eq_none, List.isPrefixOf_iff_prefix]

end Search

end Formula
