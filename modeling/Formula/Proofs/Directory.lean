import Mathlib.Data.String.Basic
import Mathlib.Logic.Function.Basic
import Formula.Proofs.Symbols

/-!
# Symbol tables as one directory

A symbol table keeps functions and constants in two maps.  A `Directory` is a single map from names
to symbols: entering a symbol overwrites the entry of its name, and removing a function or a
constant clears the entry if it is of that kind.  A table and a directory that the same changes lead
to stay together (`SymbolTable.Represents.changeAll`), so that the two maps never share a name, and
every answer is the one that the directory gives (`SymbolTable.changeAll_empty_matches_directory`).
-/

namespace Formula

variable {α : Type}

/-! ## Changes -/

namespace Symbol

/-- The function that a symbol is, if it is one. -/
def function? : Symbol α → Option (HostFunction α)
  | function f => some f
  | constant _ => none

/-- The constant that a symbol is, if it is one. -/
def constant? : Symbol α → Option α
  | function _ => none
  | constant a => some a

end Symbol

/-- A request to change what a name refers to. -/
inductive Change (α : Type) where
  | insertFunction (name : String) (f : HostFunction α)
  | eraseFunction (name : String)
  | insertConstant (name : String) (a : α)
  | eraseConstant (name : String)

namespace SymbolTable

/-- The table after a change. -/
def change (table : SymbolTable α) : Change α → SymbolTable α
  | .insertFunction name f => (table.insertFunction name f).1
  | .eraseFunction name => (table.eraseFunction name).1
  | .insertConstant name a => (table.insertConstant name a).1
  | .eraseConstant name => (table.eraseConstant name).1

/-- What the table answers to a change. -/
def answer (table : SymbolTable α) : Change α → Option (Symbol α)
  | .insertFunction name f => (table.insertFunction name f).2.map .function
  | .eraseFunction name => (table.eraseFunction name).2.map .function
  | .insertConstant name a => (table.insertConstant name a).2.map .constant
  | .eraseConstant name => (table.eraseConstant name).2.map .constant

/-- The table after a list of changes. -/
def changeAll (table : SymbolTable α) (changes : List (Change α)) : SymbolTable α :=
  changes.foldl change table

end SymbolTable

/-- What each name refers to. -/
abbrev Directory (α : Type) : Type :=
  String → Option (Symbol α)

namespace Directory

/-- The directory without any entry. -/
def empty : Directory α :=
  fun _ => none

/-- The function entered under `name`. -/
def function? (d : Directory α) (name : String) : Option (HostFunction α) :=
  (d name).bind Symbol.function?

/-- The constant entered under `name`. -/
def constant? (d : Directory α) (name : String) : Option α :=
  (d name).bind Symbol.constant?

/-- The directory with `entry` under `name`. -/
def set (d : Directory α) (name : String) (entry : Option (Symbol α)) : Directory α :=
  Function.update d name entry

/-- The directory after a change.  Only identifiers are entered, and an entry is only removed as
what it is. -/
def change (d : Directory α) : Change α → Directory α
  | .insertFunction name f => if isIdentifier name then d.set name (some (.function f)) else d
  | .eraseFunction name => if (d.function? name).isSome then d.set name none else d
  | .insertConstant name a => if isIdentifier name then d.set name (some (.constant a)) else d
  | .eraseConstant name => if (d.constant? name).isSome then d.set name none else d

/-- The answer to a change: the function or the constant that was entered under its name before. -/
def answer (d : Directory α) : Change α → Option (Symbol α)
  | .insertFunction name _ | .eraseFunction name => (d.function? name).map .function
  | .insertConstant name _ | .eraseConstant name => (d.constant? name).map .constant

/-- The directory after a list of changes. -/
def changeAll (d : Directory α) (changes : List (Change α)) : Directory α :=
  changes.foldl change d

variable {d : Directory α} {name key : String}

theorem set_apply (entry : Option (Symbol α)) :
    d.set name entry key = if name = key then entry else d key := by
  unfold set
  rw [Function.update_apply]
  exact if_congr eq_comm rfl rfl

/-- A view of all entries, such as the functions or the constants, after one entry is set. -/
theorem bind_set {β : Type} (view : Symbol α → Option β) (entry : Option (Symbol α)) :
    (d.set name entry key).bind view =
      if name = key then entry.bind view else (d key).bind view := by
  rw [set_apply]
  exact apply_ite (Option.bind · view) _ _ _

theorem function?_eq_some_iff {f : HostFunction α} :
    d.function? name = some f ↔ d name = some (.function f) := by
  unfold function?
  rcases d name with _ | _ | _ <;> simp [Symbol.function?]

theorem constant?_eq_some_iff {a : α} :
    d.constant? name = some a ↔ d name = some (.constant a) := by
  unfold constant?
  rcases d name with _ | _ | _ <;> simp [Symbol.constant?]

/-- No entry is both. -/
theorem function?_eq_none_or_constant?_eq_none (d : Directory α) (name : String) :
    d.function? name = none ∨ d.constant? name = none := by
  unfold function? constant?
  rcases d name with _ | _ | _
  · exact .inl rfl
  · exact .inr rfl
  · exact .inl rfl

/-- What a view shows after the entry is removed that it shows under `name`. -/
theorem bind_erase {β : Type} (view : Symbol α → Option β) :
    ((if ((d name).bind view).isSome then d.set name none else d) key).bind view =
      if name = key then none else (d key).bind view := by
  split
  · exact bind_set view none
  · rename_i hnone
    split
    · rename_i hkey
      rwa [hkey, Option.not_isSome_iff_eq_none] at hnone
    · rfl

/-- Another view, which never shows the same entry, does not change. -/
theorem bind_erase_of_disjoint {β γ : Type} {view : Symbol α → Option β}
    {other : Symbol α → Option γ}
    (h : ∀ key, (d key).bind view = none ∨ (d key).bind other = none) :
    ((if ((d name).bind view).isSome then d.set name none else d) key).bind other =
      (d key).bind other := by
  split
  · rename_i hsome
    rw [bind_set]
    split
    · rename_i hkey
      rw [Option.isSome_iff_ne_none, hkey] at hsome
      exact ((h key).resolve_left hsome).symm
    · rfl
  · rfl

/-- Whether only identifiers are entered. -/
def HasIdentifiers (d : Directory α) : Prop :=
  ∀ name, d name ≠ none → isIdentifier name = true

theorem HasIdentifiers.set_some (h : d.HasIdentifiers) (hname : isIdentifier name = true)
    (s : Symbol α) : (d.set name (some s)).HasIdentifiers := by
  intro key hkey
  rw [set_apply] at hkey
  split at hkey
  · rename_i heq
    rwa [← heq]
  · exact h key hkey

theorem HasIdentifiers.erase (h : d.HasIdentifiers) (c : Prop) [Decidable c] (name : String) :
    (if c then d.set name none else d).HasIdentifiers := by
  split
  · intro key hkey
    rw [set_apply] at hkey
    split at hkey
    · exact absurd rfl hkey
    · exact h key hkey
  · exact h

end Directory

/-! ## Tables and directories -/

namespace SymbolTable

/-- Whether the two maps of a table are the functions and the constants of a directory of
identifiers. -/
structure Represents (table : SymbolTable α) (d : Directory α) : Prop where
  function?_eq : ∀ name, table.function? name = d.function? name
  constant?_eq : ∀ name, table.constant? name = d.constant? name
  hasIdentifiers : d.HasIdentifiers

theorem represents_empty : (empty : SymbolTable α).Represents .empty where
  function?_eq _ := rfl
  constant?_eq _ := rfl
  hasIdentifiers _ h := absurd rfl h

variable {table : SymbolTable α} {d : Directory α}

/-- A table in which `name` stands for `symbol` now represents the directory with this entry. -/
theorem Represents.enter (h : table.Represents d) {later : SymbolTable α} {name : String}
    (hname : isIdentifier name = true) (symbol : Symbol α)
    (hfunction : ∀ key, later.function? key =
      if name = key then symbol.function? else table.function? key)
    (hconstant : ∀ key, later.constant? key =
      if name = key then symbol.constant? else table.constant? key) :
    later.Represents (d.set name (some symbol)) := by
  refine ⟨fun key => ?_, fun key => ?_, h.hasIdentifiers.set_some hname symbol⟩
  · rw [hfunction, h.function?_eq]
    unfold Directory.function?
    rw [Directory.bind_set]
    rfl
  · rw [hconstant, h.constant?_eq]
    unfold Directory.constant?
    rw [Directory.bind_set]
    rfl

theorem Represents.insertFunction (h : table.Represents d) (name : String) (f : HostFunction α) :
    (table.change (.insertFunction name f)).Represents (d.change (.insertFunction name f)) := by
  rw [change, Directory.change]
  by_cases hname : isIdentifier name = true
  · rw [if_pos hname]
    exact h.enter hname (.function f) (fun _ => function?_insertFunction hname)
      fun _ => constant?_insertFunction hname
  · rwa [if_neg hname, insertFunction_of_not_isIdentifier hname]

theorem Represents.insertConstant (h : table.Represents d) (name : String) (a : α) :
    (table.change (.insertConstant name a)).Represents (d.change (.insertConstant name a)) := by
  rw [change, Directory.change]
  by_cases hname : isIdentifier name = true
  · rw [if_pos hname]
    exact h.enter hname (.constant a) (fun _ => function?_insertConstant hname)
      fun _ => constant?_insertConstant hname
  · rwa [if_neg hname, insertConstant_of_not_isIdentifier hname]

theorem Represents.eraseFunction (h : table.Represents d) (name : String) :
    (table.change (.eraseFunction name)).Represents (d.change (.eraseFunction name)) := by
  refine ⟨fun key => ?_, fun key => ?_, h.hasIdentifiers.erase _ name⟩
  · rw [change, function?_eraseFunction, h.function?_eq]
    exact (Directory.bind_erase Symbol.function?).symm
  · rw [change, constant?_eraseFunction, h.constant?_eq]
    exact (Directory.bind_erase_of_disjoint d.function?_eq_none_or_constant?_eq_none).symm

theorem Represents.eraseConstant (h : table.Represents d) (name : String) :
    (table.change (.eraseConstant name)).Represents (d.change (.eraseConstant name)) := by
  refine ⟨fun key => ?_, fun key => ?_, h.hasIdentifiers.erase _ name⟩
  · rw [change, function?_eraseConstant, h.function?_eq]
    exact (Directory.bind_erase_of_disjoint fun key =>
      (d.function?_eq_none_or_constant?_eq_none key).symm).symm
  · rw [change, constant?_eraseConstant, h.constant?_eq]
    exact (Directory.bind_erase Symbol.constant?).symm

theorem Represents.change (h : table.Represents d) (c : Change α) :
    (table.change c).Represents (d.change c) := by
  cases c with
  | insertFunction name f => exact h.insertFunction name f
  | eraseFunction name => exact h.eraseFunction name
  | insertConstant name a => exact h.insertConstant name a
  | eraseConstant name => exact h.eraseConstant name

theorem Represents.changeAll (h : table.Represents d) (changes : List (Change α)) :
    (table.changeAll changes).Represents (d.changeAll changes) := by
  induction changes generalizing table d with
  | nil => exact h
  | cons c changes ih => exact ih (h.change c)

/-! ## What a table shows of its directory -/

theorem Represents.lookup?_eq (h : table.Represents d) (name : String) :
    table.lookup? name = d name := by
  unfold lookup?
  rw [h.function?_eq, h.constant?_eq]
  unfold Directory.function? Directory.constant?
  rcases d name with _ | _ | _ <;> rfl

/-- A name that is refused has no entry, so that nothing is given back for it. -/
theorem Represents.eq_none_of_not_isIdentifier (h : table.Represents d) {name : String}
    (hname : ¬ isIdentifier name = true) : d name = none :=
  Classical.not_not.1 fun hentry => hname (h.hasIdentifiers name hentry)

theorem Represents.answer_eq (h : table.Represents d) (c : Change α) :
    table.answer c = d.answer c := by
  cases c with
  | insertFunction name f =>
    rw [answer, Directory.answer, ← h.function?_eq]
    by_cases hname : isIdentifier name = true
    · rw [SymbolTable.insertFunction, if_pos hname]
    · rw [insertFunction_of_not_isIdentifier hname, h.function?_eq, Directory.function?,
        h.eq_none_of_not_isIdentifier hname]
      rfl
  | eraseFunction name => exact congrArg (Option.map Symbol.function) (h.function?_eq name)
  | insertConstant name a =>
    rw [answer, Directory.answer, ← h.constant?_eq]
    by_cases hname : isIdentifier name = true
    · rw [SymbolTable.insertConstant, if_pos hname]
    · rw [insertConstant_of_not_isIdentifier hname, h.constant?_eq, Directory.constant?,
        h.eq_none_of_not_isIdentifier hname]
      rfl
  | eraseConstant name => exact congrArg (Option.map Symbol.constant) (h.constant?_eq name)

theorem mem_functionNames_iff {name : String} :
    name ∈ table.functionNames ↔ ∃ f, table.function? name = some f := by
  unfold functionNames function?
  rw [Std.TreeMap.mem_keys, Std.TreeMap.mem_iff_isSome_getElem?, Option.isSome_iff_exists]

theorem mem_constantNames_iff {name : String} :
    name ∈ table.constantNames ↔ ∃ a, table.constant? name = some a := by
  unfold constantNames constant?
  rw [Std.TreeMap.mem_keys, Std.TreeMap.mem_iff_isSome_getElem?, Option.isSome_iff_exists]

theorem pairwise_functionNames (table : SymbolTable α) :
    table.functionNames.Pairwise (· < ·) :=
  Std.TreeMap.ordered_keys.imp compare_lt_iff_lt.1

theorem pairwise_constantNames (table : SymbolTable α) :
    table.constantNames.Pairwise (· < ·) :=
  Std.TreeMap.ordered_keys.imp compare_lt_iff_lt.1

/-- Whatever changes are made to the empty table, it shows the directory that the same changes make
of the empty one: in every lookup, in its lists of names, which are ascending, and in its answer to
the next change.  No name is a function and a constant, and every name is an identifier. -/
theorem changeAll_empty_matches_directory (changes : List (Change α)) :
    let table : SymbolTable α := empty.changeAll changes
    let d : Directory α := Directory.empty.changeAll changes
    (∀ name, table.function? name = d.function? name ∧ table.constant? name = d.constant? name ∧
      table.lookup? name = d name) ∧
    (∀ name, table.function? name = none ∨ table.constant? name = none) ∧
    (∀ name, name ∈ table.functionNames ∨ name ∈ table.constantNames →
      isIdentifier name = true) ∧
    (table.functionNames.Pairwise (· < ·) ∧
      ∀ name, name ∈ table.functionNames ↔ ∃ f, d name = some (.function f)) ∧
    (table.constantNames.Pairwise (· < ·) ∧
      ∀ name, name ∈ table.constantNames ↔ ∃ a, d name = some (.constant a)) ∧
    ∀ c, table.answer c = d.answer c := by
  intro table d
  have h : table.Represents d := represents_empty.changeAll changes
  have hfunctions : ∀ name, name ∈ table.functionNames ↔ ∃ f, d name = some (.function f) := by
    intro name
    simp only [mem_functionNames_iff, h.function?_eq, Directory.function?_eq_some_iff]
  have hconstants : ∀ name, name ∈ table.constantNames ↔ ∃ a, d name = some (.constant a) := by
    intro name
    simp only [mem_constantNames_iff, h.constant?_eq, Directory.constant?_eq_some_iff]
  refine ⟨fun name => ⟨h.function?_eq name, h.constant?_eq name, h.lookup?_eq name⟩,
    fun name => ?_, fun name hname => ?_, ⟨table.pairwise_functionNames, hfunctions⟩,
    ⟨table.pairwise_constantNames, hconstants⟩, h.answer_eq⟩
  · rw [h.function?_eq, h.constant?_eq]
    exact d.function?_eq_none_or_constant?_eq_none name
  · apply h.hasIdentifiers
    rcases hname with hname | hname
    · obtain ⟨f, hf⟩ := (hfunctions name).1 hname
      rw [hf]
      nofun
    · obtain ⟨a, ha⟩ := (hconstants name).1 hname
      rw [ha]
      nofun

end SymbolTable

end Formula
