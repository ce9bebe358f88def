import Formula.Number.BoundedInt
import Formula.Proofs.Directory
import Formula.Proofs.Mention
import Formula.Proofs.Reordering.Contents

/-!
# What the value of a formula depends on

The names that are met when a formula is read are all that its tokens, its postfix order and its
value depend on: the functions looked up again when it is run are among them (`evaluate_congr`).  So
changes of a symbol table under other names leave them as they are, failures included.
-/

namespace Formula

variable {α : Type}

namespace SymbolTable

variable {table table' : SymbolTable α} {name : String}

theorem function?_congr (h : table.lookup? name = table'.lookup? name) :
    table.function? name = table'.function? name := by
  apply Option.ext
  intro f
  rw [← lookup?_eq_some_function_iff, h, lookup?_eq_some_function_iff]

end SymbolTable

/-! ## Tables that agree -/

section Agreement

variable [Number α] {table table' : SymbolTable α} {formula name : String}

omit [Number α] in
theorem readName_congr (h : table.lookup? name = table'.lookup? name) :
    readName table name = readName table' name := by
  unfold readName
  rw [h]

theorem evaluate_congr
    (h : ∀ name, Meets table formula name → table.lookup? name = table'.lookup? name) :
    evaluate table formula = evaluate table' formula := by
  have hparse : parse table formula = parse table' formula :=
    parse_congr fun name hname => readName_congr (h name hname)
  rw [evaluate, evaluate, ← hparse]
  cases hp : parse table formula with
  | error e => rfl
  | ok p =>
    show execute table p = execute table' p
    apply execute_congr
    intro name arity hcall
    obtain ⟨ts, hts, hpostfix⟩ := bind_eq_ok_iff.1 hp
    have hread := ((mem_toPostfix_iff hpostfix).1 hcall).1
    exact SymbolTable.function?_congr (h name (meets_of_function_mem hts hread))

end Agreement

/-! ## Changes under other names -/

/-- The name that a change is about. -/
def Change.name : Change α → String
  | insertFunction name _ | eraseFunction name | insertConstant name _ | eraseConstant name => name

namespace SymbolTable

variable {table : SymbolTable α} {name : String}

theorem lookup?_change_of_ne {c : Change α} (h : c.name ≠ name) :
    (table.change c).lookup? name = table.lookup? name := by
  cases c with
  | insertFunction key f =>
    have hne : ¬ key = name := h
    by_cases hkey : isIdentifier key = true
    · rw [change, lookup?, function?_insertFunction hkey, constant?_insertFunction hkey, if_neg hne,
        if_neg hne, lookup?]
    · rw [change, insertFunction_of_not_isIdentifier hkey]
  | eraseFunction key =>
    have hne : ¬ key = name := h
    rw [change, lookup?, function?_eraseFunction, constant?_eraseFunction, if_neg hne, lookup?]
  | insertConstant key a =>
    have hne : ¬ key = name := h
    by_cases hkey : isIdentifier key = true
    · rw [change, lookup?, function?_insertConstant hkey, constant?_insertConstant hkey, if_neg hne,
        if_neg hne, lookup?]
    · rw [change, insertConstant_of_not_isIdentifier hkey]
  | eraseConstant key =>
    have hne : ¬ key = name := h
    rw [change, lookup?, function?_eraseConstant, constant?_eraseConstant, if_neg hne, lookup?]

theorem lookup?_changeAll_of_forall_ne {changes : List (Change α)}
    (h : ∀ c ∈ changes, c.name ≠ name) :
    (table.changeAll changes).lookup? name = table.lookup? name := by
  induction changes generalizing table with
  | nil => rfl
  | cons c changes ih =>
    obtain ⟨hc, hchanges⟩ := List.forall_mem_cons.1 h
    exact (ih hchanges).trans (lookup?_change_of_ne hc)

end SymbolTable

variable [Number α]

/-- Two tables that agree on the names which are met in a formula give it the same tokens, the same
postfix order and the same value, or the same failures.  So do a table and what becomes of it by any
changes under names that are not met. -/
theorem evaluation_depends_on_met_names (table : SymbolTable α) (formula : String) :
    (∀ table' : SymbolTable α,
      (∀ name, Meets table formula name → table.lookup? name = table'.lookup? name) →
        tokenize table formula = tokenize table' formula ∧
        parse table formula = parse table' formula ∧
        evaluate table formula = evaluate table' formula) ∧
    ∀ changes : List (Change α), (∀ c ∈ changes, ¬ Meets table formula c.name) →
      tokenize table formula = tokenize (table.changeAll changes) formula ∧
      parse table formula = parse (table.changeAll changes) formula ∧
      evaluate table formula = evaluate (table.changeAll changes) formula := by
  have hagree : ∀ table' : SymbolTable α,
      (∀ name, Meets table formula name → table.lookup? name = table'.lookup? name) →
        tokenize table formula = tokenize table' formula ∧
        parse table formula = parse table' formula ∧
        evaluate table formula = evaluate table' formula := by
    intro table' h
    exact ⟨tokenize_congr fun name hname => readName_congr (h name hname),
      parse_congr fun name hname => readName_congr (h name hname), evaluate_congr h⟩
  refine ⟨hagree, fun changes hchanges => hagree _ fun name hname => ?_⟩
  symm
  apply SymbolTable.lookup?_changeAll_of_forall_ne
  rintro c hc rfl
  exact hchanges c hc hname

/-- The formula `f(max) - 1` and changes of the names `ma`, `maxi` and `f2`, which it does not
mention. -/
theorem evaluation_depends_on_met_names_of_difference :
    let table : SymbolTable (BoundedInt .w64) :=
      SymbolTable.empty.changeAll [.insertConstant "max" ⟨5, by decide, by decide⟩,
        .insertFunction "f" (.of fun a : BoundedInt .w64 => a), .insertConstant "maxi" .one]
    let changes : List (Change (BoundedInt .w64)) :=
      [.insertConstant "ma" .zero, .insertFunction "maxi" (.of fun a : BoundedInt .w64 => a),
        .eraseFunction "f2"]
    evaluate table "f(max) - 1" = .ok ⟨4, by decide, by decide⟩ ∧
      evaluate table "f(max) - 1" = evaluate (table.changeAll changes) "f(max) - 1" ∧
      parse table "f(max) - 1" = parse (table.change (.eraseConstant "maxi")) "f(max) - 1" := by
  intro table changes
  have hnames : identifiers "f(max) - 1" = ["f", "max"] := by decide +kernel
  have hmet : ∀ name, Meets table "f(max) - 1" name → name = "f" ∨ name = "max" := by
    intro name hname
    simpa [hnames] using hname.mem_identifiers
  obtain ⟨hagree, hchanges⟩ := evaluation_depends_on_met_names table "f(max) - 1"
  refine ⟨by decide +kernel, (hchanges changes fun c hc hname => ?_).2.2,
    (hagree _ fun name hname => ?_).2.1⟩
  · have hother : ∀ c ∈ changes, ¬ (c.name = "f" ∨ c.name = "max") := by
      simp [changes, Change.name]
    exact hother c hc (hmet _ hname)
  · obtain rfl | rfl := hmet name hname
    · rfl
    · rfl

end Formula
