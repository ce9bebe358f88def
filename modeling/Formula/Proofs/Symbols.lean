import Formula.SymbolTable

/-!
# What names refer to after a change

Entering or removing a symbol changes what its own name refers to and nothing else.
-/

namespace Formula.SymbolTable

variable {α : Type} {table : SymbolTable α} {name key : String}

theorem function?_insertFunction {f : HostFunction α} (h : isIdentifier name = true) :
    (table.insertFunction name f).1.function? key =
      if name = key then some f else table.function? key := by
  simp [insertFunction, h, function?, Std.TreeMap.getElem?_insert]

theorem constant?_insertFunction {f : HostFunction α} (h : isIdentifier name = true) :
    (table.insertFunction name f).1.constant? key =
      if name = key then none else table.constant? key := by
  simp [insertFunction, h, constant?, Std.TreeMap.getElem?_erase]

theorem function?_insertConstant {a : α} (h : isIdentifier name = true) :
    (table.insertConstant name a).1.function? key =
      if name = key then none else table.function? key := by
  simp [insertConstant, h, function?, Std.TreeMap.getElem?_erase]

theorem constant?_insertConstant {a : α} (h : isIdentifier name = true) :
    (table.insertConstant name a).1.constant? key =
      if name = key then some a else table.constant? key := by
  simp [insertConstant, h, constant?, Std.TreeMap.getElem?_insert]

theorem insertFunction_of_not_isIdentifier {f : HostFunction α} (h : ¬ isIdentifier name = true) :
    table.insertFunction name f = (table, none) :=
  if_neg h

theorem insertConstant_of_not_isIdentifier {a : α} (h : ¬ isIdentifier name = true) :
    table.insertConstant name a = (table, none) :=
  if_neg h

theorem function?_eraseFunction :
    (table.eraseFunction name).1.function? key =
      if name = key then none else table.function? key := by
  simp [eraseFunction, function?, Std.TreeMap.getElem?_erase]

theorem constant?_eraseFunction :
    (table.eraseFunction name).1.constant? key = table.constant? key :=
  rfl

theorem function?_eraseConstant :
    (table.eraseConstant name).1.function? key = table.function? key :=
  rfl

theorem constant?_eraseConstant :
    (table.eraseConstant name).1.constant? key =
      if name = key then none else table.constant? key := by
  simp [eraseConstant, constant?, Std.TreeMap.getElem?_erase]

/-! ## Looking a name up -/

/-- Whether `name` is a function of `arity` arguments. -/
def HasFunction (table : SymbolTable α) (name : String) (arity : Nat) : Prop :=
  ∃ f, table.function? name = some f ∧ f.arity = arity

theorem lookup?_eq_some_function_iff {f : HostFunction α} :
    table.lookup? name = some (.function f) ↔ table.function? name = some f := by
  unfold lookup?
  cases table.function? name with
  | none => simp
  | some g => simp

end Formula.SymbolTable
