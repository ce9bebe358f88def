import Std.Data.TreeMap
import Formula.HostFunction
import Formula.Text.Identifier

/-!
# Symbol tables

The functions and constants that the names in a formula refer to.  Only identifiers are registered,
since nothing else can be mentioned in a formula, and registering a name as one kind of symbol
removes it as the other.  Names are listed in the order of their code points.
-/

namespace Formula

/-- What a name refers to. -/
inductive Symbol (α : Type) where
  | function (f : HostFunction α)
  | constant (a : α)

/-- The symbols known to an evaluation. -/
structure SymbolTable (α : Type) where
  functions : Std.TreeMap String (HostFunction α) := {}
  constants : Std.TreeMap String α := {}

namespace SymbolTable

variable {α : Type}

/-- The table without any symbol. -/
def empty : SymbolTable α :=
  {}

/-- The function called `name`. -/
def function? (table : SymbolTable α) (name : String) : Option (HostFunction α) :=
  table.functions[name]?

/-- The constant called `name`. -/
def constant? (table : SymbolTable α) (name : String) : Option α :=
  table.constants[name]?

/-- What `name` refers to. -/
def lookup? (table : SymbolTable α) (name : String) : Option (Symbol α) :=
  match table.function? name with
  | some f => some (.function f)
  | none => (table.constant? name).map .constant

/-- The names of all functions, in ascending order. -/
def functionNames (table : SymbolTable α) : List String :=
  table.functions.keys

/-- The names of all constants, in ascending order. -/
def constantNames (table : SymbolTable α) : List String :=
  table.constants.keys

/-- Enter a function, and give the function that `name` referred to before.  A name that
is no identifier changes nothing. -/
def insertFunction (table : SymbolTable α) (name : String) (f : HostFunction α) :
    SymbolTable α × Option (HostFunction α) :=
  if isIdentifier name then
    (⟨table.functions.insert name f, table.constants.erase name⟩, table.function? name)
  else (table, none)

/-- Remove a function, and give it back. -/
def eraseFunction (table : SymbolTable α) (name : String) :
    SymbolTable α × Option (HostFunction α) :=
  ({ table with functions := table.functions.erase name }, table.function? name)

/-- Enter a constant, and give the constant that `name` referred to before.  A name that
is no identifier changes nothing. -/
def insertConstant (table : SymbolTable α) (name : String) (a : α) : SymbolTable α × Option α :=
  if isIdentifier name then
    (⟨table.functions.erase name, table.constants.insert name a⟩, table.constant? name)
  else (table, none)

/-- Remove a constant, and give it back. -/
def eraseConstant (table : SymbolTable α) (name : String) : SymbolTable α × Option α :=
  ({ table with constants := table.constants.erase name }, table.constant? name)

end SymbolTable

end Formula
