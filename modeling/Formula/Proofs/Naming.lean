import Formula.Number.BoundedInt
import Formula.Proofs.Dependence

/-!
# Names that can be registered and names that can be mentioned

Symbol tables take the names that `isIdentifier` admits; the reading of a formula finds names by the
characters that they begin and go on with.  Both have the same names in mind.  An identifier, taken
as a formula, is read as one lexeme (`tokenize_identifier`), so that whatever is registered under it
can be mentioned; and since only identifiers are met, an entry under another name would never be
looked up (`identifiers_are_the_names_of_formulas`).
-/

namespace Formula

/-! ## Texts that are no identifiers -/

section Identifiers

variable {name : String} {c : Char}

theorem continuesIdentifier_of_mem (h : isIdentifier name = true) (hc : c ∈ name.toList) :
    continuesIdentifier c = true := by
  obtain ⟨d, ds, hname, hd, hds⟩ := isIdentifierChars_iff.1 h
  rw [hname] at hc
  rcases List.mem_cons.1 hc with rfl | hc
  · exact continuesIdentifier_of_startsIdentifier hd
  · exact hds c hc

theorem continuesIdentifier_eq_false_of_mem_spelling {s : String} (hs : s ∈ operatorSpellings)
    (hc : c ∈ s.toList) : continuesIdentifier c = false := by
  have h : ∀ s ∈ operatorSpellings, (s.toList.all fun c => !continuesIdentifier c) = true := by
    decide +kernel
  have hall := List.all_eq_true.1 (h s hs) c hc
  rwa [Bool.not_eq_true'] at hall

/-- Whether a text is empty, begins with a digit, or holds a blank character, a dot or an operator
somewhere. -/
inductive IsUnnameable (name : String) : Prop
  | empty (eq_empty : name = "")
  | digit (c : Char) (head : name.toList.head? = some c) (digit : c.isDigit = true)
  | blank (c : Char) (mem : c ∈ name.toList) (blank : isBlank c = true)
  | dot (mem : '.' ∈ name.toList)
  | operator (s : String) (mem : s ∈ operatorSpellings) (within : s.toList <:+: name.toList)

theorem IsUnnameable.isIdentifier_eq_false (h : IsUnnameable name) : isIdentifier name = false := by
  rw [Bool.eq_false_iff]
  intro hname
  have hchars : ∀ c ∈ name.toList, continuesIdentifier c = true := fun c hc =>
    continuesIdentifier_of_mem hname hc
  cases h with
  | empty heq =>
    rw [heq] at hname
    cases hname
  | digit c hhead hdigit =>
    obtain ⟨d, ds, hcons, hd, -⟩ := isIdentifierChars_iff.1 hname
    rw [hcons, List.head?_cons, Option.some_inj] at hhead
    have hliteral := isLiteralChar_eq_false_of_startsIdentifier hd
    rw [isLiteralChar, hhead, hdigit] at hliteral
    cases hliteral
  | blank c hmem hblank =>
    have hc := hchars c hmem
    rw [continuesIdentifier_eq_false_of_isBlank hblank] at hc
    cases hc
  | dot hmem => cases hchars '.' hmem
  | operator s hs hwithin =>
    obtain ⟨c, hc⟩ := List.exists_mem_of_ne_nil _ (ne_nil_of_mem_operatorSpellings hs)
    have hcontinues := hchars c (hwithin.subset hc)
    rw [continuesIdentifier_eq_false_of_mem_spelling hs hc] at hcontinues
    cases hcontinues

end Identifiers

/-! ## Identifiers as formulas -/

section Mentions

variable {α : Type} [Number α] {table : SymbolTable α} {name : String}

/-- A formula that is an identifier has the token of its name, or fails as the name does. -/
theorem tokenize_identifier (hname : isIdentifier name = true) :
    tokenize table name = (readName table name).map fun t => [t] := by
  obtain ⟨c, cs, hcons, hc, hcs⟩ := isIdentifierChars_iff.1 hname
  have hends : Ends continuesIdentifier [] := nofun
  have hword := Lexeme.first_word hc hcs hends
  rw [List.append_nil] at hword
  rw [tokenize, hcons, lexemes, hword, lexemes, readTokens, Lexeme.token?, ← hcons,
    String.ofList_toList]
  cases readName table name <;> rfl

omit [Number α] in
theorem lookup?_insertFunction (hname : isIdentifier name = true) (f : HostFunction α) :
    (table.insertFunction name f).1.lookup? name = some (.function f) := by
  rw [SymbolTable.lookup?_eq_some_function_iff, SymbolTable.function?_insertFunction hname,
    if_pos rfl]

omit [Number α] in
theorem lookup?_insertConstant (hname : isIdentifier name = true) (a : α) :
    (table.insertConstant name a).1.lookup? name = some (.constant a) := by
  rw [SymbolTable.lookup?, SymbolTable.function?_insertConstant hname, if_pos rfl,
    SymbolTable.constant?_insertConstant hname, if_pos rfl]
  rfl

end Mentions

variable {α : Type} [Number α]

/-- An identifier that is registered can be mentioned: the formula that consists of it alone is read
as this function or constant, and refused under its name if nothing is registered under it.  What a
formula calls or misses has the name of an identifier.  A text that is none, such as the empty one,
one that begins with a digit and one with a blank character, a dot or an operator, is not registered,
and what a table has under it makes no difference to any formula. -/
theorem identifiers_are_the_names_of_formulas (table : SymbolTable α) (name : String) :
    (isIdentifier name = true →
      (∀ f, tokenize (table.insertFunction name f).1 name = .ok [.function name f.arity]) ∧
      (∀ a, tokenize (table.insertConstant name a).1 name = .ok [.operand a]) ∧
      (table.lookup? name = none → tokenize table name = .error (.unexpectedName name))) ∧
    (∀ formula ts arity, tokenize table formula = .ok ts → .function name arity ∈ ts →
      isIdentifier name = true) ∧
    (∀ formula, tokenize table formula = .error (.unexpectedName name) →
      isIdentifier name = true) ∧
    (IsUnnameable name → isIdentifier name = false) ∧
    (isIdentifier name = false →
      (∀ f a, table.insertFunction name f = (table, none) ∧
        table.insertConstant name a = (table, none)) ∧
      ∀ table' : SymbolTable α, (∀ key, key ≠ name → table.lookup? key = table'.lookup? key) →
        ∀ formula, tokenize table formula = tokenize table' formula ∧
          evaluate table formula = evaluate table' formula) := by
  refine ⟨fun hname => ⟨fun f => ?_, fun a => ?_, fun hnone => ?_⟩,
    fun formula ts arity hts hmem => (meets_of_function_mem hts hmem).isIdentifier,
    fun formula he => (meets_of_unexpectedName he).isIdentifier,
    IsUnnameable.isIdentifier_eq_false, fun hname => ⟨fun f a => ?_, fun table' h formula => ?_⟩⟩
  · rw [tokenize_identifier hname, readName, lookup?_insertFunction hname]
    rfl
  · rw [tokenize_identifier hname, readName, lookup?_insertConstant hname]
    rfl
  · rw [tokenize_identifier hname, readName, hnone]
    rfl
  · have hrefused := Bool.eq_false_iff.1 hname
    exact ⟨SymbolTable.insertFunction_of_not_isIdentifier hrefused,
      SymbolTable.insertConstant_of_not_isIdentifier hrefused⟩
  · have hagree : ∀ key, Meets table formula key → table.lookup? key = table'.lookup? key := by
      intro key hkey
      apply h
      rintro rfl
      rw [hkey.isIdentifier] at hname
      cases hname
    exact ⟨tokenize_congr fun key hkey => readName_congr (hagree key hkey), evaluate_congr hagree⟩

/-- The name `größe`, called in `größe(1)`, missing in `1 + größe` and alone, and `a.b`, also where a
table has an entry under it. -/
theorem identifiers_are_the_names_of_formulas_with_umlaut_and_dot :
    let table : SymbolTable (BoundedInt .w64) := SymbolTable.empty
    let entered := (table.insertFunction "größe" (.of fun a : BoundedInt .w64 => a)).1
    tokenize entered "größe(1)" =
      .ok [.function "größe" 1, .opening, .operand .one, .closing] ∧
    tokenize table "1 + größe" = .error (.unexpectedName "größe") ∧
    isIdentifier "größe" = true ∧
    tokenize (table.insertConstant "größe" .one).1 "größe" = .ok [.operand .one] ∧
    tokenize table "größe" = .error (.unexpectedName "größe") ∧
    isIdentifier "a.b" = false ∧
    table.insertConstant "a.b" .one = (table, none) ∧
    ∀ formula, evaluate table formula =
      evaluate { table with constants := table.constants.insert "a.b" .one } formula := by
  intro table entered
  have hcalled : tokenize entered "größe(1)" =
      .ok [.function "größe" 1, .opening, .operand .one, .closing] := by decide +kernel
  have hmissing : tokenize table "1 + größe" = .error (.unexpectedName "größe") := by
    decide +kernel
  have hname : isIdentifier "größe" = true :=
    (identifiers_are_the_names_of_formulas entered "größe").2.1 _ _ 1 hcalled List.mem_cons_self
  obtain ⟨halone, -, hrefused, -, -⟩ := identifiers_are_the_names_of_formulas table "größe"
  obtain ⟨-, -, -, hunnameable, hunseen⟩ := identifiers_are_the_names_of_formulas table "a.b"
  have hdot : isIdentifier "a.b" = false := hunnameable (.dot (by decide))
  obtain ⟨hkept, hagree⟩ := hunseen hdot
  refine ⟨hcalled, hmissing, hrefused _ hmissing, (halone hname).2.1 _, (halone hname).2.2 rfl,
    hdot, (hkept (.of fun a : BoundedInt .w64 => a) _).2, fun formula =>
      (hagree _ (fun key hkey => ?_) formula).2⟩
  simp [SymbolTable.lookup?, SymbolTable.function?, SymbolTable.constant?,
    Std.TreeMap.getElem?_insert, hkey.symm]

end Formula
