import Formula.Evaluation
import Formula.Proofs.Widening.Functions
import Formula.Proofs.Widening.Operators

/-!
# Formulas in a wider number type

Each phase of the evaluation follows: the reading, because literals and constants are mapped and
everything else is read in the same way; the reordering, which never looks at a number; and the
stack machine, one token at a time.  So a formula of 32-bit integers that has a value has the same
one among 64-bit integers, and other failures than for lack of room stay as they are
(`evaluate_widen`).
-/

namespace Formula

variable {α β : Type} {f : α → β}

/-- The same token of another number type. -/
def Token.map (f : α → β) : Token α → Token β
  | operand a => operand (f a)
  | function name arity => function name arity
  | infixOp op => infixOp op
  | prefixOp op => prefixOp op
  | postfixOp op => postfixOp op
  | opening => opening
  | closing => closing
  | comma => comma

/-! ## Reordering -/

namespace Reordering

/-- The same state of the reordering in another number type. -/
def map (f : α → β) (s : Reordering α) : Reordering β where
  output := s.output.map (Token.map f)
  held := s.held
  parentheses := s.parentheses
  awaited := s.awaited

theorem map_noteContent (s : Reordering α) : s.noteContent.map f = (s.map f).noteContent := by
  obtain ⟨output, held, parentheses, awaited⟩ := s
  cases parentheses <;> rfl

theorem map_emit (s : Reordering α) (t : Token α) : (s.emit t).map f = (s.map f).emit (t.map f) :=
  rfl

theorem map_hold (s : Reordering α) (h : Held) : (s.hold h).map f = (s.map f).hold h :=
  rfl

theorem map_release (s : Reordering α) (p : Held → Bool) :
    (s.release p).map f = (s.map f).release p := by
  have htoken : ∀ h : Held, (h.token? : Option (Token α)).map (Token.map f) = h.token? := by
    intro h
    cases h <;> rfl
  simp only [release, map, List.map_append, List.map_reverse, List.map_filterMap, htoken]

theorem follows_closeParenthesis (s : Reordering α) :
    Follows (Reordering.map f) s.closeParenthesis (s.map f).closeParenthesis := by
  unfold closeParenthesis
  rw [← map_release]
  generalize s.release Held.isOperator = s
  obtain ⟨output, held, parentheses, awaited⟩ := s
  dsimp only [map]
  split
  · split
    · exact .ok _
    · split
      · exact .error _
      split
      · exact .error _
      · exact .ok _
  · exact .error _

theorem follows_nextArgument (s : Reordering α) :
    Follows (Reordering.map f) s.nextArgument (s.map f).nextArgument := by
  unfold nextArgument
  rw [← map_release]
  generalize s.release Held.isOperator = s
  obtain ⟨output, held, parentheses, awaited⟩ := s
  dsimp only [map]
  split
  · split
    · exact .error _
    · split
      · exact .error _
      · exact .ok _
  · exact .error _

theorem follows_push (s : Reordering α) (t : Token α) :
    Follows (Reordering.map f) (s.push t) ((s.map f).push (t.map f)) := by
  have hawaited : (s.map f).awaited = s.awaited := rfl
  unfold push
  rw [hawaited]
  cases s.awaited with
  | some call =>
    cases t with
    | opening => exact .ok (s.openParenthesis (some call))
    | operand _ | function _ _ | infixOp _ | prefixOp _ | postfixOp _ | closing | comma =>
      exact .error _
  | none =>
    cases t with
    | operand a => exact follows_ok (by rw [map_emit, map_noteContent, Token.map])
    | function name arity => exact follows_ok (by rw [← map_noteContent]; rfl)
    | prefixOp op => exact follows_ok (by rw [map_hold, map_noteContent])
    | postfixOp op =>
      have houtput : (s.map f).output.isEmpty = s.output.isEmpty := List.isEmpty_map
      dsimp only [Token.map]
      rw [houtput]
      split
      · exact .error _
      · exact follows_ok (by rw [map_emit, map_noteContent, Token.map])
    | infixOp op => exact follows_ok (by rw [map_hold, map_release, map_noteContent])
    | opening => exact follows_ok (by rw [← map_noteContent]; rfl)
    | closing => exact s.follows_closeParenthesis
    | comma => exact s.follows_nextArgument

theorem follows_result (s : Reordering α) :
    Follows (List.map (Token.map f)) s.result (s.map f).result := by
  have hawaited : (s.map f).awaited = s.awaited := rfl
  unfold result
  rw [hawaited, ← map_release]
  cases s.awaited with
  | some call => exact .error _
  | none =>
    dsimp only [map]
    split
    · exact follows_ok List.map_reverse
    · exact .error _

end Reordering

theorem follows_toPostfix (ts : List (Token α)) :
    Follows (List.map (Token.map f)) (toPostfix ts) (toPostfix (ts.map (Token.map f))) := by
  have hfold : ∀ s : Reordering α, Follows (Reordering.map f) (ts.foldlM Reordering.push s)
      ((ts.map (Token.map f)).foldlM Reordering.push (s.map f)) := by
    induction ts with
    | nil => exact fun s => .ok s
    | cons t ts ih =>
      intro s
      rw [List.map_cons, List.foldlM_cons, List.foldlM_cons]
      exact (s.follows_push t).bind ih
  exact (hfold {}).bind Reordering.follows_result

/-! ## Reading -/

theorem follows_readInfix (spelling : String) :
    Follows (Token.map f) (readInfix spelling) (readInfix spelling) := by
  unfold readInfix
  split
  · exact .ok _
  · exact .error _

theorem follows_readOperator (afterOperand : Bool) (spelling : String) :
    Follows (Token.map f) (readOperator afterOperand spelling)
      (readOperator afterOperand spelling) := by
  unfold readOperator
  split
  · split
    · exact .ok _
    · exact follows_readInfix spelling
  · split
    · exact .ok _
    · exact follows_readInfix spelling

theorem ReadingContext.after_map (ctx : ReadingContext) (l : Lexeme) (t : Token α) :
    ctx.after l (t.map f) = ctx.after l t := by
  cases t <;> rfl

section Reading

variable [Number α] [Number β] {table : SymbolTable α} {table' : SymbolTable β}

theorem Widening.follows_readLiteral (hf : Widening f) (cs : List Char) :
    Follows (Token.map f) (readLiteral cs) (readLiteral cs) := by
  unfold readLiteral
  split
  · exact .error _
  · cases h : (Number.ofLiteral? cs : Option α) with
    | none => exact .avoidable (.inr (.inl rfl)) _
    | some a =>
      rw [hf.ofLiteral? cs a h]
      exact .ok _

omit [Number α] [Number β] in
theorem follows_readName (ht : table.Follows f table') (name : String) :
    Follows (Token.map f) (readName table name) (readName table' name) := by
  have hrel := ht.function?_rel name
  unfold readName SymbolTable.lookup?
  rw [ht.constant?_map]
  generalize table.function? name = k?, table'.function? name = k'? at hrel
  cases hrel with
  | some hk => exact follows_ok (by rw [Token.map, hk.arity_eq])
  | none =>
    cases table.constant? name with
    | none => exact .error _
    | some a => exact .ok _

theorem follows_token? (hf : Widening f) (ht : table.Follows f table') (ctx : ReadingContext)
    (l : Lexeme) :
    Follows (Option.map (Token.map f)) (l.token? table ctx) (l.token? table' ctx) := by
  cases l with
  | blank c => exact .ok none
  | literal cs => exact (hf.follows_readLiteral cs).map_some
  | word cs => exact (follows_readName ht _).map_some
  | opening => exact .ok (some Token.opening)
  | operator spelling => exact (follows_readOperator ctx.afterOperand spelling).map_some
  | unknown c => exact .error _
  | closing | comma =>
    unfold Lexeme.token?
    dsimp only
    split
    · exact .error _
    · exact .ok (some _)

theorem follows_readTokens (hf : Widening f) (ht : table.Follows f table') (ctx : ReadingContext)
    (ls : List Lexeme) :
    Follows (List.map (Token.map f)) (readTokens table ctx ls) (readTokens table' ctx ls) := by
  induction ls generalizing ctx with
  | nil => exact .ok []
  | cons l ls ih =>
    rw [readTokens, readTokens]
    refine (follows_token? hf ht ctx l).bind fun t? => ?_
    cases t? with
    | none => exact ih _
    | some t =>
      dsimp only [Option.map]
      rw [ReadingContext.after_map]
      exact (ih _).bind fun ts => .ok (t :: ts)

theorem follows_parse (hf : Widening f) (ht : table.Follows f table') (formula : String) :
    Follows (List.map (Token.map f)) (parse table formula) (parse table' formula) :=
  (follows_readTokens hf ht .start _).bind follows_toPostfix

end Reading

/-! ## Running -/

section Running

variable {table : SymbolTable α} {table' : SymbolTable β}

theorem follows_call {k : HostFunction α} {k' : HostFunction β} (h : k.Follows f k')
    (name : String) (args : List α) :
    Follows f (k.call name args) (k'.call name (args.map f)) := by
  have hfailed : ∀ {message}, (Failure.functionFailed name message).IsAvoidable :=
    .inr (.inr rfl)
  unfold HostFunction.call HostFunction.apply
  rw [List.length_map, h.arity_eq]
  by_cases hlength : args.length = k.arity
  · rw [if_pos hlength, if_pos hlength]
    cases hbody : k.body args with
    | error message => exact .avoidable hfailed _
    | ok a =>
      rw [h.body_map args a hbody]
      exact .ok a
  · rw [if_neg hlength]
    exact .avoidable hfailed _

theorem follows_callFunction (ht : table.Follows f table') (name : String) (arity : Nat)
    (stack : List α) :
    Follows (List.map f) (callFunction table name arity stack)
      (callFunction table' name arity (stack.map f)) := by
  have hrel := ht.function?_rel name
  unfold callFunction callee
  generalize table.function? name = k?, table'.function? name = k'? at hrel
  cases hrel with
  | none => exact .error _
  | some hk =>
    dsimp only
    rw [hk.arity_eq, List.length_map, ← List.map_take, ← List.map_drop, ← List.map_reverse]
    split
    · split
      · exact .error _
      · exact (follows_call hk name _).bind fun a => .ok (a :: stack.drop arity)
    · exact .error _

variable [Number α] [Number β]

theorem follows_step (hf : Widening f) (ht : table.Follows f table') (stack : List α)
    (t : Token α) :
    Follows (List.map f) (step table stack t) (step table' (stack.map f) (t.map f)) := by
  cases t with
  | operand a => exact .ok (a :: stack)
  | function name arity => exact follows_callFunction ht name arity stack
  | infixOp op =>
    rcases stack with _ | ⟨rhs, _ | ⟨lhs, stack⟩⟩
    · exact .error _
    · exact .error _
    · exact (hf.follows_infixApply op lhs rhs).bind fun a => .ok (a :: stack)
  | prefixOp op =>
    rcases stack with _ | ⟨a, stack⟩
    · exact .error _
    · exact (hf.follows_prefixApply op a).bind fun a => .ok (a :: stack)
  | postfixOp op =>
    rcases stack with _ | ⟨a, stack⟩
    · exact .error _
    · exact (hf.follows_postfixApply op a).bind fun a => .ok (a :: stack)
  | opening | closing | comma => exact .error _

theorem follows_run (hf : Widening f) (ht : table.Follows f table') (stack : List α)
    (ts : List (Token α)) :
    Follows (List.map f) (run table stack ts)
      (run table' (stack.map f) (ts.map (Token.map f))) := by
  induction ts generalizing stack with
  | nil => exact .ok stack
  | cons t ts ih =>
    rw [run, run, List.map_cons, List.foldlM_cons, List.foldlM_cons]
    exact (follows_step hf ht stack t).bind ih

theorem follows_execute (hf : Widening f) (ht : table.Follows f table') (ts : List (Token α)) :
    Follows f (execute table ts) (execute table' (ts.map (Token.map f))) := by
  refine (follows_run hf ht [] ts).bind fun stack => ?_
  rcases stack with _ | ⟨a, _ | ⟨b, stack⟩⟩
  · exact .error _
  · exact .ok a
  · change Follows f (.error (.unbalanced (stack.length + 2)))
      (.error (.unbalanced ((stack.map f).length + 2)))
    rw [List.length_map]
    exact .error _

theorem follows_evaluate (hf : Widening f) (ht : table.Follows f table') (formula : String) :
    Follows f (evaluate table formula) (evaluate table' formula) :=
  (follows_parse hf ht formula).bind (follows_execute hf ht)

end Running

/-! ## Integers -/

namespace BoundedInt

/-- The integer library, with constants entered before and after it. -/
def libraryWith {w : Width} (before after : List (String × BoundedInt w)) :
    SymbolTable (BoundedInt w) :=
  Library.addConstants (Library.addBasic (Library.addConstants .empty before)) after

/-- Constants of 32 bits as constants of 64 bits. -/
def widenConstants (constants : List (String × BoundedInt .w32)) :
    List (String × BoundedInt .w64) :=
  constants.map fun c => (c.1, c.2.widen)

theorem libraryWith_follows (before after : List (String × BoundedInt .w32)) :
    (libraryWith before after).Follows widen
      (libraryWith (widenConstants before) (widenConstants after)) :=
  ((SymbolTable.follows_empty.addConstants before).addFunctions
    widening.basicFunctions_follow).addConstants after

/-- With the integer library and the same constants, a formula that has a value among 32-bit
integers has this value among 64-bit integers, and one that fails fails for the same reason unless a
value was too large, a literal was refused or a function failed. -/
theorem evaluate_widen (before after : List (String × BoundedInt .w32)) (formula : String) :
    (∀ v, evaluate (libraryWith before after) formula = .ok v →
      evaluate (libraryWith (widenConstants before) (widenConstants after)) formula =
        .ok v.widen) ∧
    ∀ e, evaluate (libraryWith before after) formula = .error e →
      e.kind ≠ .overflow → e.kind ≠ .invalidLiteral → e.kind ≠ .functionFailed →
        evaluate (libraryWith (widenConstants before) (widenConstants after)) formula =
          .error e := by
  have hfollows := follows_evaluate widening (libraryWith_follows before after) formula
  refine ⟨fun v hv => hfollows.ok_of_eq_ok hv, fun e he hoverflow hliteral hfunction => ?_⟩
  refine hfollows.error_of_eq_error he ?_
  rintro (h | h | h)
  · exact hoverflow h
  · exact hliteral h
  · exact hfunction h

/-- With 4 called `x`, 32-bit integers give `gcd(x, 6) ** 3 - ~x` the value 13 and refuse to divide
by `x - 4`, and so do those of 64 bits. -/
theorem evaluate_widen_gcd_and_division :
    evaluate (libraryWith [] [("x", (⟨4, by decide, by decide⟩ : BoundedInt .w32))])
        "gcd(x, 6) ** 3 - ~x" = .ok ⟨13, by decide, by decide⟩ ∧
      evaluate (libraryWith [] (widenConstants [("x", ⟨4, by decide, by decide⟩)]))
        "gcd(x, 6) ** 3 - ~x" = .ok ⟨13, by decide, by decide⟩ ∧
      evaluate (libraryWith [] [("x", (⟨4, by decide, by decide⟩ : BoundedInt .w32))])
        "5! / (x - 4)" = .error .divisionByZero ∧
      evaluate (libraryWith [] (widenConstants [("x", ⟨4, by decide, by decide⟩)]))
        "5! / (x - 4)" = .error .divisionByZero := by
  have hvalue : evaluate (libraryWith [] [("x", (⟨4, by decide, by decide⟩ : BoundedInt .w32))])
      "gcd(x, 6) ** 3 - ~x" = .ok ⟨13, by decide, by decide⟩ := by decide +kernel
  have herror : evaluate (libraryWith [] [("x", (⟨4, by decide, by decide⟩ : BoundedInt .w32))])
      "5! / (x - 4)" = .error .divisionByZero := by decide +kernel
  obtain ⟨hwide, -⟩ :=
    evaluate_widen [] [("x", ⟨4, by decide, by decide⟩)] "gcd(x, 6) ** 3 - ~x"
  obtain ⟨-, hwide'⟩ := evaluate_widen [] [("x", ⟨4, by decide, by decide⟩)] "5! / (x - 4)"
  exact ⟨hvalue, hwide _ hvalue, herror, hwide' _ herror nofun nofun nofun⟩

end BoundedInt

end Formula
