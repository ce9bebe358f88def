import Formula.Failure
import Formula.Lexeme
import Formula.SymbolTable
import Formula.Token

/-!
# Reading tokens from text

`tokenize` reads the lexemes of a text from left to right.  Names are resolved against a symbol
table: a constant becomes its value there and then, a function keeps its name.  What an operator
spelling means depends on whether the token before it ends an operand.
-/

namespace Formula

variable {α : Type} [Number α]

/-- What the reading of a lexeme depends on besides the symbol table. -/
structure ReadingContext where
  /-- The number of bytes before the lexeme. -/
  offset : Nat
  /-- The number of parentheses open before the lexeme. -/
  depth : Nat
  /-- Whether the token before the lexeme ends an operand. -/
  afterOperand : Bool
  deriving DecidableEq, Repr

namespace ReadingContext

/-- The context of the first lexeme of a text. -/
def start : ReadingContext :=
  ⟨0, 0, false⟩

/-- The context after a lexeme that gave no token. -/
def skip (ctx : ReadingContext) (l : Lexeme) : ReadingContext :=
  { ctx with offset := ctx.offset + l.byteSize }

/-- The context after a lexeme that gave the token `t`. -/
def after (ctx : ReadingContext) (l : Lexeme) (t : Token α) : ReadingContext where
  offset := ctx.offset + l.byteSize
  depth :=
    match t with
    | .opening => ctx.depth + 1
    | .closing => ctx.depth - 1
    | _ => ctx.depth
  afterOperand := t.endsOperand

end ReadingContext

/-- The operand that a numeric literal stands for. -/
def readLiteral (cs : List Char) : Except Failure (Token α) :=
  if 1 < cs.count '.' then .error (.severalDots (String.ofList cs))
  else match Number.ofLiteral? cs with
    | some a => .ok (.operand a)
    | none => .error (.invalidLiteral (String.ofList cs))

/-- The function or constant that a name refers to. -/
def readName (table : SymbolTable α) (name : String) : Except Failure (Token α) :=
  match table.lookup? name with
  | some (.function f) => .ok (.function name f.arity)
  | some (.constant a) => .ok (.operand a)
  | none => .error (.unexpectedName name)

/-- The infix operator of a spelling. -/
def readInfix (spelling : String) : Except Failure (Token α) :=
  match InfixOp.ofSpelling? spelling with
  | some op => .ok (.infixOp op)
  | none => .error (.misplacedOperator spelling)

/-- The operator of a spelling: after an operand a postfix one if there is any, elsewhere a prefix
one if there is any, and otherwise the infix one. -/
def readOperator (afterOperand : Bool) (spelling : String) : Except Failure (Token α) :=
  if afterOperand then
    match PostfixOp.ofSpelling? spelling with
    | some op => .ok (.postfixOp op)
    | none => readInfix spelling
  else
    match PrefixOp.ofSpelling? spelling with
    | some op => .ok (.prefixOp op)
    | none => readInfix spelling

/-- The token of a lexeme, or `none` if the lexeme is blank. -/
def Lexeme.token? (table : SymbolTable α) (ctx : ReadingContext) :
    Lexeme → Except Failure (Option (Token α))
  | .blank _ => .ok none
  | .literal cs => some <$> readLiteral cs
  | .word cs => some <$> readName table (String.ofList cs)
  | .opening => .ok (some .opening)
  | .closing =>
    if ctx.depth = 0 then .error (.unopenedParenthesis ctx.offset) else .ok (some .closing)
  | .comma => if ctx.depth = 0 then .error .strayComma else .ok (some .comma)
  | .operator spelling => some <$> readOperator ctx.afterOperand spelling
  | .unknown c => .error (.unexpectedCharacter c ctx.offset)

/-- The tokens of a list of lexemes, the first of which stands in the context `ctx`. -/
def readTokens (table : SymbolTable α) :
    ReadingContext → List Lexeme → Except Failure (List (Token α))
  | _, [] => .ok []
  | ctx, l :: ls => do
    match ← l.token? table ctx with
    | none => readTokens table (ctx.skip l) ls
    | some t => return t :: (← readTokens table (ctx.after l t) ls)

/-- The tokens of a text, in the order in which they are written. -/
def tokenize (table : SymbolTable α) (formula : String) : Except Failure (List (Token α)) :=
  readTokens table .start (lexemes formula.toList)

end Formula
