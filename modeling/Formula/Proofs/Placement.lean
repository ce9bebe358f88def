import Formula.Expr.Written

/-!
# Where tokens may stand

Whether a token may follow another depends on little: an operand, a function, a prefix operator and
an opening parenthesis stand where an operand is due, and the other tokens behind an operand, where
no operand may begin.  `Place` says which of the two it is, with the two places inside the head of a
call set apart, and `WellPlaced` follows it through a formula.  Nothing is counted and nothing is
matched, yet the tokens that write a tree are well placed (`Written.wellPlaced`).
-/

namespace Formula

variable {α : Type}

/-- What may stand next in a formula. -/
inductive Place where
  /-- An operand has to begin here. -/
  | operandDue
  /-- The parenthesis of a call has to open here. -/
  | callDue
  /-- An argument has to begin here, unless the call has none. -/
  | callOpened
  /-- An operand has ended here. -/
  | operandDone
  deriving DecidableEq, Repr

namespace Place

/-- The place behind a token, `none` if the token may not stand in this place. -/
def next : Place → Token α → Option Place
  | callDue, .opening => some callOpened
  | operandDue, .operand _ | callOpened, .operand _ => some operandDone
  | operandDue, .function _ _ | callOpened, .function _ _ => some callDue
  | operandDue, .prefixOp _ | callOpened, .prefixOp _ => some operandDue
  | operandDue, .opening | callOpened, .opening => some operandDue
  | callOpened, .closing | operandDone, .closing => some operandDone
  | operandDone, .postfixOp _ => some operandDone
  | operandDone, .infixOp _ | operandDone, .comma => some operandDue
  | _, _ => none

/-- The place behind a list of tokens. -/
def after (place : Place) (ts : List (Token α)) : Option Place :=
  ts.foldlM next place

theorem after_append (place : Place) (ts us : List (Token α)) :
    place.after (ts ++ us) = (place.after ts).bind fun q => q.after us :=
  List.foldlM_append

theorem after_cons (place : Place) (t : Token α) (ts : List (Token α)) :
    place.after (t :: ts) = (place.next t).bind fun q => q.after ts :=
  rfl

end Place

/-- Whether every token stands in a place for tokens of its kind, and the formula ends behind an
operand. -/
def WellPlaced (ts : List (Token α)) : Prop :=
  Place.operandDue.after ts = some .operandDone

instance (ts : List (Token α)) : Decidable (WellPlaced ts) :=
  inferInstanceAs (Decidable (_ = _))

open Place

mutual

theorem Written.after_eq {e : Expr α} {s : Nat} {ts : List (Token α)} (h : Written e s ts)
    {place : Place} (hplace : place = operandDue ∨ place = callOpened) :
    place.after ts = some operandDone := by
  match h with
  | .operand a => rcases hplace with rfl | rfl <;> rfl
  | .group h =>
    have hopen : place.next (.opening : Token α) = some operandDue := by
      rcases hplace with rfl | rfl <;> rfl
    rw [List.cons_append, after_cons, hopen, Option.bind_some, after_append,
      h.after_eq (.inl rfl)]
    rfl
  | .callNone name => rcases hplace with rfl | rfl <;> rfl
  | @Written.call _ name args _ hargs =>
    have hname : place.next (.function name args.length : Token α) = some callDue := by
      rcases hplace with rfl | rfl <;> rfl
    have hopen : callDue.next (.opening : Token α) = some callOpened := rfl
    rw [List.cons_append, List.cons_append, after_cons, hname, Option.bind_some, after_cons, hopen,
      Option.bind_some, after_append, hargs.after_eq (.inr rfl)]
    rfl
  | .prefixOp op h hs =>
    have hop : place.next (.prefixOp op : Token α) = some operandDue := by
      rcases hplace with rfl | rfl <;> rfl
    rw [after_cons, hop, Option.bind_some, h.after_eq (.inl rfl)]
  | .postfixOp op h hs =>
    rw [after_append, h.after_eq hplace]
    rfl
  | .infixOp op hl hr hleft hright =>
    have hop : operandDone.next (.infixOp op : Token α) = some operandDue := rfl
    rw [after_append, hl.after_eq hplace, Option.bind_some, after_cons, hop, Option.bind_some,
      hr.after_eq (.inl rfl)]

theorem WrittenArguments.after_eq {es : List (Expr α)} {ts : List (Token α)}
    (h : WrittenArguments es ts) {place : Place}
    (hplace : place = operandDue ∨ place = callOpened) : place.after ts = some operandDone := by
  match h with
  | .last h => exact h.after_eq hplace
  | .cons h hs =>
    have hcomma : operandDone.next (.comma : Token α) = some operandDue := rfl
    rw [after_append, h.after_eq hplace, Option.bind_some, after_cons, hcomma, Option.bind_some,
      hs.after_eq (.inl rfl)]

end

theorem Written.wellPlaced {e : Expr α} {s : Nat} {ts : List (Token α)} (h : Written e s ts) :
    WellPlaced ts :=
  h.after_eq (.inl rfl)

end Formula
