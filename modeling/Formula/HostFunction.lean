/-!
# Host functions

A function that formulas may call, with a fixed number of arguments.  It fails with a message of its
own.  `HostFunction.of` reads the number of arguments off the type of a Lean function.
-/

namespace Formula

/-- A function of `arity` arguments.  `body` is only meant for lists of that length;
`HostFunction.apply` sees to it. -/
structure HostFunction (α : Type) where
  arity : Nat
  body : List α → Except String α

namespace HostFunction

/-- The complaint about `got` arguments where there should be `arity`. -/
def wrongCount (arity got : Nat) : String :=
  s!"Expected {arity} arguments, but got {got}"

/-- The value of a function on a list of arguments, refused if it has the wrong length. -/
def apply {α : Type} (f : HostFunction α) (args : List α) : Except String α :=
  if args.length = f.arity then f.body args
  else .error (wrongCount f.arity args.length)

end HostFunction

/-- Types of functions that take a fixed number of arguments from `α` and give a value in `α`, or
fail with a message. -/
class HostBody (α φ : Type) where
  arity : Nat
  /-- The value on a list of arguments, `none` if their number is not the arity. -/
  call? : φ → List α → Option (Except String α)

instance HostBody.value {α : Type} : HostBody α α where
  arity := 0
  call? a
    | [] => some (.ok a)
    | _ :: _ => none

instance HostBody.fallible {α : Type} : HostBody α (Except String α) where
  arity := 0
  call? r
    | [] => some r
    | _ :: _ => none

instance HostBody.curried {α φ : Type} [HostBody α φ] : HostBody α (α → φ) where
  arity := HostBody.arity α φ + 1
  call? f
    | [] => none
    | a :: args => HostBody.call? (f a) args

/-- The host function that a Lean function gives. -/
def HostFunction.of {α φ : Type} [HostBody α φ] (f : φ) : HostFunction α where
  arity := HostBody.arity α φ
  body args := (HostBody.call? f args).getD (.error (wrongCount (HostBody.arity α φ) args.length))

end Formula
