/-!
# Policies

The language leaves a few behaviours to the host: what an operator does with operands of different
kinds, whether calls count their arguments, what division by zero yields, and how deep calls may
nest.  A policy fixes each of them.
-/

namespace TreeScript

/-- What an arithmetic operator does with operands that are not two numbers or two strings. -/
inductive MixedOperands where
  /-- The result is null. -/
  | nullFallback
  /-- The operation fails. -/
  | strict
deriving DecidableEq, Repr, Inhabited

/-- What a call does when the number of arguments is not the number of parameters. -/
inductive Arity where
  /-- The call fails. -/
  | strict
  /-- Parameters without an argument are null, and surplus arguments are dropped. -/
  | lenient
deriving DecidableEq, Repr, Inhabited

/-- What dividing a number by zero does. -/
inductive ZeroDivision where
  /-- The operation fails. -/
  | error
  /-- The result is infinite or not a number, as for doubles. -/
  | ieee
deriving DecidableEq, Repr, Inhabited

/-- A policy. -/
structure Policy where
  mixedOperands : MixedOperands
  arity : Arity
  zeroDivision : ZeroDivision
  /-- How many calls may be live at once; none for any number. -/
  maxCallDepth : Option Nat
deriving DecidableEq, Repr, Inhabited

namespace Policy

/-- The call depth of the presets. -/
def defaultCallDepth : Nat := 10000

/-- Mixed operands give null; the rest fails fast. -/
def default : Policy := ⟨.nullFallback, .strict, .error, some defaultCallDepth⟩

/-- Nothing fails that can be given a value. -/
def permissive : Policy := ⟨.nullFallback, .lenient, .ieee, some defaultCallDepth⟩

/-- Everything fails fast. -/
def strict : Policy := ⟨.strict, .strict, .error, some defaultCallDepth⟩

end Policy

end TreeScript
