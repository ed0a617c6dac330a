import TreeScript.Arithmetic
import TreeScript.Node.Dump
import TreeScript.Run

/-!
# Evaluation

`evalNode` evaluates a node in a scope, by recursion on the node.  It does not enter the bodies of
declared functions by itself: how a closure is called is a parameter.  `callClosure` supplies it, by
recursion on a budget of nested calls, and each nested call costs one.  Under a limit on the call
depth the budget `Policy.callBudget` is never used up, because the call that would exceed the limit
fails first.

Arguments are evaluated before the callee, both from left to right.  Natives get the scope of the
call; a declared function runs in a fresh scope inside the scope of its declaration.
-/

namespace TreeScript

/-- What an evaluation is carried out under. -/
structure Config where
  policy : Policy
  host : Host

/-- How a closure is called: with arguments, at a span. -/
abbrev Caller := Closure → List Value → Span → Run Value

/-- The property of an object. -/
def Value.member (subject : Value) (key : String) : Except Fault Value :=
  match subject with
  | .object properties =>
    match Value.property? properties key with
    | some value => .ok value
    | none => .error (.undefinedProperty key)
  | other => .error (.notAnObject other.typeName)

/-- Which branch a condition selects. -/
def Value.condition (value : Value) : Except Fault Bool :=
  match value with
  | .bool b => .ok b
  | other => .error (.nonBooleanCondition other.typeName)

/-- The name that a node stands for as the target of an assignment. -/
def Node.assignable : Node → Except Fault String
  | .identifier name _ => .ok name
  | other => .error (.invalidAssignmentTarget other.kind.name)

/-- Binds a name in a scope, and yields the value bound. -/
def declareIn (scope : ScopeId) (name : String) (value : Value) (mutability : Mutability) :
    Run Value := do
  Run.update fun store => store.declare scope name value mutability
  return value

/-- Assigns to a name as seen from a scope, and yields the value assigned. -/
def assignIn (scope : ScopeId) (name : String) (value : Value) : Run Value := do
  Run.update fun store => store.assign scope name value
  return value

/-- Calls a value made from a node of a scope. -/
def applyValue (config : Config) (call : Caller) (scope : ScopeId) (callee : Value)
    (arguments : List Value) (span : Span) : Run Value :=
  match callee with
  | .native native => Run.act (config.host.call native arguments scope)
  | .function closure => call closure arguments span
  | other => Run.ofExcept (.error (.notCallable other.typeName))

mutual

/-- Evaluates a node in a scope.  A failure leaves with the span of the innermost node that has
one. -/
def evalNode (config : Config) (call : Caller) (scope : ScopeId) : Node → Run Value
  | .program body span => Run.located span (evalBlock config call scope .null body)
  | .declaration constant name value span => Run.located span do
    let value ← evalOption config call scope value
    declareIn scope name value (.ofConstant constant)
  | .function name parameters body span => Run.located span do
    declareIn scope name
      (.function ⟨name, parameters, body, config.host.bodyOf scope name, scope⟩) .constant
  | .assignment target value span => Run.located span do
    let name ← Run.located target.span (Run.ofExcept target.assignable)
    let value ← evalNode config call scope value
    assignIn scope name value
  | .binary left right op span => Run.located span do
    let left ← evalNode config call scope left
    let right ← evalNode config call scope right
    Run.ofExcept (op.apply config.policy left right)
  | .comparison left right op span => Run.located span do
    let left ← evalNode config call scope left
    let right ← evalNode config call scope right
    Run.ofExcept (op.apply left right)
  | .call callee arguments span => Run.located span do
    let arguments ← evalAll config call scope arguments
    let callee ← evalNode config call scope callee
    applyValue config call scope callee arguments span
  | .member subject key span => Run.located span do
    let subject ← evalNode config call scope subject
    Run.ofExcept (subject.member key)
  | .conditional condition consequent alternative span => Run.located span do
    let value ← evalNode config call scope condition
    let taken ← Run.located condition.span (Run.ofExcept value.condition)
    if taken then evalBlock config call scope .null consequent
    else evalBranch config call scope alternative
  | .identifier name span => Run.located span (Run.query fun store => store.lookup scope name)
  | .number value _ => return .number value
  | .string value _ => return .string value
  | .object entries span => Run.located span do
    let entries ← evalEntries config call scope entries
    return .ofEntries entries
  | .property entry span => Run.located span
    (Run.ofExcept
      (.error (.unimplementedNode Node.Kind.property.name (Node.property entry span).dump)))

/-- Evaluates statements in order; the value is that of the last one, or `last` if there is none. -/
def evalBlock (config : Config) (call : Caller) (scope : ScopeId) (last : Value) :
    List Node → Run Value
  | [] => return last
  | node :: nodes => do
    let value ← evalNode config call scope node
    evalBlock config call scope value nodes

/-- Evaluates a node that may be absent; an absent one is null. -/
def evalOption (config : Config) (call : Caller) (scope : ScopeId) : Option Node → Run Value
  | none => return .null
  | some node => evalNode config call scope node

/-- Evaluates a branch that may be absent; an absent one is null. -/
def evalBranch (config : Config) (call : Caller) (scope : ScopeId) : Option (List Node) → Run Value
  | none => return .null
  | some body => evalBlock config call scope .null body

/-- Evaluates nodes from left to right. -/
def evalAll (config : Config) (call : Caller) (scope : ScopeId) : List Node → Run (List Value)
  | [] => return []
  | node :: nodes => do
    let value ← evalNode config call scope node
    let values ← evalAll config call scope nodes
    return value :: values

/-- Evaluates the entries of an object literal from left to right.  An entry without a value reads
the variable of its key. -/
def evalEntries (config : Config) (call : Caller) (scope : ScopeId) :
    List (Entry Node) → Run (List (String × Value))
  | [] => return []
  | ⟨key, none⟩ :: entries => do
    let value ← Run.query fun store => store.lookup scope key
    let rest ← evalEntries config call scope entries
    return (key, value) :: rest
  | ⟨key, some node⟩ :: entries => do
    let value ← evalNode config call scope node
    let rest ← evalEntries config call scope entries
    return (key, value) :: rest

end

/-- Declares parameters in a scope, in order, each with the argument at its place or null. -/
def bindParameters (scope : ScopeId) : List String → List Value → Run Unit
  | [], _ => return ()
  | name :: names, [] => do
    let _ ← declareIn scope name .null .mutable
    bindParameters scope names []
  | name :: names, value :: values => do
    let _ ← declareIn scope name value .mutable
    bindParameters scope names values

/-- Calls a closure whose body is run by `body` in the scope of the call.  A wrong number of
arguments is found first, then a repeated parameter, then a stack that is full. -/
def enterClosure (policy : Policy) (closure : Closure) (arguments : List Value) (span : Span)
    (body : ScopeId → Run Value) : Run Value := do
  if policy.arity = .strict ∧ closure.parameters.length ≠ arguments.length then
    Run.ofExcept
      (.error (.arityMismatch closure.name closure.parameters.length arguments.length))
  else
    let scope ← Run.newScope (some closure.scope)
    bindParameters scope closure.parameters arguments
    Run.located span (Run.pushFrame policy.maxCallDepth (Frame.ofCall closure.name span))
    Run.framed (body scope)

/-- Calls a closure with a budget of nested calls, this one included. -/
def callClosure (config : Config) : Nat → Caller
  | 0 => fun _ _ _ => Run.exhausted
  | budget + 1 => fun closure arguments span =>
    enterClosure config.policy closure arguments span fun scope =>
      Run.spread (evalBlock config (callClosure config budget) scope .null closure.body)

/-- Evaluates a node in a scope with a budget of nested calls. -/
def evaluateWithin (config : Config) (budget : Nat) (scope : ScopeId) (node : Node) : Run Value :=
  evalNode config (callClosure config budget) scope node

/-- A budget of nested calls that suffices: one more than the limit, and without a limit more than
any machine can hold. -/
def Policy.callBudget (policy : Policy) : Nat :=
  match policy.maxCallDepth with
  | some limit => limit + 1
  | none => Nat.pow 2 62

/-- Evaluates a node in a scope. -/
def evaluate (config : Config) (scope : ScopeId) (node : Node) : Run Value :=
  evaluateWithin config config.policy.callBudget scope node

/-- Calls a value that the host holds, in a scope. -/
def callValue (config : Config) (scope : ScopeId) (callee : Value) (arguments : List Value)
    (span : Span) : Run Value :=
  applyValue config (callClosure config config.policy.callBudget) scope callee arguments span

end TreeScript
