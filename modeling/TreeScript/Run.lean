import TreeScript.CallStack
import TreeScript.World

/-!
# Computations of the evaluator

A computation takes the state of a run, the world and the live calls, and ends with a value or a
failure and a new state; or it ends with nothing, when it needed more nested calls than its budget
admits.  A failure keeps the state it was raised in and skips the rest.

`Run.located` gives a failure that passes through a node its place, and `Run.framed` surrounds the
body of a call: it leaves the live calls in a failure and takes the call off the stack in any case.
-/

namespace TreeScript

/-- The state of a run. -/
structure State where
  world : World
  stack : CallStack
deriving Inhabited

/-- A computation: none if the budget of nested calls ran out. -/
def Run (α : Type) : Type := State → Option (Except Failure α × State)

namespace Run

variable {α β : Type}

/-- Yields a value and leaves the state alone. -/
@[inline] protected def pure (a : α) : Run α := fun s => some (.ok a, s)

/-- Runs `x` and then, unless it failed, what `f` makes of its value. -/
@[inline] protected def bind (x : Run α) (f : α → Run β) : Run β := fun s =>
  match x s with
  | none => none
  | some (.error e, s) => some (.error e, s)
  | some (.ok a, s) => f a s

instance : Monad Run where
  pure := Run.pure
  bind := Run.bind

/-- Needs more nested calls than there are. -/
def exhausted : Run α := fun _ => none

/-- Yields a value or fails with a fault. -/
def ofExcept (result : Except Fault α) : Run α := fun s =>
  match result with
  | .ok a => some (.ok a, s)
  | .error fault => some (.error { fault := fault }, s)

/-- Asks the store. -/
@[inline] def query (question : Store → Except Fault α) : Run α := fun s =>
  match question s.world.store with
  | .ok a => some (.ok a, s)
  | .error fault => some (.error { fault := fault }, s)

/-- Changes the store, unless that is refused. -/
@[inline] def update (change : Store → Except Fault Store) : Run Unit :=
  fun ⟨⟨store, output, clock⟩, stack⟩ =>
    match change store with
    | .ok store => some (.ok (), ⟨⟨store, output, clock⟩, stack⟩)
    | .error fault => some (.error { fault := fault }, ⟨⟨store, output, clock⟩, stack⟩)

/-- Acts on the world. -/
def act (action : World → Except Failure α × World) : Run α := fun ⟨world, stack⟩ =>
  match action world with
  | (result, world) => some (result, ⟨world, stack⟩)

/-- Creates a scope. -/
def newScope (parent : Option ScopeId) : Run ScopeId := fun ⟨⟨store, output, clock⟩, stack⟩ =>
  match store.newScope parent with
  | (id, store) => some (.ok id, ⟨⟨store, output, clock⟩, stack⟩)

/-- Puts a call on the stack. -/
@[inline] def pushFrame (limit : Option Nat) (frame : Frame) : Run Unit := fun ⟨world, stack⟩ =>
  match stack.push limit frame with
  | .ok stack => some (.ok (), ⟨world, stack⟩)
  | .error fault => some (.error { fault := fault }, ⟨world, stack⟩)

/-- Gives a failure of `x` the location `span`, unless it has one. -/
@[inline] def located (span : Span) (x : Run α) : Run α := fun s =>
  match x s with
  | some (.error failure, s) => some (.error (failure.orSpan span), s)
  | done => done

/-- Runs the body of the latest call on the stack, and takes the call off again. -/
def framed (body : Run α) : Run α := fun s =>
  match body s with
  | none => none
  | some (.ok a, ⟨world, stack⟩) => some (.ok a, ⟨world, stack.pop⟩)
  | some (.error failure, ⟨world, stack⟩) =>
    some (.error (stack.attachBacktrace failure), ⟨world, stack.pop⟩)

/-- The value of `f`, computed by a thread with a stack of its own. -/
def onFreshStack (f : Unit → α) : α := (Task.spawn f .dedicated).get

@[simp] theorem onFreshStack_eq (f : Unit → α) : onFreshStack f = f () := rfl

/-- How many nested calls share a stack of the machine. -/
def callsPerStack : Nat := 256

/-- The computation `x`, run by a thread of its own whenever the live calls have filled a stack of
the machine.  Deep recursion of a script spreads over many stacks this way, and the result is that
of `x`. -/
def spread (x : Run α) : Run α := fun s =>
  if s.stack.depth % callsPerStack = 0 then onFreshStack fun _ => x s else x s

@[simp] theorem spread_eq (x : Run α) : x.spread = x := by
  funext s; simp [spread]

end Run

end TreeScript
