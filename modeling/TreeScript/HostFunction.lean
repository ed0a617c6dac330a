import TreeScript.Value.Text
import TreeScript.World

/-!
# Functions of the host

The two functions that every global scope offers, `print` and `time`, and a stock of small ones that
a host may install: they count, pick or report their arguments, or look up and declare names in the
scope of the call.  Only `HostFunction.declare` changes a scope, only `HostFunction.print` prints,
and only `HostFunction.time` reads the clock.
-/

namespace TreeScript

namespace HostFunction

/-- Prints its arguments on one line, and yields null. -/
def print (sink : Sink) : HostFunction := fun arguments _ world =>
  let line := Value.printLine arguments ++ "\n"
  (.ok .null, { world with output := world.output.write line sink })

/-- Yields what the clock shows. -/
def time : HostFunction := fun _ _ world =>
  (.ok (.number world.clock.now), { world with clock := world.clock.tick })

/-- Yields null. -/
def ignore : HostFunction := fun _ _ world => (.ok .null, world)

/-- Yields the number of its arguments. -/
def count : HostFunction := fun arguments _ world =>
  (.ok (.number (Float.ofNat arguments.length)), world)

/-- Yields its first argument, or null. -/
def first : HostFunction := fun arguments _ world => (.ok (arguments.headD .null), world)

/-- The name that the first argument gives: its text if it is a string, else the empty name. -/
def nameArgument : List Value → String
  | .string name :: _ => name
  | _ => ""

/-- Yields the value of the name it is given, as seen from the scope of the call. -/
def lookup : HostFunction := fun arguments scope world =>
  match world.store.lookup scope (nameArgument arguments) with
  | .ok value => (.ok value, world)
  | .error fault => (.error { fault := fault }, world)

/-- Declares the name it is given in the scope of the call, with its second argument or null. -/
def declare : HostFunction := fun arguments scope world =>
  let value := arguments.getD 1 .null
  match world.store.declare scope (nameArgument arguments) value .mutable with
  | .ok store => (.ok value, { world with store := store })
  | .error fault => (.error { fault := fault }, world)

/-- Fails, in the words its arguments print. -/
def fail : HostFunction := fun arguments _ world =>
  (.error { fault := .native (Value.printLine arguments) }, world)

end HostFunction

end TreeScript
