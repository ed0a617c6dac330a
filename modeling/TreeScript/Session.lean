import TreeScript.Eval
import TreeScript.HostFunction

/-!
# Sessions

A session is a host with an evaluator: a policy, the functions it offers, and the state that its
evaluations leave behind.  Every global scope is made afresh and binds, as constants, the names of
the literals and its own `print` and `time`.

`Session.evaluate` evaluates under the session's policy and call stack.  `Session.evaluateApart`
does so under the default policy and an empty stack of its own, on the same scopes.
-/

namespace TreeScript

/-- A host with an evaluator. -/
structure Session where
  policy : Policy
  /-- Where the session's own `print` writes. -/
  sink : Sink
  host : Host
  state : State

namespace Session

/-- A session that has done nothing yet. -/
def start (policy : Policy) (sink : Sink) (clock : Clock) : Session :=
  { policy, sink, host := .empty, state := ⟨.empty clock, .empty⟩ }

/-- What evaluations are carried out under. -/
def config (session : Session) : Config := ⟨session.policy, session.host⟩

/-- The scopes of the session. -/
def store (session : Session) : Store := session.state.world.store

/-- The session with other scopes. -/
def withStore (session : Session) (store : Store) : Session :=
  { session with
    state := { session.state with world := { session.state.world with store := store } } }

/-- What has been printed to the session's sink, as far as the host can read it back. -/
def printed (session : Session) : String :=
  match session.sink with
  | .buffer => session.state.world.output.buffer
  | .console => ""

/-- The session with nothing in its buffer. -/
def clear (session : Session) : Session :=
  match session.sink with
  | .buffer =>
    { session with
      state :=
        { session.state with
          world :=
            { session.state.world with
              output := { session.state.world.output with buffer := "" } } } }
  | .console => session

/-- The number of live calls. -/
def depth (session : Session) : Nat := session.state.stack.depth

/-! ## Scopes -/

/-- A scope inside `parent`, or on its own. -/
def newScope (session : Session) (parent : Option ScopeId) : ScopeId × Session :=
  let (id, store) := session.store.newScope parent
  (id, session.withStore store)

/-- The bindings of a global scope. -/
def globalBindings (print time : Native) : List Binding :=
  [⟨"true", .bool true, .constant⟩, ⟨"false", .bool false, .constant⟩, ⟨"null", .null, .constant⟩,
    ⟨"print", .native print, .constant⟩, ⟨"time", .native time, .constant⟩]

/-- A global scope whose `print` writes to `sink`. -/
def newGlobals (session : Session) (sink : Sink) : ScopeId × Session :=
  let (print, host) := session.host.install "print" (.print sink)
  let (time, host) := host.install "time" .time
  let id := session.store.scopes.size
  let store := ⟨session.store.scopes.push ⟨globalBindings print time, none⟩⟩
  (id, { session with host := host }.withStore store)

/-- Binds a name in a scope. -/
def declare (session : Session) (scope : ScopeId) (name : String) (value : Value)
    (mutability : Mutability) : Except Fault Session :=
  (session.store.declare scope name value mutability).map session.withStore

/-- Assigns to a name as seen from a scope. -/
def assign (session : Session) (scope : ScopeId) (name : String) (value : Value) :
    Except Fault Session :=
  (session.store.assign scope name value).map session.withStore

/-- A native for one more function of the host. -/
def install (session : Session) (name : String) (function : HostFunction) : Native × Session :=
  let (native, host) := session.host.install name function
  (native, { session with host := host })

/-- A function without statements, declared in a scope of its own. -/
def newFunction (session : Session) (name : String) (parameters : List String) :
    Closure × Session :=
  let (scope, session) := session.newScope none
  (⟨name, parameters, [], ⟨scope, name⟩, scope⟩, session)

/-! ## Evaluation -/

/-- Carries out a computation on the session's state. -/
def perform {α : Type} (session : Session) (run : Run α) : Option (Except Failure α × Session) :=
  match run session.state with
  | some (result, state) => some (result, { session with state := state })
  | none => none

/-- Evaluates a node in a scope. -/
def evaluate (session : Session) (scope : ScopeId) (node : Node) :
    Option (Except Failure Value × Session) :=
  session.perform (TreeScript.evaluate session.config scope node)

/-- Evaluates a node in a scope under the default policy, as if no call were live. -/
def evaluateApart (session : Session) (scope : ScopeId) (node : Node) :
    Option (Except Failure Value × Session) :=
  let config : Config := ⟨.default, session.host⟩
  match TreeScript.evaluate config scope node { session.state with stack := .empty } with
  | some (result, state) =>
    some (result, { session with state := { state with stack := session.state.stack } })
  | none => none

/-- Calls a value with arguments that are evaluated already, from a scope. -/
def call (session : Session) (scope : ScopeId) (callee : Value) (arguments : List Value)
    (span : Span) : Option (Except Failure Value × Session) :=
  session.perform (callValue session.config scope callee arguments span)

end Session

/-- Evaluates a program in a global scope of a new session. -/
def runProgram (policy : Policy) (sink : Sink) (clock : Clock) (program : Node) :
    Option (Except Failure Value × Session) :=
  let (globals, session) := (Session.start policy sink clock).newGlobals sink
  session.evaluate globals program

end TreeScript
