import TreeScript.Store

/-!
# The world of a run

Scripts act on the world through scopes and through functions of the host.  The world is what such
a function can see and change: the scopes, what has been printed, and the clock.  Printed lines go
to a sink, either the console or a buffer that the host reads back.  The clock may show any time
since the start of 1970 whenever it is read; what it is going to show is part of the world, so a run
is a function of the world it starts in.
-/

namespace TreeScript

/-- Where printed lines go. -/
inductive Sink where
  | buffer
  | console
deriving DecidableEq, Repr, Inhabited

/-- What has been printed so far, by sink. -/
structure Output where
  buffer : String
  console : String
deriving DecidableEq, Repr, Inhabited

namespace Output

/-- Nothing printed. -/
def empty : Output := ⟨"", ""⟩

/-- One more text at the end of a sink. -/
def write (output : Output) (text : String) : Sink → Output
  | .buffer => { output with buffer := output.buffer ++ text }
  | .console => { output with console := output.console ++ text }

end Output

/-- A clock: what it shows each time it is read, in milliseconds since the start of 1970, and how
often it has been read. -/
structure Clock where
  readings : Nat → Float
  reads : Nat
deriving Inhabited

namespace Clock

/-- The clock that always shows `time`. -/
def still (time : Float) : Clock := ⟨fun _ => time, 0⟩

instance : Coe Float Clock := ⟨still⟩

/-- What the clock shows. -/
def now (clock : Clock) : Float := clock.readings clock.reads

/-- The clock, read once more. -/
def tick (clock : Clock) : Clock := { clock with reads := clock.reads + 1 }

end Clock

/-- The scopes, the output and the clock of a run. -/
structure World where
  store : Store
  output : Output
  clock : Clock
deriving Inhabited

/-- No scopes and nothing printed. -/
def World.empty (clock : Clock) : World := ⟨.empty, .empty, clock⟩

/-- A function of the host: given its arguments and the scope of the call, it yields a value or
fails, and may act on the world either way. -/
abbrev HostFunction := List Value → ScopeId → World → Except Failure Value × World

/-- What a run takes from its host: functions, each at its number, and the syntax trees, which tell
what body a scope declares under a name. -/
structure Host where
  functions : Array HostFunction
  bodyOf : ScopeId → String → BodyId

namespace Host

/-- A host without functions, whose trees share no bodies. -/
def empty : Host := ⟨#[], BodyId.mk⟩

/-- What a native does.  One that the host does not know yields null. -/
def call (host : Host) (native : Native) (arguments : List Value) (scope : ScopeId)
    (world : World) : Except Failure Value × World :=
  match host.functions[native.id]? with
  | some function => function arguments scope world
  | none => (.ok .null, world)

/-- The host with one more function, and the native that refers to it. -/
def install (host : Host) (name : String) (function : HostFunction) : Native × Host :=
  (⟨name, host.functions.size⟩, { host with functions := host.functions.push function })

end Host

end TreeScript
