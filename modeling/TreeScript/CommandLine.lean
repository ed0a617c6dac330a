import TreeScript.Directory
import TreeScript.Node.Decode
import TreeScript.Options
import TreeScript.Session

/-!
# The command line

The command `run` loads a syntax tree from a file and evaluates it in a fresh global scope.  What a
command prints and how it ends is a function of its arguments and of the file it names, so it is
described here without doing any of it: `CommandLine.run` takes the way to read a file as an
argument.
-/

namespace TreeScript

/-- Why a run of a file ended without a value. -/
inductive RunFailure where
  | unreadable (path : String) (fault : ReadFault)
  | malformed (path : String)
  | evaluation (path : String) (failure : Failure)
deriving DecidableEq, Repr, Inhabited

namespace RunFailure

/-- What went wrong, on one line. -/
def message : RunFailure → String
  | unreadable path fault => "cannot read '" ++ path ++ "': " ++ fault.message
  | malformed path => "'" ++ path ++ "' is not a valid syntax tree: unexpected text"
  | evaluation _ failure => failure.message

/-- What went wrong and, for an evaluation, where. -/
def report (failure : RunFailure) : String :=
  let place := match failure with
    | evaluation path { span := some span, .. } => "  --> " ++ path ++ " at " ++ span.text ++ "\n"
    | _ => ""
  let backtrace := match failure with
    | evaluation _ { backtrace := some backtrace, .. } => Backtrace.text backtrace
    | _ => ""
  "error: " ++ failure.message ++ "\n" ++ place ++ backtrace

end RunFailure

/-- Loads the tree at a path. -/
def loadProgram (read : String → Except ReadFault String) (path : String) :
    Except RunFailure Node :=
  match read path with
  | .error fault => .error (.unreadable path fault)
  | .ok text =>
    match Node.ofText? text with
    | some program => .ok program
    | none => .error (.malformed path)

/-- Loads the tree at a path and evaluates it; also yields what it printed. -/
def execute (read : String → Except ReadFault String) (policy : Policy) (sink : Sink)
    (clock : Clock) (path : String) : Option (Except RunFailure Value × Output) :=
  match loadProgram read path with
  | .error failure => some (.error failure, .empty)
  | .ok program =>
    match runProgram policy sink clock program with
    | none => none
    | some (.ok value, session) => some (.ok value, session.state.world.output)
    | some (.error failure, session) =>
      some (.error (.evaluation path failure), session.state.world.output)

namespace CommandLine

/-- How a command ends and what it leaves on its two streams. -/
structure Outcome where
  code : Nat
  stdout : String
  stderr : String
deriving DecidableEq, Repr, Inhabited

/-- The commands. -/
inductive Command where
  | help
  | run (arguments : List String)
  | unknown (name : String)
deriving DecidableEq, Repr, Inhabited

/-- The command that arguments ask for. -/
def Command.of : List String → Command
  | [] => .help
  | "run" :: arguments => .run arguments
  | name :: _ => if name = "help" ∨ name = "--help" ∨ name = "-h" then .help else .unknown name

/-- Lines of text. -/
def lines (texts : List String) : String := String.join (texts.map (· ++ "\n"))

/-- How the program is used. -/
def usage : String := lines
  ["Cry evaluator",
    "",
    "Usage: cry <command> [options]",
    "",
    "Commands:",
    "  run <ast.json>   Evaluate a syntax tree serialized as JSON",
    "  help             Show this message",
    "",
    "Set RUST_LOG (e.g. RUST_LOG=cry_eval=debug) to enable tracing."]

/-- How the command `run` is used. -/
def runUsage : String := lines
  ["Usage: cry run <ast.json> [options]",
    "",
    "Options:",
    "  --strict-operands   Fail on mixed-kind arithmetic instead of yielding null",
    "  --lenient-arity     Bind missing parameters to null, drop extra arguments",
    "  --ieee-division     Division by zero yields Infinity/NaN instead of failing",
    "  --max-depth=<n>     Call depth limit (default 10000, 'none' for unlimited)",
    "  --print-result      Print the program's final value"]

/-- A command that was not understood. -/
def refused (message usage : String) : Outcome := ⟨1, "", "error: " ++ message ++ "\n" ++ usage⟩

/-- The path that a run would read, if its arguments are understood. -/
def path? (arguments : List String) : Option String :=
  match Command.of arguments with
  | .run arguments =>
    match Options.parse arguments with
    | .ok options => options.path
    | .error _ => none
  | _ => none

/-- The outcome of running the file at a path. -/
def runFile (read : String → Except ReadFault String) (clock : Clock) (options : Options)
    (path : String) : Option Outcome :=
  match execute read options.policy .console clock path with
  | none => none
  | some (.ok value, output) =>
    some ⟨0, output.console ++ (if options.printResult then value.display ++ "\n" else ""), ""⟩
  | some (.error failure, output) => some ⟨1, output.console, failure.report⟩

/-- The outcome of a command, given the way to read a file and the clock; none if the program makes
more nested calls than any machine can hold. -/
def run (read : String → Except ReadFault String) (clock : Clock) (arguments : List String) :
    Option Outcome :=
  match Command.of arguments with
  | .help => some ⟨0, "", usage⟩
  | .unknown name => some (refused ("unknown command '" ++ name ++ "'") ("\n" ++ usage))
  | .run arguments =>
    match Options.parse arguments with
    | .error fault => some (refused fault.message runUsage)
    | .ok options =>
      match options.path with
      | none => some (refused "missing file path" runUsage)
      | some path => runFile read clock options path

end CommandLine

end TreeScript
