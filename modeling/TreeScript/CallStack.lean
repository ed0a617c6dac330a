import TreeScript.Failure

/-!
# The call stack

The stack holds the live calls of declared functions, the latest last.  A push that would exceed
the limit is refused and leaves the stack alone.
-/

namespace TreeScript

/-- The frame of a call made at `span`. -/
def Frame.ofCall (name : String) (span : Span) : Frame := ⟨name, span.location?⟩

/-- The live calls, the latest last. -/
structure CallStack where
  frames : Array Frame
deriving DecidableEq, Repr, Inhabited

namespace CallStack

/-- No live calls. -/
def empty : CallStack := ⟨#[]⟩

/-- The number of live calls. -/
def depth (stack : CallStack) : Nat := stack.frames.size

/-- Whether no call is live. -/
def isEmpty (stack : CallStack) : Bool := stack.frames.isEmpty

/-- One more live call, if the limit admits it. -/
@[inline] def push (limit : Option Nat) (frame : Frame) (stack : CallStack) :
    Except Fault CallStack :=
  match limit with
  | some max =>
    if max ≤ stack.depth then .error (.stackOverflow max) else .ok ⟨stack.frames.push frame⟩
  | none => .ok ⟨stack.frames.push frame⟩

/-- Without the latest call. -/
def pop (stack : CallStack) : CallStack := ⟨stack.frames.pop⟩

/-- The live calls, the latest first. -/
def capture (stack : CallStack) : Backtrace := stack.frames.toList.reverse

/-- The failure with the live calls as its backtrace, unless there are none or it has one. -/
def attachBacktrace (stack : CallStack) (failure : Failure) : Failure :=
  if stack.isEmpty || failure.backtrace.isSome then failure
  else failure.withBacktrace stack.capture

theorem pop_push {limit : Option Nat} {frame : Frame} {stack pushed : CallStack}
    (h : stack.push limit frame = .ok pushed) : pushed.pop = stack := by
  unfold push at h
  split at h
  · split at h
    · cases h
    · cases h; simp [pop]
  · cases h; simp [pop]

@[simp] theorem attachBacktrace_fault (stack : CallStack) (failure : Failure) :
    (stack.attachBacktrace failure).fault = failure.fault := by
  unfold attachBacktrace
  split <;> rfl

end CallStack

end TreeScript
