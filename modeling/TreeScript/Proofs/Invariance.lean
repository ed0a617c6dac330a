import TreeScript.Proofs.Correspondence
import TreeScript.Session

/-!
# Proofs — properties of every evaluation

A property of computations holds of every evaluation if the operations that make up the evaluator
have it or pass it on.  `Inherits` lists what a node needs to inherit the property from its parts,
and may ask it of some nodes only.  `Composes` lists what any computation may use, and
`Composes.evalNode` derives the property for all nodes, given how closures are called.  `Pervades`
adds the operations of a call and so reaches every budget (`Pervades.callClosure`,
`Pervades.evaluateWithin`).

Most properties say how the state after a computation relates to the state before it
(`Run.Keeps`), by a relation that is reflexive and transitive.
-/

namespace TreeScript

/-! ### How a computation ends -/

namespace Run

variable {α β : Type} {s s' : State}

/-- A sequence ends where its first part failed, or where its second part ends. -/
theorem bind_eq_some {x : Run α} {f : α → Run β} {r : Except Failure β} :
    (x >>= f) s = some (r, s') ↔
      (∃ failure, x s = some (.error failure, s') ∧ r = .error failure) ∨
        ∃ a s₁, x s = some (.ok a, s₁) ∧ f a s₁ = some (r, s') := by
  show Run.bind x f s = _ ↔ _
  simp only [Run.bind]
  rcases hx : x s with _ | ⟨_ | a, s₁⟩
  · simp
  · simp only [Option.some.injEq, Prod.mk.injEq, Except.error.injEq]
    constructor
    · rintro ⟨rfl, rfl⟩; exact .inl ⟨_, ⟨rfl, rfl⟩, rfl⟩
    · rintro (⟨_, ⟨rfl, rfl⟩, rfl⟩ | ⟨_, _, h, _⟩)
      · exact ⟨rfl, rfl⟩
      · cases h.1
  · simp only [Option.some.injEq, Prod.mk.injEq, Except.ok.injEq]
    constructor
    · exact fun h => .inr ⟨_, _, ⟨rfl, rfl⟩, h⟩
    · rintro (⟨_, h, _⟩ | ⟨_, _, ⟨rfl, rfl⟩, h⟩)
      · cases h.1
      · exact h

theorem bind_pure (x : Run α) : (x >>= Pure.pure) = x := by
  funext s
  show Run.bind x Run.pure s = x s
  simp only [Run.bind, Run.pure]
  rcases x s with _ | ⟨_ | _, _⟩ <;> rfl

/-- The failure that a computation ended with. -/
def failure? : Option (Except Failure α × State) → Option Failure
  | some (.error failure, _) => some failure
  | _ => none

theorem failure?_eq_some {done : Option (Except Failure α × State)} {failure : Failure} :
    failure? done = some failure ↔ ∃ s', done = some (.error failure, s') := by
  rcases done with _ | ⟨_ | _, _⟩ <;> simp [failure?]

/-- Locating a failure changes neither whether a computation ends nor the state it ends in. -/
theorem located_eq_some {span : Span} {x : Run α} {r : Except Failure α} :
    Run.located span x s = some (r, s') ↔
      (∃ failure, x s = some (.error failure, s') ∧ r = .error (failure.orSpan span)) ∨
        ∃ a, x s = some (.ok a, s') ∧ r = .ok a := by
  simp only [Run.located]
  rcases hx : x s with _ | ⟨failure | a, s₁⟩ <;> simp [and_comm, eq_comm, and_assoc]

/-- A change that is refused leaves the state alone. -/
theorem update_apply (change : Store → Except Fault Store) :
    Run.update change s =
      match change s.world.store with
      | .ok store => some (.ok (), ⟨⟨store, s.world.output, s.world.clock⟩, s.stack⟩)
      | .error fault => some (.error { fault := fault }, s) :=
  rfl

/-- Running the body of a call changes the stack, and the failure, only at its end. -/
theorem framed_apply (body : Run α) :
    Run.framed body s = (body s).map fun (r, s') =>
      (r.mapError s'.stack.attachBacktrace, ⟨s'.world, s'.stack.pop⟩) := by
  simp only [Run.framed]
  rcases body s with _ | ⟨_ | _, _⟩ <;> rfl

/-- A call runs its body over one more frame, or is refused and leaves the state alone. -/
theorem pushFrame_framed_apply (limit : Option Nat) (frame : Frame) (span : Span)
    (body : Run α) :
    (do Run.located span (Run.pushFrame limit frame); Run.framed body) s =
      match s.stack.push limit frame with
      | .ok stack => Run.framed body ⟨s.world, stack⟩
      | .error fault => some (.error (Failure.orSpan span { fault := fault }), s) := by
  show Run.bind _ _ s = _
  simp only [Run.bind, Run.located, Run.pushFrame]
  cases s.stack.push limit frame <;> simp

/-- `x` ends, if at all, in a state that `R` relates to the one it started in, and its value, if it
has one, satisfies `P`. -/
def Keeps (R : State → State → Prop) (α : Type) (P : α → Prop) (x : Run α) : Prop :=
  ∀ s r s', x s = some (r, s') → R s s' ∧ ∀ a, r = .ok a → P a

end Run

/-- A session carries out a computation on its state, and changes nothing else. -/
theorem Session.perform_eq_some {α : Type} {session later : Session} {run : Run α}
    {r : Except Failure α} :
    session.perform run = some (r, later) ↔
      ∃ s', run session.state = some (r, s') ∧ later = { session with state := s' } := by
  simp only [Session.perform]
  rcases run session.state with _ | ⟨r₁, s₁⟩
  · simp
  · simp only [Option.some.injEq, Prod.mk.injEq]
    constructor
    · rintro ⟨rfl, rfl⟩
      exact ⟨s₁, ⟨rfl, rfl⟩, rfl⟩
    · rintro ⟨_, ⟨rfl, rfl⟩, rfl⟩
      exact ⟨rfl, rfl⟩

/-! ### Properties of computations -/

/-- Yielding a value has the property `holds`, and sequences and locations pass it on.
`holds α P x` speaks of `x` and says that the values it yields satisfy `P`. -/
structure Sequences (holds : (α : Type) → (α → Prop) → Run α → Prop) : Prop where
  pure {α : Type} {P : α → Prop} {a : α} : P a → holds α P (Pure.pure a)
  bind {α β : Type} {P : α → Prop} {Q : β → Prop} {x : Run α} {f : α → Run β} :
    holds α P x → (∀ a, P a → holds β Q (f a)) → holds β Q (x >>= f)
  located {α : Type} {P : α → Prop} (span : Span) {x : Run α} :
    holds α P x → holds α P (Run.located span x)

/-- Whatever does not touch the state has the property `holds`, and sequences pass it on. -/
structure Composes (holds : (α : Type) → (α → Prop) → Run α → Prop) : Prop
    extends Sequences holds where
  ofExcept {α : Type} {P : α → Prop} {result : Except Fault α} :
    (∀ a, result = .ok a → P a) → holds α P (Run.ofExcept result)
  query {α : Type} {P : α → Prop} {question : Store → Except Fault α} :
    (∀ store a, question store = .ok a → P a) → holds α P (Run.query question)

/-- What holds with a stronger statement on the values holds with a weaker one: yielding the value
of `x` after `x` changes nothing. -/
theorem Sequences.weaken {holds : (α : Type) → (α → Prop) → Run α → Prop} (h : Sequences holds)
    {α : Type} {P Q : α → Prop} {x : Run α} (hPQ : ∀ a, P a → Q a) (hx : holds α P x) :
    holds α Q x := by
  rw [← Run.bind_pure x]
  exact h.bind hx fun a ha => h.pure (hPQ a ha)

/-- A relation between states that is reflexive and transitive is kept by whatever is made of
computations that keep it. -/
theorem Run.keeps_composes {R : State → State → Prop} (refl : ∀ s, R s s)
    (trans : ∀ s₁ s₂ s₃, R s₁ s₂ → R s₂ s₃ → R s₁ s₃) : Composes (Run.Keeps R) where
  pure := by
    rintro α P a ha s r s' h
    cases h
    exact ⟨refl s, by rintro _ ⟨⟩; exact ha⟩
  bind := by
    intro α β P Q x f hx hf s r s' h
    rcases Run.bind_eq_some.mp h with ⟨failure, h₁, rfl⟩ | ⟨a, s₁, h₁, h₂⟩
    · exact ⟨(hx _ _ _ h₁).1, by rintro _ ⟨⟩⟩
    · obtain ⟨hR, hP⟩ := hx _ _ _ h₁
      obtain ⟨hR', hQ⟩ := hf a (hP a rfl) _ _ _ h₂
      exact ⟨trans _ _ _ hR hR', hQ⟩
  located := by
    intro α P span x hx s r s' h
    rcases Run.located_eq_some.mp h with ⟨failure, h₁, rfl⟩ | ⟨a, h₁, rfl⟩
    · exact ⟨(hx _ _ _ h₁).1, by rintro _ ⟨⟩⟩
    · exact hx _ _ _ h₁
  ofExcept := by
    intro α P result hr s r s' h
    cases result with
    | error fault => cases h; exact ⟨refl s, by rintro _ ⟨⟩⟩
    | ok a => cases h; exact ⟨refl s, by rintro _ ⟨⟩; exact hr a rfl⟩
  query := by
    intro α P question hq s r s' h
    simp only [Run.query] at h
    split at h <;> cases h
    · exact ⟨refl s, by rintro _ ⟨⟩; exact hq _ _ ‹_›⟩
    · exact ⟨refl s, by rintro _ ⟨⟩⟩

/-! ### Properties that nodes inherit from their parts -/

/-- The property `holds` passes from the parts of a node to the node, where closures are called by
`call`, and only nodes that satisfy `node` are evaluated, in the scope `scope`.  `node` passes from
a node to its parts. -/
structure Inherits (config : Config) (call : Caller) (scope : ScopeId) (node : Node → Prop)
    (holds : (α : Type) → (α → Prop) → Run α → Prop) : Prop extends Sequences holds where
  parts {n : Node} : node n → Node.Alike (fun a b => a = b ∧ node a) n n
  lookup (name : String) :
    holds Value (fun _ => True) (Run.query fun store => store.lookup scope name)
  declaration {constant : Bool} {name : String} {value : Option Node} {span : Span} (v : Value) :
    node (.declaration constant name value span) →
      holds Value (fun _ => True) (declareIn scope name v (.ofConstant constant))
  function {name : String} {parameters : List String} {body : List Node} {span : Span} :
    node (.function name parameters body span) →
      holds Value (fun _ => True)
        (declareIn scope name
          (.function ⟨name, parameters, body, config.host.bodyOf scope name, scope⟩) .constant)
  target {target value : Node} {span : Span} : node (.assignment target value span) →
    holds String (fun name => target.assignable = .ok name) (Run.ofExcept target.assignable)
  assignment {target value : Node} {span : Span} {name : String} (v : Value) :
    node (.assignment target value span) → target.assignable = .ok name →
      holds Value (fun _ => True) (assignIn scope name v)
  binary (op : BinaryOp) (l r : Value) :
    holds Value (fun _ => True) (Run.ofExcept (op.apply config.policy l r))
  comparison (op : ComparisonOp) (l r : Value) :
    holds Value (fun _ => True) (Run.ofExcept (op.apply l r))
  member (v : Value) (key : String) : holds Value (fun _ => True) (Run.ofExcept (v.member key))
  condition (v : Value) : holds Bool (fun _ => True) (Run.ofExcept v.condition)
  apply {callee : Node} {arguments : List Node} {span : Span} (f : Value) (values : List Value) :
    node (.call callee arguments span) →
      holds Value (fun _ => True) (applyValue config call scope f values span)
  property (entry : Entry Node) (span : Span) :
    holds Value (fun _ => True)
      (Run.ofExcept
        (.error (.unimplementedNode Node.Kind.property.name (Node.property entry span).dump)))

namespace Inherits

variable {config : Config} {call : Caller} {scope : ScopeId} {node : Node → Prop}
  {holds : (α : Type) → (α → Prop) → Run α → Prop}

/-- A property of one computation is a relation that looks only at the left one. -/
theorem corresponds (h : Inherits config call scope node holds) :
    Corresponds (W := Unit) (fun _ _ => True) config config call call scope scope
      (fun n m => n = m ∧ node n) (fun _ _ _ => True)
      (fun α _ R x _ => holds α (fun a => ∃ b, R () a b) x) where
  alike := by rintro n _ ⟨rfl, hn⟩; exact h.parts hn
  mono _ _ := trivial
  pure hab := h.pure ⟨_, hab⟩
  bind hx hg := h.bind hx fun a ⟨b, hab⟩ => hg () a b trivial hab
  located _ _ _ hx := h.located _ hx
  null _ := trivial
  number _ _ := trivial
  string _ _ := trivial
  object _ := trivial
  identifier _ _ := h.weaken (fun _ _ => ⟨.null, trivial⟩) (h.lookup _)
  short _ _ _ := h.weaken (fun _ _ => ⟨.null, trivial⟩) (h.lookup _)
  declaration hn _ := h.weaken (fun _ _ => ⟨.null, trivial⟩) (h.declaration _ hn.2)
  function _ hn := h.weaken (fun _ _ => ⟨.null, trivial⟩) (h.function hn.2)
  target _ hn := by
    obtain ⟨heq, hn⟩ := hn
    cases heq
    exact h.located _ (h.weaken (fun name hname => ⟨name, hname, hname⟩) (h.target hn))
  assignment hn ht _ _ := h.weaken (fun _ _ => ⟨.null, trivial⟩) (h.assignment _ hn.2 ht)
  binary _ _ := h.weaken (fun _ _ => ⟨.null, trivial⟩) (h.binary ..)
  comparison _ _ := h.weaken (fun _ _ => ⟨.null, trivial⟩) (h.comparison ..)
  member _ := h.weaken (fun _ _ => ⟨.null, trivial⟩) (h.member ..)
  condition _ := h.weaken (fun b _ => ⟨b, rfl⟩) (h.condition _)
  apply hn _ _ := h.weaken (fun _ _ => ⟨.null, trivial⟩) (h.apply _ _ hn.2)
  property _ _ := by
    rw [TreeScript.evalNode]
    exact h.located _ (h.weaken (fun _ _ => ⟨.null, trivial⟩) (h.property ..))

/-- **A node inherits the property.** -/
theorem evalNode (h : Inherits config call scope node holds) {n : Node} (hn : node n) :
    holds Value (fun _ => True) (TreeScript.evalNode config call scope n) :=
  h.weaken (fun _ _ => trivial) (h.corresponds.evalNode n n () ⟨rfl, hn⟩)

/-- So do statements. -/
theorem evalBlock (h : Inherits config call scope node holds) (last : Value) {nodes : List Node}
    (hnodes : ∀ n ∈ nodes, node n) :
    holds Value (fun _ => True) (TreeScript.evalBlock config call scope last nodes) := by
  have all : List.Forall₂ (fun n m => n = m ∧ node n) nodes nodes :=
    List.forall₂_same.mpr fun n hn => ⟨rfl, hnodes n hn⟩
  exact h.weaken (fun _ _ => trivial)
    (h.corresponds.evalBlock nodes nodes () last last all trivial)

end Inherits

namespace Composes

variable {holds : (α : Type) → (α → Prop) → Run α → Prop} {config : Config} {call : Caller}
  {scope : ScopeId}

/-- All nodes inherit a property that composes, if calls and changes of the scope have it. -/
theorem inherits (h : Composes holds)
    (hd : ∀ name value mutability,
      holds Value (fun _ => True) (declareIn scope name value mutability))
    (ha : ∀ name value, holds Value (fun _ => True) (assignIn scope name value))
    (hf : ∀ f values span,
      holds Value (fun _ => True) (applyValue config call scope f values span)) :
    Inherits config call scope (fun _ => True) holds where
  toSequences := h.toSequences
  parts _ := .refl (fun _ => ⟨rfl, trivial⟩) _
  lookup _ := h.query fun _ _ _ => trivial
  declaration v _ := hd _ v _
  function _ := hd ..
  target _ := h.ofExcept fun _ hname => hname
  assignment v _ _ := ha _ v
  binary _ _ _ := h.ofExcept fun _ _ => trivial
  comparison _ _ _ := h.ofExcept fun _ _ => trivial
  member _ _ := h.ofExcept fun _ _ => trivial
  condition _ := h.ofExcept fun _ _ => trivial
  apply f values _ := hf f values _
  property _ _ := h.ofExcept fun _ _ => trivial

/-- Statements have the property, if calls and changes of the scope have it. -/
theorem evalBlock (h : Composes holds)
    (hd : ∀ name value mutability,
      holds Value (fun _ => True) (declareIn scope name value mutability))
    (ha : ∀ name value, holds Value (fun _ => True) (assignIn scope name value))
    (hf : ∀ f values span,
      holds Value (fun _ => True) (applyValue config call scope f values span))
    (last : Value) (nodes : List Node) :
    holds Value (fun _ => True) (TreeScript.evalBlock config call scope last nodes) :=
  (h.inherits hd ha hf).evalBlock last fun _ _ => trivial

/-- A node has the property, if calls and changes of the scope have it. -/
theorem evalNode (h : Composes holds)
    (hd : ∀ name value mutability,
      holds Value (fun _ => True) (declareIn scope name value mutability))
    (ha : ∀ name value, holds Value (fun _ => True) (assignIn scope name value))
    (hf : ∀ f values span,
      holds Value (fun _ => True) (applyValue config call scope f values span))
    (node : Node) : holds Value (fun _ => True) (TreeScript.evalNode config call scope node) :=
  (h.inherits hd ha hf).evalNode trivial

/-- Binding parameters has the property, if declaring in the scope has it. -/
theorem bindParameters (h : Composes holds)
    (hd : ∀ name value, holds Value (fun _ => True) (declareIn scope name value .mutable)) :
    ∀ (names : List String) (values : List Value),
      holds Unit (fun _ => True) (TreeScript.bindParameters scope names values)
  | [], _ => h.pure trivial
  | _ :: names, [] => h.bind (hd ..) fun _ _ => bindParameters h hd names []
  | _ :: names, _ :: values => h.bind (hd ..) fun _ _ => bindParameters h hd names values

/-- A call has the property, if creating its scope and binding in it have it, and so has running
its body between the push and the pop of its frame. -/
theorem enterClosure (h : Composes holds) {policy : Policy} {closure : Closure} {span : Span}
    {body : ScopeId → Run Value}
    (hnew : holds ScopeId (fun _ => True) (Run.newScope (some closure.scope)))
    (hd : ∀ scope name value, holds Value (fun _ => True) (declareIn scope name value .mutable))
    (hbody : ∀ scope, holds Value (fun _ => True) do
      Run.located span (Run.pushFrame policy.maxCallDepth (Frame.ofCall closure.name span))
      Run.framed (body scope))
    (values : List Value) :
    holds Value (fun _ => True) (TreeScript.enterClosure policy closure values span body) := by
  simp only [TreeScript.enterClosure]
  split
  · exact h.ofExcept fun _ _ => trivial
  · exact h.bind hnew fun scope _ =>
      h.bind (h.bindParameters (hd scope) closure.parameters values) fun _ _ => hbody scope

end Composes

/-- A change of the store keeps a relation between states, if it does so where it is not refused. -/
theorem Run.keeps_update {R : State → State → Prop} {change : Store → Except Fault Store}
    (refl : ∀ s, R s s)
    (hchange : ∀ (s : State) store, change s.world.store = .ok store →
      R s ⟨⟨store, s.world.output, s.world.clock⟩, s.stack⟩) :
    Run.Keeps R Unit (fun _ => True) (Run.update change) := by
  intro s r s' h
  rw [Run.update_apply] at h
  cases hc : change s.world.store with
  | error fault => simp only [hc] at h; cases h; exact ⟨refl _, fun _ _ => trivial⟩
  | ok store => simp only [hc] at h; cases h; exact ⟨hchange s store hc, fun _ _ => trivial⟩

/-- A call keeps a relation between states, if its body keeps it over one more frame. -/
theorem Run.keeps_framed {R : State → State → Prop} {limit : Option Nat} {frame : Frame}
    {span : Span} {body : Run Value} (refl : ∀ s, R s s)
    (framed : ∀ (s s' : State) pushed, s.stack.push limit frame = .ok pushed →
      R ⟨s.world, pushed⟩ s' → R s ⟨s'.world, s'.stack.pop⟩)
    (hbody : Run.Keeps R Value (fun _ => True) body) :
    Run.Keeps R Value (fun _ => True)
      (do Run.located span (Run.pushFrame limit frame); Run.framed body) := by
  intro s r s' h
  refine ⟨?_, fun _ _ => trivial⟩
  rw [Run.pushFrame_framed_apply] at h
  cases hp : s.stack.push limit frame with
  | error fault => simp only [hp] at h; cases h; exact refl s
  | ok pushed =>
      -- the body starts over one more frame, which is taken off however it ends
      simp only [hp, Run.framed_apply, Option.map_eq_some_iff] at h
      obtain ⟨⟨r₁, s₁⟩, h₁, h₂⟩ := h
      cases h₂
      exact framed s s₁ pushed hp (hbody _ _ _ h₁).1

/-! ### Properties of every run -/

/-- The property `holds` composes, and everything that a run under `config` does to the state has
it. -/
structure Pervades (config : Config) (holds : (α : Type) → (α → Prop) → Run α → Prop) : Prop
    extends Composes holds where
  declare (scope : ScopeId) (name : String) (value : Value) (mutability : Mutability) :
    holds Value (fun _ => True) (declareIn scope name value mutability)
  assign (scope : ScopeId) (name : String) (value : Value) :
    holds Value (fun _ => True) (assignIn scope name value)
  native (native : Native) (values : List Value) (scope : ScopeId) :
    holds Value (fun _ => True) (Run.act (config.host.call native values scope))
  exhausted : holds Value (fun _ => True) Run.exhausted
  newScope (parent : Option ScopeId) : holds ScopeId (fun _ => True) (Run.newScope parent)
  framed (span : Span) (frame : Frame) {body : Run Value} : holds Value (fun _ => True) body →
    holds Value (fun _ => True) do
      Run.located span (Run.pushFrame config.policy.maxCallDepth frame)
      Run.framed body

namespace Pervades

variable {config : Config} {holds : (α : Type) → (α → Prop) → Run α → Prop}

theorem applyValue (h : Pervades config holds) {call : Caller}
    (hcall : ∀ closure values span, holds Value (fun _ => True) (call closure values span))
    (scope : ScopeId) (f : Value) (values : List Value) (span : Span) :
    holds Value (fun _ => True) (TreeScript.applyValue config call scope f values span) := by
  simp only [TreeScript.applyValue]
  split
  · exact h.native ..
  · exact hcall ..
  · exact h.ofExcept fun _ _ => trivial

/-- **Every call has the property**, whatever its budget. -/
theorem callClosure (h : Pervades config holds) (budget : Nat) :
    ∀ closure values span,
      holds Value (fun _ => True) (TreeScript.callClosure config budget closure values span) := by
  induction budget with
  | zero => exact fun _ _ _ => h.exhausted
  | succ budget ih =>
      intro closure values span
      refine h.enterClosure (h.newScope _) (fun scope name value => h.declare ..)
        (fun scope => h.framed _ _ ?_) values
      -- calls inside the body have the smaller budget
      rw [Run.spread_eq]
      exact h.evalBlock (h.declare scope) (h.assign scope) (h.applyValue ih scope) _ _

/-- **Every evaluation has the property**, whatever its budget. -/
theorem evaluateWithin (h : Pervades config holds) (budget : Nat) (scope : ScopeId) (node : Node) :
    holds Value (fun _ => True) (TreeScript.evaluateWithin config budget scope node) :=
  h.evalNode (h.declare scope) (h.assign scope) (h.applyValue (h.callClosure budget) scope) node

end Pervades

/-- **What every step on the state keeps, every run keeps.**  `R` relates the states before and
after a declaration, an assignment, a native and a new scope; and it relates the states around a
call if it relates those around its body. -/
theorem Run.keeps_pervades {config : Config} {R : State → State → Prop} (refl : ∀ s, R s s)
    (trans : ∀ s₁ s₂ s₃, R s₁ s₂ → R s₂ s₃ → R s₁ s₃)
    (declare : ∀ (s : State) id name value mutability store,
      s.world.store.declare id name value mutability = .ok store →
        R s ⟨⟨store, s.world.output, s.world.clock⟩, s.stack⟩)
    (assign : ∀ (s : State) id name value store,
      s.world.store.assign id name value = .ok store →
        R s ⟨⟨store, s.world.output, s.world.clock⟩, s.stack⟩)
    (native : ∀ (s : State) native values scope,
      R s ⟨(config.host.call native values scope s.world).2, s.stack⟩)
    (newScope : ∀ (s : State) parent,
      R s ⟨⟨(s.world.store.newScope parent).2, s.world.output, s.world.clock⟩, s.stack⟩)
    (framed : ∀ (s s' : State) frame pushed,
      s.stack.push config.policy.maxCallDepth frame = .ok pushed → R ⟨s.world, pushed⟩ s' →
        R s ⟨s'.world, s'.stack.pop⟩) : Pervades config (Run.Keeps R) := by
  have composes : Composes (Run.Keeps R) := Run.keeps_composes refl trans
  refine { toComposes := composes, declare := ?_, assign := ?_, native := ?_, exhausted := ?_,
           newScope := ?_, framed := ?_ }
  · intro id name value mutability
    exact composes.bind (Run.keeps_update refl fun s => declare s id name value mutability)
      fun _ _ => composes.pure trivial
  · intro id name value
    exact composes.bind (Run.keeps_update refl fun s => assign s id name value)
      fun _ _ => composes.pure trivial
  · rintro f values scope s r s' ⟨⟩
    exact ⟨native s f values scope, fun _ _ => trivial⟩
  · rintro s r s' ⟨⟩
  · rintro parent s r s' ⟨⟩
    exact ⟨newScope s parent, fun _ _ => trivial⟩
  · intro span frame body hbody
    exact Run.keeps_framed refl (fun s s' pushed => framed s s' frame pushed) hbody

end TreeScript
