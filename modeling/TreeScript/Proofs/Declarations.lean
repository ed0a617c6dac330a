import TreeScript.Proofs.Parts
import TreeScript.Proofs.Relaxation

/-!
# Proofs — declarations stay in their scope

An evaluation in a scope adds names to no other scope that exists, and to its own only names that
the node declares outside the bodies of functions (`declarations_stay`).  Branches of conditionals
and nested programs share the scope around them, so their declarations count; a body runs in a scope
that its call creates, so what it declares, with the parameters, is of no concern to the scopes that
existed before the call.

`Store.Gains new` says of two stores which names the scopes of the first have gained in the second.
A call gains nothing (`callClosure_gains`), by induction on its budget.
-/

namespace TreeScript

/-! ### Declarations in a node -/

namespace Node

/-- The name that a node declares itself: the name of a variable or of a function. -/
def declaredName? : Node → Option String
  | .declaration _ name _ _ | .function name _ _ _ => some name
  | _ => none

/-- The name is declared in the node, outside the bodies of functions. -/
inductive Declares : Node → String → Prop where
  | here {node : Node} {name : String} : node.declaredName? = some name → Declares node name
  | inside {node part : Node} {name : String} : node.kind ≠ .function → part ∈ node.parts →
      Declares part name → Declares node name

end Node

/-! ### Names gained -/

namespace Store

/-- Every scope of `before` is in `after`, with its names and at most such more as `new` admits. -/
def Gains (new : ScopeId → String → Prop) (before after : Store) : Prop :=
  ∀ id scope, before.scope? id = some scope → ∃ scope' added, after.scope? id = some scope' ∧
    scope'.names = scope.names ++ added ∧ ∀ name ∈ added, new id name

variable {new : ScopeId → String → Prop}

theorem Gains.refl (store : Store) : store.Gains new store :=
  fun _ scope h => ⟨scope, [], h, by simp, by simp⟩

theorem Gains.trans {a b c : Store} (h₁ : a.Gains new b) (h₂ : b.Gains new c) :
    a.Gains new c := by
  intro id scope h
  obtain ⟨scope', added, h', hnames, hnew⟩ := h₁ id scope h
  obtain ⟨scope'', added', h'', hnames', hnew'⟩ := h₂ id scope' h'
  refine ⟨scope'', added ++ added', h'', by rw [hnames', hnames, List.append_assoc], ?_⟩
  intro name hname
  rcases List.mem_append.mp hname with hname | hname
  · exact hnew name hname
  · exact hnew' name hname

theorem Gains.mono {new' : ScopeId → String → Prop} {before after : Store}
    (h : before.Gains new after)
    (hnew : ∀ id scope name, before.scope? id = some scope → new id name → new' id name) :
    before.Gains new' after := by
  intro id scope hscope
  obtain ⟨scope', added, h', hnames, hadded⟩ := h id scope hscope
  exact ⟨scope', added, h', hnames, fun name hname => hnew id scope name hscope (hadded name hname)⟩

/-- Changing one scope gains the names that this scope gains. -/
theorem gains_modify (store : Store) {id : ScopeId} {f : Scope → Scope} (added : List String)
    (hf : ∀ scope, (f scope).names = scope.names ++ added) (hadded : ∀ name ∈ added, new id name) :
    store.Gains new ⟨store.scopes.modify id f⟩ := by
  intro k scope h
  by_cases hk : k = id
  · subst hk
    exact ⟨f scope, added, by simp [scope?_modify, h], hf scope, hadded⟩
  · exact ⟨scope, [], by simp [scope?_modify, hk, h], by simp, by simp⟩

/-- A declaration gains its name, in its scope. -/
theorem declare_gains {store store' : Store} {id : ScopeId} {name : String} {value : Value}
    {mutability : Mutability} (h : store.declare id name value mutability = .ok store')
    (hnew : new id name) : store.Gains new store' := by
  obtain ⟨-, rfl⟩ := declare_eq_ok h
  exact store.gains_modify [name] (fun scope => by simp [Scope.names, Scope.add])
    (by simpa using hnew)

/-- An assignment gains nothing. -/
theorem assign_gains {store store' : Store} {id : ScopeId} {name : String} {value : Value}
    (h : store.assign id name value = .ok store') : store.Gains new store' := by
  obtain ⟨owner, -, -, -, -, -, -, rfl⟩ := assign_eq_ok h
  refine store.gains_modify [] (fun scope => ?_) (by simp)
  simp only [Scope.names, Scope.setValue, List.map_map, List.append_nil]
  refine List.map_congr_left fun b _ => ?_
  simp only [Function.comp_apply]
  split <;> rfl

/-- A new scope is no scope that was there. -/
theorem newScope_gains (store : Store) (parent : Option ScopeId) :
    store.Gains new (store.newScope parent).2 := by
  intro k scope h
  have hlt : k < store.scopes.size := (Array.getElem?_eq_some_iff.mp h).1
  refine ⟨scope, [], ?_, by simp, by simp⟩
  rw [newScope, scope?_push, if_neg (Nat.ne_of_lt hlt), h]

end Store

/-! ### Names gained by computations -/

/-- The computation gains names that `new` admits, and its value satisfies `P`. -/
abbrev Run.Gains (new : ScopeId → String → Prop) : (α : Type) → (α → Prop) → Run α → Prop :=
  Run.Keeps fun s s' => s.world.store.Gains new s'.world.store

namespace Run.Gains

variable {new new' : ScopeId → String → Prop} {α : Type} {P : α → Prop}

theorem composes : Composes (Run.Gains new) :=
  Run.keeps_composes (fun _ => .refl _) fun _ _ _ h₁ h₂ => h₁.trans h₂

theorem mono {x : Run α} (hx : Run.Gains new α P x) (h : ∀ id name, new id name → new' id name) :
    Run.Gains new' α P x :=
  fun s r s' hrun =>
    ⟨(hx s r s' hrun).1.mono fun id _ name _ => h id name, (hx s r s' hrun).2⟩

theorem declareIn {scope : ScopeId} {name : String} (hnew : new scope name) (value : Value)
    (mutability : Mutability) :
    Run.Gains new Value (fun _ => True) (declareIn scope name value mutability) :=
  composes.bind (Run.keeps_update (fun _ => .refl _) fun _ _ h => Store.declare_gains h hnew)
    fun _ _ => composes.pure trivial

theorem assignIn (scope : ScopeId) (name : String) (value : Value) :
    Run.Gains new Value (fun _ => True) (assignIn scope name value) :=
  composes.bind (Run.keeps_update (fun _ => .refl _) fun _ _ h => Store.assign_gains h)
    fun _ _ => composes.pure trivial

/-- What is gained by a scope that is created first is not gained by any that existed. -/
theorem newScope {parent : Option ScopeId} {f : ScopeId → Run α}
    (hf : ∀ scope, Run.Gains (fun id _ => id = scope) α P (f scope)) :
    Run.Gains new α P (Run.newScope parent >>= f) := by
  intro s r s' h
  rcases Run.bind_eq_some.mp h with ⟨failure, ⟨⟩, -⟩ | ⟨scope, s₁, h₁, h₂⟩
  cases h₁
  obtain ⟨hgains, hP⟩ := hf _ _ _ _ h₂
  refine ⟨((Store.newScope_gains s.world.store parent).trans hgains).mono ?_, hP⟩
  -- a scope that existed is older than the new one
  intro id inner name hid hsame
  have hlt : id < s.world.store.scopes.size := (Array.getElem?_eq_some_iff.mp hid).1
  exact absurd hsame (Nat.ne_of_lt hlt)

end Run.Gains

/-! ### Names gained by calls and evaluations -/

/-- The function adds no name to any scope that exists. -/
def HostFunction.DeclaresNothing (function : HostFunction) : Prop :=
  ∀ (values : List Value) (scope : ScopeId) (world : World),
    world.store.Gains (fun _ _ => False) (function values scope world).2.store

/-- No function of the host declares anything. -/
def Host.DeclaresNothing (host : Host) : Prop :=
  ∀ function ∈ host.functions, function.DeclaresNothing

theorem Host.DeclaresNothing.call {host : Host} (h : host.DeclaresNothing) (native : Native)
    (values : List Value) (scope : ScopeId) :
    Run.Gains (fun _ _ => False) Value (fun _ => True)
      (Run.act (host.call native values scope)) := by
  rintro s r s' ⟨⟩
  refine ⟨?_, fun _ _ => trivial⟩
  show s.world.store.Gains _ (host.call native values scope s.world).2.store
  rw [Host.call]
  split
  · exact h _ (Array.mem_of_getElem? ‹_›) values scope s.world
  · exact .refl _

variable {config : Config}

/-- Applying a value gains nothing, if calling closures gains nothing. -/
theorem applyValue_gains (hhost : config.host.DeclaresNothing) {call : Caller}
    (hcall : ∀ closure values span,
      Run.Gains (fun _ _ => False) Value (fun _ => True) (call closure values span))
    (scope : ScopeId) (callee : Value) (values : List Value) (span : Span) :
    Run.Gains (fun _ _ => False) Value (fun _ => True)
      (applyValue config call scope callee values span) := by
  simp only [applyValue]
  split
  · exact hhost.call _ values scope
  · exact hcall _ values span
  · exact Run.Gains.composes.ofExcept fun _ _ => trivial

/-- Evaluating nodes in a scope gains, in this scope, names that the nodes declare. -/
theorem gains_inherits (hhost : config.host.DeclaresNothing) {call : Caller}
    (hcall : ∀ closure values span,
      Run.Gains (fun _ _ => False) Value (fun _ => True) (call closure values span))
    (scope : ScopeId) (new : String → Prop) :
    Inherits config call scope (fun node => ∀ name, node.Declares name → new name)
      (Run.Gains fun id name => id = scope ∧ new name) where
  toSequences := Run.Gains.composes.toSequences
  parts hnode := .of_parts fun hkind _ hpart name hname => hnode name (.inside hkind hpart hname)
  lookup _ := Run.Gains.composes.query fun _ _ _ => trivial
  declaration v hnode := .declareIn ⟨rfl, hnode _ (.here rfl)⟩ v _
  function hnode := .declareIn ⟨rfl, hnode _ (.here rfl)⟩ _ _
  target _ := Run.Gains.composes.ofExcept fun _ hname => hname
  assignment v _ _ := .assignIn scope _ v
  binary _ _ _ := Run.Gains.composes.ofExcept fun _ _ => trivial
  comparison _ _ _ := Run.Gains.composes.ofExcept fun _ _ => trivial
  member _ _ := Run.Gains.composes.ofExcept fun _ _ => trivial
  condition _ := Run.Gains.composes.ofExcept fun _ _ => trivial
  apply f values _ := (applyValue_gains hhost hcall scope f values _).mono fun _ _ h => h.elim
  property _ _ := Run.Gains.composes.ofExcept fun _ _ => trivial

/-- **A call gains nothing**, at any depth: what it declares, it declares in its own scope. -/
theorem callClosure_gains (hhost : config.host.DeclaresNothing) (budget : Nat) :
    ∀ closure values span, Run.Gains (fun _ _ => False) Value (fun _ => True)
      (callClosure config budget closure values span) := by
  induction budget with
  | zero => rintro closure values span s r s' ⟨⟩
  | succ budget ih =>
      intro closure values span
      simp only [callClosure, enterClosure, Run.spread_eq]
      split
      · exact Run.Gains.composes.ofExcept fun _ _ => trivial
      · refine Run.Gains.newScope fun scope => ?_
        have hbody : Run.Gains (fun id _ => id = scope) Value (fun _ => True)
            (evalBlock config (callClosure config budget) scope .null closure.body) :=
          ((gains_inherits hhost ih scope fun _ => True).evalBlock _ fun _ _ _ _ => trivial).mono
            fun _ _ h => h.1
        refine Run.Gains.composes.bind (Run.Gains.composes.bindParameters
          (fun name value => .declareIn rfl value .mutable) closure.parameters values) fun _ _ => ?_
        exact Run.keeps_framed (fun _ => .refl _) (fun _ _ _ _ h => h) hbody

/-- **An evaluation gains what its node declares**, in its own scope. -/
theorem evaluateWithin_gains (hhost : config.host.DeclaresNothing) (budget : Nat) (scope : ScopeId)
    (node : Node) :
    Run.Gains (fun id name => id = scope ∧ node.Declares name) Value (fun _ => True)
      (evaluateWithin config budget scope node) :=
  (gains_inherits hhost (callClosure_gains hhost budget) scope node.Declares).evalNode
    fun _ h => h

/-- **Declarations never leak.**  Let no native declare a name.  However an evaluation in a scope
ends, the other scopes that existed have exactly the names that they had, and the scope itself has
gained only names that the node declares outside the bodies of functions.  A call of any value, at
any depth, leaves the names of all scopes that existed as they were. -/
theorem declarations_stay (config : Config) (hhost : config.host.DeclaresNothing) (budget : Nat) :
    (∀ scope node s r s', evaluateWithin config budget scope node s = some (r, s') →
      ∀ id inner, s.world.store.scope? id = some inner →
        ∃ inner', s'.world.store.scope? id = some inner' ∧
          (id ≠ scope → inner'.names = inner.names) ∧
          ∃ added, inner'.names = inner.names ++ added ∧ ∀ name ∈ added, node.Declares name) ∧
    ∀ scope callee values span s r s',
      applyValue config (callClosure config budget) scope callee values span s = some (r, s') →
      ∀ id inner, s.world.store.scope? id = some inner →
        ∃ inner', s'.world.store.scope? id = some inner' ∧ inner'.names = inner.names := by
  constructor
  · intro scope node s r s' hrun id inner hid
    obtain ⟨inner', added, hid', hnames, hadded⟩ :=
      (evaluateWithin_gains hhost budget scope node s r s' hrun).1 id inner hid
    refine ⟨inner', hid', fun hother => ?_, added, hnames, fun name h => (hadded name h).2⟩
    have hnone : added = [] :=
      List.eq_nil_iff_forall_not_mem.mpr fun name h => hother (hadded name h).1
    rw [hnames, hnone, List.append_nil]
  · intro scope callee values span s r s' hrun id inner hid
    obtain ⟨inner', added, hid', hnames, hadded⟩ :=
      (applyValue_gains hhost (callClosure_gains hhost budget) scope callee values span s r s'
        hrun).1 id inner hid
    have hnone : added = [] := List.eq_nil_iff_forall_not_mem.mpr hadded
    exact ⟨inner', hid', by rw [hnames, hnone, List.append_nil]⟩

theorem globalSession_declaresNothing (policy : Policy) :
    (globalSession policy).host.DeclaresNothing := by
  intro function h values scope world
  rcases globalSession_functions h with rfl | rfl
  · exact .refl world.store
  · exact .refl world.store

/-- A session with a scope inside its global scope. -/
def nestedSession : Session := ((globalSession .default).newScope (some 0)).2

/-- `fn f(p) { let hidden = p }  f(true)  if true { let branch = null }  missing`. -/
def scopedDeclarations : Node :=
  .program
    [.function "f" ["p"]
        [.declaration false "hidden" (some (.identifier "p" .dummy)) .dummy] .dummy,
      .call (.identifier "f" .dummy) [.identifier "true" .dummy] .dummy,
      .conditional (.identifier "true" .dummy)
        [.declaration false "branch" (some (.identifier "null" .dummy)) .dummy] none .dummy,
      .identifier "missing" .dummy] .dummy

/-- In the inner scope the function and the variable of the branch are declared before the
evaluation fails, but neither the parameter of the function nor the variable of its body; the
global scope has the names that it had. -/
theorem declarations_stay_nested :
    nestedSession.config.host.DeclaresNothing ∧
    ∃ failure s', evaluateWithin nestedSession.config 1 1 scopedDeclarations nestedSession.state =
        some (.error failure, s') ∧
      failure.fault = .undefinedVariable "missing" ∧
      s'.world.store.names 0 = nestedSession.store.names 0 ∧
      s'.world.store.names 1 = ["f", "branch"] ∧
      ∀ name ∈ ["f", "branch"], scopedDeclarations.Declares name := by
  have hhost : nestedSession.config.host.DeclaresNothing := globalSession_declaresNothing .default
  have hrun : Run.failure? (evaluateWithin nestedSession.config 1 1 scopedDeclarations
      nestedSession.state) = some { fault := .undefinedVariable "missing" } := by
    decide +kernel
  have hnames : (evaluateWithin nestedSession.config 1 1 scopedDeclarations
      nestedSession.state).map (fun p => p.2.world.store.names 1) = some ["f", "branch"] := by
    decide +kernel
  obtain ⟨s', h⟩ := Run.failure?_eq_some.mp hrun
  rw [h] at hnames
  replace hnames : s'.world.store.names 1 = ["f", "branch"] := Option.some.inj hnames
  obtain ⟨hevaluate, -⟩ := declarations_stay nestedSession.config hhost 1
  obtain ⟨globals, hglobals, hsame, -⟩ := hevaluate 1 _ _ _ s' h 0 _ rfl
  obtain ⟨inner, hinner, -, added, hgained, hadded⟩ := hevaluate 1 _ _ _ s' h 1 ⟨[], some 0⟩ rfl
  refine ⟨hhost, _, s', h, rfl, ?_, hnames, ?_⟩
  · simp only [Store.names, hglobals, hsame (by decide)]
    rfl
  · simp only [Store.names, hinner, hgained] at hnames
    rwa [← hnames]

end TreeScript
