import Mathlib.Data.List.MinMax
import TreeScript.Proofs.Confinement
import TreeScript.Store.Dump

/-!
# Proofs — scopes follow the nesting of functions

The scope of a call lies inside the scope that the function was declared in, not inside that of the
caller.  So however deep the calls of a program go, its scopes lie no deeper inside that of the
program than functions are declared inside each other in it (`scopes_follow_nesting`).

A node *fits* into a scope when the scope, with as many more inside it as functions are nested in
the node, lies within the bound (`Fits`).  A function that fits into the scope of its declaration
has a body that fits into the scope of each call.  The run starts with a program that fits and finds
no functions, so all that it ever gets hold of fit into their scopes (`Nested`).
-/

namespace TreeScript

/-! ### Nested functions -/

namespace Node

/-- How deep functions are declared inside each other in a tree. -/
def nesting (node : Node) : Nat :=
  (node.parts.attach.map fun part => part.1.nesting).foldr max 0 +
    if node.kind = .function then 1 else 0
termination_by node
decreasing_by exact sizeOf_lt_of_mem_parts part.2

theorem nesting_eq (node : Node) :
    node.nesting =
      (node.parts.map nesting).foldr max 0 + if node.kind = .function then 1 else 0 := by
  rw [nesting]
  simp

/-- A part nests no deeper than the node. -/
theorem nesting_le_of_mem_parts {node part : Node} (h : part ∈ node.parts) :
    part.nesting ≤ node.nesting := by
  rw [nesting_eq node]
  exact Nat.le_add_right_of_le (List.le_max_of_le' 0 (List.mem_map_of_mem h) le_rfl)

theorem nesting_function (name : String) (parameters : List String) (body : List Node)
    (span : Span) :
    (function name parameters body span).nesting = (body.map nesting).foldr max 0 + 1 :=
  nesting_eq _

/-- What is in the body of a function nests less deep than the function. -/
theorem nesting_lt_of_mem_body {node : Node} {body : List Node} (h : node ∈ body) (name : String)
    (parameters : List String) (span : Span) :
    node.nesting < (function name parameters body span).nesting := by
  rw [nesting_function]
  exact Nat.lt_succ_of_le (List.le_max_of_le' 0 (List.mem_map_of_mem h) le_rfl)

end Node

/-! ### Stores with the scopes of another -/

namespace Store

/-- Every scope of the first store is there in the second, inside the same scope. -/
structure Retains (before after : Store) : Prop where
  size : before.scopes.size ≤ after.scopes.size
  parent {id : ScopeId} : id < before.scopes.size → after.parent? id = before.parent? id

/-- The two stores have the same scopes inside each other, whatever these bind. -/
structure SameScopes (before after : Store) : Prop where
  size : after.scopes.size = before.scopes.size
  parent (id : ScopeId) : after.parent? id = before.parent? id

/-- Changing a scope, but not its parent, moves no scope. -/
theorem parent?_modify (store : Store) (id k : ScopeId) {f : Scope → Scope}
    (hf : ∀ scope, (f scope).parent = scope.parent) :
    (Store.mk (store.scopes.modify id f)).parent? k = store.parent? k := by
  rw [parent?, parent?, scope?_modify]
  split
  · cases store.scope? k with
    | none => rfl
    | some scope => exact hf scope
  · rfl

/-- A new scope lies where it says, and the others where they lay. -/
theorem parent?_push (store : Store) (scope : Scope) (k : ScopeId) :
    (Store.mk (store.scopes.push scope)).parent? k =
      if k = store.scopes.size then scope.parent else store.parent? k := by
  rw [parent?, parent?, scope?_push]
  split <;> rfl

/-- A scope lies one level deeper than the scope around it. -/
theorem depth_of_parent? {store : Store} {id parent : ScopeId}
    (h : store.parent? id = some parent) (hlt : parent < id) :
    store.depth id = store.depth parent + 1 := by
  have hpos : 0 < (store.chain parent).length := by
    rw [chain]
    split
    · split <;> simp
    · simp
  rw [depth, depth, chain, h]
  simp only [if_pos hlt, List.length_cons]
  omega

namespace Retains

variable {a b c : Store} {id : ScopeId}

theorem refl (store : Store) : store.Retains store := ⟨le_rfl, fun _ => rfl⟩

theorem trans (h₁ : a.Retains b) (h₂ : b.Retains c) : a.Retains c :=
  ⟨h₁.size.trans h₂.size, fun hid => (h₂.parent (hid.trans_le h₁.size)).trans (h₁.parent hid)⟩

/-- A scope that is retained lies as deep as before. -/
theorem depth (h : a.Retains b) (hid : id < a.scopes.size) : b.depth id = a.depth id := by
  rw [Store.depth, Store.depth, chain_congr fun k hk => h.parent (hk.trans_lt hid)]

theorem push (store : Store) (scope : Scope) : store.Retains ⟨store.scopes.push scope⟩ where
  size := by rw [Array.size_push]; omega
  parent hid := by rw [parent?_push, if_neg hid.ne]

end Retains

namespace SameScopes

variable {a b : Store} {id : ScopeId} {name : String} {v : Value}

theorem refl (store : Store) : store.SameScopes store := ⟨rfl, fun _ => rfl⟩

theorem retains (h : a.SameScopes b) : a.Retains b := ⟨h.size.ge, fun _ => h.parent _⟩

/-- A declaration moves no scope. -/
theorem declare {mutability : Mutability} (h : a.declare id name v mutability = .ok b) :
    a.SameScopes b := by
  obtain ⟨-, rfl⟩ := declare_eq_ok h
  exact ⟨Array.size_modify, fun k => parent?_modify a id k fun _ => rfl⟩

/-- Neither does an assignment. -/
theorem assign (h : a.assign id name v = .ok b) : a.SameScopes b := by
  obtain ⟨owner, _, _, -, -, -, -, rfl⟩ := assign_eq_ok h
  exact ⟨Array.size_modify, fun k => parent?_modify a owner k fun _ => rfl⟩

end SameScopes

end Store

/-! ### Functions of the host that create no scopes -/

/-- The function leaves the scopes where they are, and creates none. -/
def HostFunction.KeepsScopes (function : HostFunction) : Prop :=
  ∀ (values : List Value) (scope : ScopeId) (world : World),
    world.store.SameScopes (function values scope world).2.store

/-- No function of the host creates scopes. -/
def Host.KeepsScopes (host : Host) : Prop := ∀ function ∈ host.functions, function.KeepsScopes

theorem Host.KeepsScopes.call {host : Host} (h : host.KeepsScopes) (native : Native) :
    HostFunction.KeepsScopes (host.call native) := by
  intro values scope world
  simp only [Host.call]
  split
  · exact h _ (Array.mem_of_getElem? ‹_›) values scope world
  · exact .refl _

theorem globalSession_keepsScopes (policy : Policy) : (globalSession policy).host.KeepsScopes := by
  intro function h
  rcases globalSession_functions h with rfl | rfl <;> exact fun _ _ _ => .refl _

/-! ### The invariant of a run -/

section Run

variable {origin : Store} {env : ScopeId} {bound : Nat} {store store' : Store} {scope : ScopeId}

/-- The scope is `env`, or was created since `origin`; and as many scopes as functions are nested in
the node can still lie inside it, within the bound. -/
structure Fits (origin : Store) (env : ScopeId) (bound : Nat) (store : Store) (scope : ScopeId)
    (node : Node) : Prop where
  place : scope = env ∨ origin.scopes.size ≤ scope
  lt : scope < store.scopes.size
  depth : store.depth scope + node.nesting ≤ bound

/-- The closure was declared by a node that fits. -/
def Admits (origin : Store) (env : ScopeId) (bound : Nat) (store : Store) (closure : Closure) :
    Prop :=
  Fits origin env bound store closure.scope
    (.function closure.name closure.parameters closure.body .dummy)

theorem Fits.mono {node : Node} (h : Fits origin env bound store scope node)
    (hretains : store.Retains store') : Fits origin env bound store' scope node where
  place := h.place
  lt := h.lt.trans_le hretains.size
  depth := by rw [hretains.depth h.lt]; exact h.depth

theorem Fits.accessible {node : Node} (h : Fits origin env bound store scope node) :
    origin.Accessible env scope := by
  rcases h.place with rfl | hnew
  · exact .inl .refl
  · exact .inr hnew

/-- The run that started with `origin` has come to `store`.  All closures that it can get hold of
are admitted; and each scope that it has created lies inside `env` or one created before, within the
bound. -/
structure Nested (origin : Store) (env : ScopeId) (bound : Nat) (store : Store) : Prop where
  retains : origin.Retains store
  confines : store.Confines (origin.Accessible env) (Admits origin env bound store)
  created {id : ScopeId} : origin.scopes.size ≤ id → id < store.scopes.size →
    ∃ parent, store.parent? id = some parent ∧
      (parent = env ∨ origin.scopes.size ≤ parent ∧ parent < id) ∧ store.depth id ≤ bound

namespace Nested

/-- A change that creates no scopes. -/
theorem change (h : Nested origin env bound store) (hsame : store.SameScopes store')
    (hconfines : store'.Confines (origin.Accessible env) (Admits origin env bound store)) :
    Nested origin env bound store' where
  retains := h.retains.trans hsame.retains
  confines := hconfines.mono fun _ hc => hc.mono hsame.retains
  created hnew hlt := by
    rw [hsame.size] at hlt
    rw [hsame.parent, hsame.retains.depth hlt]
    exact h.created hnew hlt

/-- The scope of a call of an admitted closure, into which its body fits. -/
theorem push (h : Nested origin env bound store) {closure : Closure}
    (hclosure : Admits origin env bound store closure) :
    Nested origin env bound ⟨store.scopes.push ⟨[], some closure.scope⟩⟩ ∧
      ∀ node ∈ closure.body, Fits origin env bound
        ⟨store.scopes.push ⟨[], some closure.scope⟩⟩ store.scopes.size node := by
  have hretains := Store.Retains.push store ⟨[], some closure.scope⟩
  have hparent := store.parent?_push ⟨[], some closure.scope⟩ store.scopes.size
  rw [if_pos rfl] at hparent
  -- the new scope is one deeper than that of the declaration, whoever calls
  have hdepth := Store.depth_of_parent? hparent hclosure.lt
  rw [hretains.depth hclosure.lt] at hdepth
  have hroom := hclosure.depth
  constructor
  · refine ⟨h.retains.trans hretains, ?_, fun {id} hnew hlt => ?_⟩
    · exact (h.confines.push hclosure.accessible).mono fun _ hc => hc.mono hretains
    · by_cases hid : id < store.scopes.size
      · rw [hretains.parent hid, hretains.depth hid]
        exact h.created hnew hid
      · rw [Array.size_push] at hlt
        obtain rfl : id = store.scopes.size := Nat.eq_of_lt_succ_of_not_lt hlt hid
        rw [Node.nesting_function] at hroom
        refine ⟨closure.scope, hparent, ?_, by omega⟩
        exact hclosure.place.imp_right fun hplace => ⟨hplace, hclosure.lt⟩
  · intro node hnode
    have hlt := Node.nesting_lt_of_mem_body hnode closure.name closure.parameters .dummy
    exact ⟨.inr h.retains.size, by simp, by omega⟩

/-- The two runs are one, in a state with nested scopes; the index is the store. -/
def Holds (origin : Store) (env : ScopeId) (bound : Nat) (store : Store) (s t : State) : Prop :=
  s = t ∧ s.world.store = store ∧ Nested origin env bound store

/-- A change of the store that creates no scopes and binds no closures but admitted ones. -/
theorem update {change : Store → Except Fault Store}
    (hsame : ∀ store', change store = .ok store' → store.SameScopes store')
    (hconfines : ∀ store', change store = .ok store' →
      store.Confines (origin.Accessible env) (Admits origin env bound store) →
        store'.Confines (origin.Accessible env) (Admits origin env bound store)) :
    Run.Follows Store.Retains (Holds origin env bound) Unit store (fun _ _ _ => True)
      (Run.update change) (Run.update change) := by
  refine .update (.refl store) ?_
  rintro s _ ⟨rfl, rfl, h⟩
  cases hc : change s.world.store with
  | error fault => exact .inl ⟨fault, rfl, rfl⟩
  | ok store' =>
      exact .inr ⟨store', store', store', (hsame store' hc).retains, rfl, rfl, rfl, rfl,
        h.change (hsame store' hc) (hconfines store' hc h.confines)⟩

/-- **The scopes stay nested**, as long as the run evaluates nodes that fit. -/
theorem accord {config : Config} (hconfined : config.host.Confined)
    (hscopes : config.host.KeepsScopes) (origin : Store) (env : ScopeId) (bound : Nat) :
    Accord config Store.Retains (Holds origin env bound) (Admits origin env bound)
      (fun _ scope _ => origin.Accessible env scope) (Fits origin env bound) where
  refl := .refl
  trans _ _ _ h₁ h₂ := h₁.trans h₂
  same := by
    rintro _ s _ ⟨rfl, -⟩
    rfl
  any := by
    rintro _ s _ stack ⟨rfl, hstore, h⟩
    exact ⟨rfl, hstore, h⟩
  closure_mono hretains h := h.mono hretains
  name_mono _ h := h
  node_mono hretains h := h.mono hretains
  parts h _ part hpart :=
    { h with depth := (Nat.add_le_add_left (Node.nesting_le_of_mem_parts hpart) _).trans h.depth }
  names h _ _ := h.accessible
  closure := by
    intro store scope name parameters body span _ h
    have hdepth := h.depth
    rw [Node.nesting_function] at hdepth
    exact ⟨h.place, h.lt, by rwa [Node.nesting_function]⟩
  lookup := by
    rintro _ scope name s _ hscope ⟨rfl, rfl, h⟩
    exact ⟨rfl, fun v hv => h.confines.lookup (fun _ hc => hc.accessible) hscope hv⟩
  declare mutability _ hv :=
    update (fun _ hd => .declare hd) fun _ hd hconfines => hconfines.declare hv hd
  assign _ hv := update (fun _ ha => .assign ha) fun _ ha hconfines => hconfines.assign hv ha
  newScope := by
    rintro _ closure hclosure s _ ⟨rfl, rfl, h⟩ r s' ⟨⟩
    obtain ⟨h', hbody⟩ := h.push hclosure
    have hnew : origin.Accessible env s.world.store.scopes.size := .inr h.retains.size
    exact ⟨_, _, _, .push _ _, rfl, ⟨rfl, rfl, h'⟩, .ok ⟨rfl, fun _ _ => hnew, hbody⟩⟩
  native := by
    intro store scope node native values hnode hvalues
    refine .act ?_
    rintro s _ ⟨rfl, rfl, h⟩
    have hsame := hscopes.call native values scope s.world
    obtain ⟨hconfines, hresult⟩ := hconfined.call native _ _ values scope s.world
      (fun _ hc => hc.accessible) h.confines hnode.accessible hvalues
    refine ⟨_, hsame.retains, rfl, ⟨rfl, rfl, h.change hsame hconfines⟩, fun v hv => ⟨rfl, ?_⟩⟩
    exact fun c hc => (hresult v hv c hc).mono hsame.retains

end Nested

end Run

/-- **Scopes follow the nesting of functions, not the depth of calls.**  Let a node be evaluated in
a scope from which no functions are reached.  Every scope that the evaluation creates, whether it
succeeds or fails, lies inside the scope of the evaluation or inside one created before it; and the
scopes around it are at most as many as those around the scope of the evaluation, and as functions
are nested in the node, taken together. -/
theorem scopes_follow_nesting (config : Config) (hconfined : config.host.Confined)
    (hscopes : config.host.KeepsScopes) (budget : Nat) (env : ScopeId) (node : Node) (s s' : State)
    (r : Except Failure Value) (henv : env < s.world.store.scopes.size)
    (hplain : ∀ id scope binding closure, s.world.store.Reaches env id →
      s.world.store.scope? id = some scope → binding ∈ scope.bindings →
        ¬ binding.value.Contains closure)
    (hrun : evaluateWithin config budget env node s = some (r, s')) :
    ∀ id, s.world.store.scopes.size ≤ id → id < s'.world.store.scopes.size →
      ∃ parent, s'.world.store.parent? id = some parent ∧
        (parent = env ∨ s.world.store.scopes.size ≤ parent ∧ parent < id) ∧
        s'.world.store.depth id ≤ s.world.store.depth env + node.nesting := by
  let bound := s.world.store.depth env + node.nesting
  have start : Nested s.world.store env bound s.world.store := by
    refine ⟨.refl _, Store.confines_accessible ?_, fun hnew hlt => absurd hlt hnew.not_gt⟩
    exact fun id scope b c hid hscope hb hc => absurd hc (hplain id scope b c hid hscope hb)
  have fits : Fits s.world.store env bound s.world.store env node := ⟨.inl rfl, henv, le_rfl⟩
  obtain ⟨_, _, _, -, -, ⟨-, rfl, h⟩, -⟩ :=
    (Nested.accord hconfined hscopes s.world.store env bound).evaluateWithin le_rfl fits s s
      ⟨rfl, rfl, start⟩ r s' hrun
  exact fun id hnew hlt => h.created hnew hlt

/-- `fn outer() { fn inner() { outer() }  inner() }  outer()`. -/
def mutualRecursion : Node :=
  let call (name : String) : Node := .call (.identifier name .dummy) [] .dummy
  .program [.function "outer" [] [.function "inner" [] [call "outer"] .dummy, call "inner"] .dummy,
    call "outer"] .dummy

/-- No binding of a new global scope holds a function. -/
theorem globalSession_plain (policy : Policy) (id : ScopeId) (scope : Scope) (binding : Binding)
    (closure : Closure) (hscope : (globalSession policy).state.world.store.scope? id = some scope)
    (hb : binding ∈ scope.bindings) : ¬ binding.value.Contains closure := by
  obtain ⟨hlt, hscope⟩ := Array.getElem?_eq_some_iff.mp hscope
  obtain rfl : id = 0 := Nat.lt_one_iff.mp hlt
  subst hscope
  change binding ∈ Session.globalBindings ⟨"print", 0⟩ ⟨"time", 1⟩ at hb
  simp only [Session.globalBindings, List.mem_cons, List.not_mem_nil, or_false] at hb
  rcases hb with rfl | rfl | rfl | rfl | rfl <;> rintro ⟨⟩

/-- The default policy, with a limit of six live calls. -/
def sixCalls : Policy := { Policy.default with maxCallDepth := some 6 }

/-- Functions that call each other without end are stopped with six calls live and seven scopes
created, none of which has more than two scopes around it. -/
theorem scopes_follow_nesting_recursion :
    let config : Config := ⟨sixCalls, (globalSession sixCalls).host⟩
    let s := (globalSession sixCalls).state
    config.host.Confined ∧ config.host.KeepsScopes ∧ s.world.store.scopes.size = 1 ∧
    s.world.store.depth 0 = 0 ∧ mutualRecursion.nesting = 2 ∧
    ∃ failure s', evaluate config 0 mutualRecursion s = some (.error failure, s') ∧
      failure.fault = .stackOverflow 6 ∧ s'.world.store.scopes.size = 8 ∧
      ∀ id, 1 ≤ id → id < 8 → s'.world.store.depth id ≤ 2 := by
  intro config s
  have hconfined : config.host.Confined := globalSession_confined sixCalls
  have hscopes : config.host.KeepsScopes := globalSession_keepsScopes sixCalls
  have hsize : s.world.store.scopes.size = 1 := rfl
  have hdepth : s.world.store.depth 0 = 0 := by cbv
  have hnesting : mutualRecursion.nesting = 2 := by cbv
  have hend : (Run.failure? (evaluate config 0 mutualRecursion s)).map Failure.fault =
      some (.stackOverflow 6) := by
    decide +kernel
  have hsize' : (evaluate config 0 mutualRecursion s).map (fun p => p.2.world.store.scopes.size) =
      some 8 := by
    decide +kernel
  obtain ⟨failure, hfailure, hfault⟩ := Option.map_eq_some_iff.mp hend
  obtain ⟨s', hrun⟩ := Run.failure?_eq_some.mp hfailure
  rw [hrun] at hsize'
  replace hsize' : s'.world.store.scopes.size = 8 := Option.some.inj hsize'
  refine ⟨hconfined, hscopes, hsize, hdepth, hnesting, failure, s', hrun, hfault, hsize',
    fun id hnew hlt => ?_⟩
  obtain ⟨parent, -, -, hbound⟩ := scopes_follow_nesting config hconfined hscopes _ 0
    mutualRecursion s s' _ (hsize ▸ Nat.one_pos)
    (fun id scope b c _ => globalSession_plain sixCalls id scope b c) hrun id (hsize ▸ hnew)
    (hsize' ▸ hlt)
  rwa [hdepth, hnesting] at hbound

end TreeScript
