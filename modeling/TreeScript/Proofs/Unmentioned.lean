import TreeScript.Proofs.Confinement

/-!
# Proofs — names that are not mentioned make no difference

A host may bind one more name in a scope, and a program that mentions the name nowhere, nor reaches
a function that does, runs as before: it ends with the same value or failure, prints the same, and
leaves the same scopes but for the one binding (`unmentioned_makes_no_difference`).

The stores of the two runs differ by the binding throughout (`Store.Extra`).  Whatever is asked or
done with another name has the same answer in both, and keeps the difference.  That the runs ask for
no other names is a matter of the functions that they call; these are confined to such as do not
mention the name either (`Store.Confines`).
-/

namespace TreeScript

/-! ### Mentioned names -/

/-- The names that a tree mentions: the variables that are read, assigned or declared in it, the
short entries of its object literals, and the names and parameters of its functions. -/
def Node.names (node : Node) : List String :=
  node.ownNames ++ node.parts.attach.flatMap fun part => part.1.names
termination_by node
decreasing_by exact sizeOf_lt_of_mem_parts part.2

theorem Node.mem_names {x : String} {node : Node} :
    x ∈ node.names ↔ x ∈ node.ownNames ∨ ∃ part ∈ node.parts, x ∈ part.names := by
  rw [names]
  simp

/-- The names that a function mentions: its parameters, and what its body mentions. -/
def Closure.names (closure : Closure) : List String :=
  closure.parameters ++ closure.body.flatMap Node.names

theorem Closure.mem_names {x : String} {closure : Closure} :
    x ∈ closure.names ↔ x ∈ closure.parameters ∨ ∃ node ∈ closure.body, x ∈ node.names := by
  simp [names]

/-! ### One more binding -/

section Extra

variable {b : Binding} {name : String}

/-- The second scope has the binding `b` beyond those of the first. -/
inductive Scope.Extra (b : Binding) : Scope → Scope → Prop where
  | intro (before after : List Binding) (parent : Option ScopeId) :
      Extra b ⟨before ++ after, parent⟩ ⟨before ++ b :: after, parent⟩

theorem Scope.extra_add (scope : Scope) (b : Binding) : scope.Extra b (scope.add b) := by
  simpa [add] using Extra.intro (b := b) scope.bindings [] scope.parent

namespace Scope.Extra

variable {scope scope' : Scope}

theorem find? (h : scope.Extra b scope') (hname : name ≠ b.name) :
    scope'.find? name = scope.find? name := by
  obtain ⟨before, after, parent⟩ := h
  simp [Scope.find?, List.find?_append, hname.symm]

theorem add (h : scope.Extra b scope') (binding : Binding) :
    (scope.add binding).Extra b (scope'.add binding) := by
  obtain ⟨before, after, parent⟩ := h
  simpa [Scope.add] using intro before (after ++ [binding]) parent

theorem setValue (h : scope.Extra b scope') (hname : name ≠ b.name) (v : Value) :
    (scope.setValue name v).Extra b (scope'.setValue name v) := by
  obtain ⟨before, after, parent⟩ := h
  simp only [Scope.setValue, List.map_append, List.map_cons, beq_eq_false_iff_ne.mpr hname.symm]
  exact intro _ _ parent

end Scope.Extra

/-- The second store has the binding `b` in the scope `home` beyond those of the first. -/
structure Store.Extra (home : ScopeId) (b : Binding) (σ τ : Store) : Prop where
  size : τ.scopes.size = σ.scopes.size
  others {id : ScopeId} : id ≠ home → τ.scope? id = σ.scope? id
  there : ∃ scope scope', σ.scope? home = some scope ∧ τ.scope? home = some scope' ∧
    scope.Extra b scope'

namespace Store

/-- A declaration makes one more binding. -/
theorem extra_declare {store store' : Store} {home : ScopeId} (hhome : home < store.scopes.size)
    {x : String} {v : Value} {mutability : Mutability}
    (h : store.declare home x v mutability = .ok store') :
    store.Extra home ⟨x, v, mutability⟩ store' := by
  obtain ⟨-, rfl⟩ := declare_eq_ok h
  refine ⟨Array.size_modify, fun hid => by rw [scope?_modify, if_neg hid], ?_⟩
  have hscope : store.scope? home = some store.scopes[home] := Array.getElem?_eq_getElem hhome
  refine ⟨_, _, hscope, ?_, store.scopes[home].extra_add ⟨x, v, mutability⟩⟩
  rw [scope?_modify, if_pos rfl, hscope, Option.map_some]

namespace Extra

variable {home : ScopeId} {σ τ : Store}

/-- A scope is the same in both stores, or has the binding in one. -/
theorem scope? (h : σ.Extra home b τ) (id : ScopeId) :
    τ.scope? id = σ.scope? id ∨ ∃ scope scope', σ.scope? id = some scope ∧
      τ.scope? id = some scope' ∧ scope.Extra b scope' := by
  by_cases hid : id = home
  · exact .inr (hid ▸ h.there)
  · exact .inl (h.others hid)

/-- The extra binding moves no scope. -/
theorem parent? (h : σ.Extra home b τ) (id : ScopeId) : τ.parent? id = σ.parent? id := by
  rcases h.scope? id with heq | ⟨scope, scope', hs, ht, ⟨⟩⟩
  · rw [Store.parent?, Store.parent?, heq]
  · rw [Store.parent?, Store.parent?, hs, ht]
    rfl

/-- Any other name is bound alike by each scope. -/
theorem find? (h : σ.Extra home b τ) (hname : name ≠ b.name) (id : ScopeId) :
    (τ.scope? id).bind (·.find? name) = (σ.scope? id).bind (·.find? name) := by
  rcases h.scope? id with heq | ⟨scope, scope', hs, ht, hextra⟩
  · rw [heq]
  · rw [hs, ht, Option.bind_some, Option.bind_some, hextra.find? hname]

/-- Scopes bind the same other names. -/
theorem binds (h : σ.Extra home b τ) (hname : name ≠ b.name) (id : ScopeId) :
    τ.binds id name = σ.binds id name := by
  rcases h.scope? id with heq | ⟨scope, scope', hs, ht, hextra⟩
  · rw [Store.binds, Store.binds, heq]
  · rw [Store.binds, Store.binds, hs, ht, Option.any_some, Option.any_some, Scope.binds,
      Scope.binds, hextra.find? hname]

/-- So other names are resolved to the same scopes. -/
theorem resolve? (h : σ.Extra home b τ) (hname : name ≠ b.name) (id : ScopeId) :
    τ.resolve? id name = σ.resolve? id name := by
  rw [Store.resolve?, Store.resolve?, chain_congr fun k _ => h.parent? k]
  exact List.find?_congr fun k _ => h.binds hname k

theorem binding? (h : σ.Extra home b τ) (hname : name ≠ b.name) (id : ScopeId) :
    τ.binding? id name = σ.binding? id name := by
  rw [Store.binding?, Store.binding?, h.resolve? hname]
  exact Option.bind_congr fun owner _ => h.find? hname owner

/-- And they have the same values. -/
theorem lookup (h : σ.Extra home b τ) (hname : name ≠ b.name) (id : ScopeId) :
    τ.lookup id name = σ.lookup id name := by
  rw [Store.lookup, Store.lookup, h.binding? hname]

/-- Changing a scope alike on both sides leaves the binding the only extra one. -/
theorem modify (h : σ.Extra home b τ) (id : ScopeId) {f : Scope → Scope}
    (hf : ∀ scope scope', scope.Extra b scope' → (f scope).Extra b (f scope')) :
    Store.Extra home b ⟨σ.scopes.modify id f⟩ ⟨τ.scopes.modify id f⟩ where
  size := by rw [Array.size_modify, Array.size_modify, h.size]
  others hid := by rw [scope?_modify, scope?_modify, h.others hid]
  there := by
    obtain ⟨scope, scope', hs, ht, hextra⟩ := h.there
    rw [scope?_modify, scope?_modify, hs, ht]
    split
    · exact ⟨_, _, rfl, rfl, hf _ _ hextra⟩
    · exact ⟨_, _, rfl, rfl, hextra⟩

theorem push (h : σ.Extra home b τ) (new : Scope) :
    Store.Extra home b ⟨σ.scopes.push new⟩ ⟨τ.scopes.push new⟩ where
  size := by rw [Array.size_push, Array.size_push, h.size]
  others hid := by rw [scope?_push, scope?_push, h.size, h.others hid]
  there := by
    obtain ⟨scope, scope', hs, ht, hextra⟩ := h.there
    obtain ⟨hlt, -⟩ := Array.getElem?_eq_some_iff.mp hs
    rw [scope?_push, scope?_push, h.size, if_neg hlt.ne, if_neg hlt.ne]
    exact ⟨scope, scope', hs, ht, hextra⟩

/-- Another name is refused in both stores, or declared in both. -/
theorem declare (h : σ.Extra home b τ) (hname : name ≠ b.name) (id : ScopeId) (v : Value)
    (mutability : Mutability) :
    (∃ fault, σ.declare id name v mutability = .error fault ∧
        τ.declare id name v mutability = .error fault) ∨
      ∃ σ' τ', σ.declare id name v mutability = .ok σ' ∧ τ.declare id name v mutability = .ok τ' ∧
        σ'.Extra home b τ' := by
  rw [Store.declare, Store.declare, h.binds hname]
  split
  · exact .inl ⟨_, rfl, rfl⟩
  · exact .inr ⟨_, _, rfl, rfl, h.modify id fun _ _ hextra => hextra.add _⟩

/-- Another name is refused in both stores, or assigned to in both. -/
theorem assign (h : σ.Extra home b τ) (hname : name ≠ b.name) (id : ScopeId) (v : Value) :
    (∃ fault, σ.assign id name v = .error fault ∧ τ.assign id name v = .error fault) ∨
      ∃ σ' τ', σ.assign id name v = .ok σ' ∧ τ.assign id name v = .ok τ' ∧
        σ'.Extra home b τ' := by
  rw [Store.assign, Store.assign, h.resolve? hname, h.binding? hname]
  split
  · split
    · exact .inl ⟨_, rfl, rfl⟩
    · exact .inr ⟨_, _, rfl, rfl, h.modify _ fun _ _ hextra => hextra.setValue hname v⟩
  · exact .inl ⟨_, rfl, rfl⟩

end Extra

end Store

end Extra

/-! ### Functions of the host that do not look names up -/

/-- The function takes no notice of the binding `b` in the scope `home`: with it and without it, it
yields the same, prints the same, and does the same to the clock and to the scopes. -/
def HostFunction.Overlooks (home : ScopeId) (b : Binding) (function : HostFunction) : Prop :=
  ∀ (values : List Value) (scope : ScopeId) (world : World) (τ : Store),
    world.store.Extra home b τ →
      (function values scope { world with store := τ }).1 = (function values scope world).1 ∧
      (function values scope { world with store := τ }).2.output =
        (function values scope world).2.output ∧
      (function values scope { world with store := τ }).2.clock =
        (function values scope world).2.clock ∧
      (function values scope world).2.store.Extra home b
        (function values scope { world with store := τ }).2.store

theorem HostFunction.print_overlooks (home : ScopeId) (b : Binding) (sink : Sink) :
    (print sink).Overlooks home b :=
  fun _ _ _ _ h => ⟨rfl, rfl, rfl, h⟩

theorem HostFunction.time_overlooks (home : ScopeId) (b : Binding) : time.Overlooks home b :=
  fun _ _ _ _ h => ⟨rfl, rfl, rfl, h⟩

/-- All functions of the host take no notice of the binding. -/
def Host.Overlooks (home : ScopeId) (b : Binding) (host : Host) : Prop :=
  ∀ function ∈ host.functions, function.Overlooks home b

/-- So does every native of theirs, also one that the host does not know. -/
theorem Host.Overlooks.call {host : Host} {home : ScopeId} {b : Binding}
    (h : host.Overlooks home b) (native : Native) :
    HostFunction.Overlooks home b (host.call native) := by
  intro values scope world τ hextra
  simp only [Host.call]
  split
  · exact h _ (Array.mem_of_getElem? ‹_›) values scope world τ hextra
  · exact ⟨rfl, rfl, rfl, hextra⟩

theorem globalSession_overlooks (policy : Policy) (home : ScopeId) (b : Binding) :
    (globalSession policy).host.Overlooks home b := by
  intro function h
  rcases globalSession_functions h with rfl | rfl
  · exact HostFunction.print_overlooks home b .buffer
  · exact HostFunction.time_overlooks home b

/-! ### The invariant of two runs -/

section Runs

variable {home : ScopeId} {b : Binding} {T : ScopeId → Prop} {s t : State}

/-- The closure was declared in a scope of `T` and does not mention the name. -/
def Closure.Avoids (T : ScopeId → Prop) (x : String) (closure : Closure) : Prop :=
  T closure.scope ∧ x ∉ closure.names

/-- The run in `t` has the binding `b` in the scope `home` beyond what the run in `s` has, and that
is confined to closures which do not mention its name. -/
structure Extended (home : ScopeId) (b : Binding) (T : ScopeId → Prop) (s t : State) : Prop where
  stack : t.stack = s.stack
  output : t.world.output = s.world.output
  clock : t.world.clock = s.world.clock
  store : s.world.store.Extra home b t.world.store
  confines : s.world.store.Confines T (Closure.Avoids T b.name)

/-- A declaration, of a name that no function mentions which is reached from `env`, is the start of
such runs. -/
theorem Extended.start {env : ScopeId} {x : String} {v : Value} {mutability : Mutability}
    {store : Store} (hhome : home < s.world.store.scopes.size)
    (hdeclare : s.world.store.declare home x v mutability = .ok store)
    (hreached : ∀ id scope binding closure, s.world.store.Reaches env id →
      s.world.store.scope? id = some scope → binding ∈ scope.bindings →
        binding.value.Contains closure → x ∉ closure.names) :
    Extended home ⟨x, v, mutability⟩ (s.world.store.Accessible env) s
      ⟨⟨store, s.world.output, s.world.clock⟩, s.stack⟩ where
  stack := rfl
  output := rfl
  clock := rfl
  store := Store.extra_declare hhome hdeclare
  confines := Store.confines_accessible fun id scope binding closure hid hscope hb hc =>
    ⟨.inl (.step hid hscope (.captured hb hc)), hreached id scope binding closure hid hscope hb hc⟩

/-- One of the two runs has the binding beyond what the other has; the index says which. -/
def Differ (home : ScopeId) (b : Binding) (T : ScopeId → Prop) : Bool → State → State → Prop
  | false, s, t => Extended home b T s t
  | true, s, t => Extended home b T t s

/-- A change of the store that keeps the extra binding and the confinement. -/
theorem Differ.update {w : Bool} {change : Store → Except Fault Store}
    (hextra : ∀ σ τ, σ.Extra home b τ →
      (∃ fault, change σ = .error fault ∧ change τ = .error fault) ∨
        ∃ σ' τ', change σ = .ok σ' ∧ change τ = .ok τ' ∧ σ'.Extra home b τ')
    (hconfines : ∀ σ σ', σ.Confines T (Closure.Avoids T b.name) → change σ = .ok σ' →
      σ'.Confines T (Closure.Avoids T b.name)) :
    Run.Follows Eq (Differ home b T) Unit w (fun _ _ _ => True)
      (Run.update change) (Run.update change) := by
  refine .update rfl fun s t h => ?_
  cases w with
  | false =>
      rcases hextra _ _ h.store with hfault | ⟨σ, τ, hs, ht, hστ⟩
      · exact .inl hfault
      · exact .inr ⟨false, σ, τ, rfl, hs, ht, h.stack, h.output, h.clock, hστ,
          hconfines _ _ h.confines hs⟩
  | true =>
      rcases hextra _ _ h.store with ⟨fault, ht, hs⟩ | ⟨τ, σ, ht, hs, hτσ⟩
      · exact .inl ⟨fault, hs, ht⟩
      · exact .inr ⟨true, σ, τ, rfl, hs, ht, h.stack, h.output, h.clock, hτσ,
          hconfines _ _ h.confines ht⟩

/-- Creating a scope inside one of `T` in both runs. -/
theorem Extended.push (h : Extended home b T s t) {parent : ScopeId} (hparent : T parent) :
    Extended home b T
      ⟨⟨⟨s.world.store.scopes.push ⟨[], some parent⟩⟩, s.world.output, s.world.clock⟩, s.stack⟩
      ⟨⟨⟨t.world.store.scopes.push ⟨[], some parent⟩⟩, t.world.output, t.world.clock⟩,
        t.stack⟩ where
  stack := h.stack
  output := h.output
  clock := h.clock
  store := h.store.push _
  confines := h.confines.push hparent

/-- Calling a native in both runs. -/
theorem Extended.call (h : Extended home b T s t) {function : HostFunction}
    (hconfined : function.Confined) (hover : function.Overlooks home b) {scope : ScopeId}
    (hscope : T scope) {values : List Value}
    (hvalues : ∀ v ∈ values, ∀ c, v.Contains c → c.Avoids T b.name) :
    (function values scope t.world).1 = (function values scope s.world).1 ∧
      (∀ v, (function values scope s.world).1 = .ok v → ∀ c, v.Contains c → c.Avoids T b.name) ∧
      Extended home b T ⟨(function values scope s.world).2, s.stack⟩
        ⟨(function values scope t.world).2, t.stack⟩ := by
  obtain ⟨⟨σ, output, clock⟩, stack⟩ := s
  obtain ⟨⟨τ, output', clock'⟩, stack'⟩ := t
  obtain ⟨rfl, rfl, rfl, hextra, hconfines⟩ := h
  obtain ⟨hconfines', hresult⟩ :=
    hconfined T _ values scope ⟨σ, output', clock'⟩ (fun _ hc => hc.1) hconfines hscope hvalues
  obtain ⟨heq, houtput, hclock, hextra'⟩ := hover values scope ⟨σ, output', clock'⟩ τ hextra
  exact ⟨heq, hresult, rfl, houtput, hclock, hextra', hconfines'⟩

/-- **The runs differ by the binding throughout**, as long as they evaluate nodes that do not
mention its name. -/
theorem Differ.accord {config : Config} (hconfined : config.host.Confined)
    (hover : config.host.Overlooks home b) (T : ScopeId → Prop) :
    Accord config Eq (Differ home b T) (fun _ => Closure.Avoids T b.name)
      (fun _ scope name => T scope ∧ name ≠ b.name)
      (fun _ scope node => T scope ∧ b.name ∉ node.names) where
  refl _ := rfl
  trans _ _ _ := Eq.trans
  same
    | false, _, _, h => h.stack.symm
    | true, _, _, h => h.stack
  any
    | false, _, _, _, h => { h with stack := rfl }
    | true, _, _, _, h => { h with stack := rfl }
  closure_mono _ h := h
  name_mono _ h := h
  node_mono _ h := h
  parts h _ part hpart := ⟨h.1, fun hx => h.2 (Node.mem_names.mpr (.inr ⟨part, hpart, hx⟩))⟩
  names h name hname := ⟨h.1, fun hx => h.2 (Node.mem_names.mpr (.inl (hx ▸ hname)))⟩
  closure := by
    rintro _ scope name parameters body span _ ⟨hscope, hnode⟩
    refine ⟨hscope, fun hx => hnode (Node.mem_names.mpr ?_)⟩
    exact (Closure.mem_names.mp hx).imp (List.mem_cons_of_mem name) id
  lookup := by
    rintro (_ | _) scope name s t ⟨hscope, hname⟩ h
    · exact ⟨h.store.lookup hname scope,
        fun v hv => h.confines.lookup (fun _ hc => hc.1) hscope hv⟩
    · have heq := h.store.lookup hname scope
      exact ⟨heq.symm, fun v hv => h.confines.lookup (fun _ hc => hc.1) hscope (heq ▸ hv)⟩
  declare mutability hM hv :=
    Differ.update (fun _ _ h => h.declare hM.2 _ _ mutability) fun _ _ h hd => h.declare hv hd
  assign hM hv := Differ.update (fun _ _ h => h.assign hM.2 _ _) fun _ _ h ha => h.assign hv ha
  newScope := by
    rintro w closure ⟨hscope, hclosure⟩ s t h r s' ⟨⟩
    obtain ⟨hparameters, hbody⟩ := not_or.mp (mt Closure.mem_names.mpr hclosure)
    have names : ∀ {id}, T id → (∀ name ∈ closure.parameters, T id ∧ name ≠ b.name) ∧
        ∀ node ∈ closure.body, T id ∧ b.name ∉ node.names := fun hid =>
      ⟨fun name hname => ⟨hid, fun hx => hparameters (hx ▸ hname)⟩,
        fun node hnode => ⟨hid, fun hx => hbody ⟨node, hnode, hx⟩⟩⟩
    cases w with
    | false =>
        have hnew := h.confines.unused le_rfl
        exact ⟨false, _, _, rfl, rfl, h.push hscope, .ok ⟨h.store.size.symm, names hnew⟩⟩
    | true =>
        have hnew := h.confines.unused h.store.size.ge
        exact ⟨true, _, _, rfl, rfl, h.push hscope, .ok ⟨h.store.size, names hnew⟩⟩
  native := by
    rintro w scope node native values ⟨hscope, -⟩ hvalues
    have call {s t : State} (h : Extended home b T s t) :=
      h.call (hconfined.call native) (hover.call native) hscope hvalues
    refine .act fun s t h => ?_
    cases w with
    | false =>
        obtain ⟨heq, hK, h'⟩ := call h
        exact ⟨false, rfl, heq, h', fun v hv => ⟨rfl, hK v hv⟩⟩
    | true =>
        obtain ⟨heq, hK, h'⟩ := call h
        exact ⟨true, rfl, heq.symm, h', fun v hv => ⟨rfl, hK v (heq ▸ hv)⟩⟩

/-- An evaluation that ends does so in lockstep with that from any state that differs by the
binding. -/
theorem evaluateWithin_differ {config : Config} (hconfined : config.host.Confined)
    (hover : config.host.Overlooks home b) {scope : ScopeId} (hscope : T scope) {node : Node}
    (hnode : b.name ∉ node.names) {w : Bool} {budget : Nat} {s' : State}
    {r : Except Failure Value} (h : Differ home b T w s t)
    (hrun : evaluateWithin config budget scope node s = some (r, s')) :
    ∃ t', evaluateWithin config budget scope node t = some (r, t') ∧
      Differ home b T w s' t' := by
  obtain ⟨_, r', t', rfl, ht, h', hr⟩ :=
    (Differ.accord hconfined hover T).evaluateWithin le_rfl ⟨hscope, hnode⟩ s t h r s' hrun
  cases hr.eq fun _ _ hv => hv.1
  exact ⟨t', ht, h'⟩

end Runs

/-- **A name that is not mentioned makes no difference**, whatever it is bound to.  Let the name be
declared in any scope, as it may because the scope does not bind it.  If neither the node nor any
function that is reached from the scope of the evaluation mentions it, the evaluation does not end
either, or it ends with the same value or failure, in the same live calls, with the same printed
and the clock the same, and with the same scopes but for the one binding. -/
theorem unmentioned_makes_no_difference (config : Config) (budget : Nat) (env home : ScopeId)
    (node : Node) (x : String) (v : Value) (mutability : Mutability) (s : State) (store : Store)
    (hconfined : config.host.Confined) (hover : config.host.Overlooks home ⟨x, v, mutability⟩)
    (hhome : home < s.world.store.scopes.size)
    (hdeclare : s.world.store.declare home x v mutability = .ok store)
    (hnode : x ∉ node.names)
    (hreached : ∀ id scope binding closure, s.world.store.Reaches env id →
      s.world.store.scope? id = some scope → binding ∈ scope.bindings →
        binding.value.Contains closure → x ∉ closure.names) :
    let t : State := ⟨⟨store, s.world.output, s.world.clock⟩, s.stack⟩
    (evaluateWithin config budget env node s = none ∧
      evaluateWithin config budget env node t = none) ∨
    ∃ r s' t',
      evaluateWithin config budget env node s = some (r, s') ∧
      evaluateWithin config budget env node t = some (r, t') ∧
      t'.stack = s'.stack ∧ t'.world.output = s'.world.output ∧
      t'.world.clock = s'.world.clock ∧
      s'.world.store.Extra home ⟨x, v, mutability⟩ t'.world.store := by
  intro t
  have start := Extended.start hhome hdeclare hreached
  cases hs : evaluateWithin config budget env node s with
  | none =>
      cases ht : evaluateWithin config budget env node t with
      | none => exact .inl ⟨rfl, rfl⟩
      | some end_ =>
          -- the run without the binding would end in lockstep with the one that has it
          obtain ⟨s', hs', -⟩ :=
            evaluateWithin_differ hconfined hover (.inl .refl) hnode (w := true) start ht
          rw [hs] at hs'
          cases hs'
  | some end_ =>
      obtain ⟨t', ht, h⟩ :=
        evaluateWithin_differ hconfined hover (.inl .refl) hnode (w := false) start hs
      exact .inr ⟨_, _, t', rfl, ht, h.stack, h.output, h.clock, h.store⟩

/-- `fn limit() { limit }`, declared in scope 2. -/
def limitClosure : Closure :=
  ⟨"limit", [], [.identifier "limit" .dummy], ⟨2, "limit"⟩, 2⟩

/-- Binding `limit` beside the `count` that `reset` assigns to, even to a function that mentions it,
makes no difference to resetting the counter. -/
theorem unmentioned_makes_no_difference_counter :
    let s := counterState ⟨[], some 0⟩ ""
    let b : Binding := ⟨"limit", .function limitClosure, .constant⟩
    let config : Config := ⟨.strict, (globalSession .strict).host⟩
    config.host.Confined ∧ config.host.Overlooks 1 b ∧
    "limit" ∉ resetCounter.names ∧ "limit" ∉ counterReset.names ∧ "limit" ∈ limitClosure.names ∧
    ∃ store r s' t', s.world.store.declare 1 b.name b.value b.mutability = .ok store ∧
      evaluateWithin config 2 0 resetCounter s = some (r, s') ∧
      evaluateWithin config 2 0 resetCounter
        ⟨⟨store, s.world.output, s.world.clock⟩, s.stack⟩ = some (r, t') ∧
      t'.world.output = s'.world.output ∧ s'.world.store.Extra 1 b t'.world.store := by
  intro s b config
  have hconfined : config.host.Confined := globalSession_confined .strict
  have hover : config.host.Overlooks 1 b := globalSession_overlooks .strict 1 b
  have hnode : resetCounter.names = ["print", "counter"] := by cbv
  have hreset : counterReset.names = ["value", "count", "value"] := by cbv
  have hlimit : limitClosure.names = ["limit"] := by cbv
  have hreached : ∀ id scope binding closure, s.world.store.Reaches 0 id →
      s.world.store.scope? id = some scope → binding ∈ scope.bindings →
        binding.value.Contains closure → closure = counterReset := by
    intro id scope binding closure hid hscope hb hc
    rcases counterState_reaches _ _ hid with rfl | rfl
    · cases hscope
      rcases List.mem_pair.mp hb with rfl | rfl
      · cases hc
      · cases hc with
        | property hp hc =>
            cases List.mem_singleton.mp hp
            cases hc
            rfl
    · cases hscope
      cases List.mem_singleton.mp hb
      cases hc
  have hends : (evaluateWithin config 2 0 resetCounter s).isSome := by decide +kernel
  have hnode : "limit" ∉ resetCounter.names := by simp [hnode]
  have hreset : "limit" ∉ counterReset.names := by simp [hreset]
  have hlimit : "limit" ∈ limitClosure.names := by simp [hlimit]
  rcases unmentioned_makes_no_difference config 2 0 1 resetCounter "limit" b.value b.mutability s _
    hconfined hover (by decide) rfl hnode
    (fun id scope binding closure hid hscope hb hc =>
      hreached id scope binding closure hid hscope hb hc ▸ hreset) with
    ⟨hnone, -⟩ | ⟨r, s', t', hs, ht, -, hout, -, hextra⟩
  · rw [hnone] at hends
    cases hends
  · exact ⟨hconfined, hover, hnode, hreset, hlimit, _, r, s', t', rfl, hs, ht, hout, hextra⟩

end TreeScript
