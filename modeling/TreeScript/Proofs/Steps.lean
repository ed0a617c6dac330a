import Mathlib.Logic.Relation
import TreeScript.HostFunction
import TreeScript.Proofs.Invariance

/-!
# Proofs — what a run does to the world

A run changes the world in five ways only: it declares a name, assigns to one, creates a scope,
writes, or lets the clock go on.  `World.Step` says so once, and whatever these steps keep is kept
by every evaluation (`evaluateWithin_steps`) and by every call that the host makes
(`callValue_steps`).

Functions of the host are bound to the same steps (`HostFunction.Lawful`): the host gives them
scopes to declare, assign and look names up in, sinks to write to and a clock, and nothing else.
-/

namespace TreeScript

/-! ### Longer outputs -/

/-- A text for each sink at the end of what is printed. -/
def Output.append (output text : Output) : Output :=
  ⟨output.buffer ++ text.buffer, output.console ++ text.console⟩

theorem Output.append_empty (output : Output) : output.append .empty = output := by
  simp [append, empty]

theorem Output.append_assoc (output text text' : Output) :
    (output.append text).append text' = output.append (text.append text') := by
  simp [append, String.append_assoc]

/-! ### Scopes of a changed store -/

namespace Store

/-- Changing the scope of one number leaves the others alone. -/
theorem scope?_modify (store : Store) (id k : ScopeId) (f : Scope → Scope) :
    (Store.mk (store.scopes.modify id f)).scope? k =
      if k = id then (store.scope? k).map f else store.scope? k := by
  simp only [scope?, Array.getElem?_modify, eq_comm]

/-- A new scope gets the next number. -/
theorem scope?_push (store : Store) (scope : Scope) (k : ScopeId) :
    (Store.mk (store.scopes.push scope)).scope? k =
      if k = store.scopes.size then some scope else store.scope? k := by
  simp only [scope?, Array.getElem?_push]

/-- The scopes from one outward depend on nothing but what is around each of them. -/
theorem chain_congr {σ τ : Store} {id : ScopeId} (h : ∀ k ≤ id, τ.parent? k = σ.parent? k) :
    τ.chain id = σ.chain id := by
  -- the scope around one has a smaller number
  induction id using Nat.strongRecOn with
  | _ id ih =>
      rw [chain, chain, h id (Nat.le_refl id)]
      cases σ.parent? id with
      | none => rfl
      | some parent =>
          simp only
          split
          · rename_i hlt
            rw [ih parent hlt fun k hk => h k (Nat.le_trans hk (Nat.le_of_lt hlt))]
          · rfl

/-- A declaration adds its binding to the scope it names, which did not bind the name. -/
theorem declare_eq_ok {store store' : Store} {id : ScopeId} {name : String} {value : Value}
    {mutability : Mutability} (h : store.declare id name value mutability = .ok store') :
    store.binds id name = false ∧
      store' = ⟨store.scopes.modify id (·.add ⟨name, value, mutability⟩)⟩ := by
  simp only [declare] at h
  split at h
  · cases h
  · rename_i hb
    cases h
    exact ⟨by simpa using hb, rfl⟩

/-- An assignment sets the name in the nearest scope that binds it, where it is mutable. -/
theorem assign_eq_ok {store store' : Store} {id : ScopeId} {name : String} {value : Value}
    (h : store.assign id name value = .ok store') :
    ∃ owner scope binding, store.resolve? id name = some owner ∧
      store.scope? owner = some scope ∧ scope.find? name = some binding ∧
      binding.mutability = .mutable ∧
      store' = ⟨store.scopes.modify owner (·.setValue name value)⟩ := by
  simp only [assign] at h
  split at h
  · rename_i owner binding ho hb
    simp only [binding?, ho, Option.bind_eq_bind, Option.bind_some, Option.bind_eq_some_iff] at hb
    obtain ⟨scope, hscope, hfind⟩ := hb
    split at h
    · cases h
    · rename_i hm
      cases h
      exact ⟨owner, scope, binding, ho, hscope, hfind, hm, rfl⟩
  · cases h

end Store

/-! ### Steps of the world -/

/-- One change of the world. -/
inductive World.Step : World → World → Prop where
  | declare {world : World} {id : ScopeId} {name : String} {value : Value} {mutability : Mutability}
      {store : Store} : world.store.declare id name value mutability = .ok store →
        Step world { world with store := store }
  | assign {world : World} {id : ScopeId} {name : String} {value : Value} {store : Store} :
      world.store.assign id name value = .ok store → Step world { world with store := store }
  | create (world : World) (scope : Scope) :
      Step world { world with store := ⟨world.store.scopes.push scope⟩ }
  | write (world : World) (text : String) (sink : Sink) :
      Step world { world with output := world.output.write text sink }
  | wait (world : World) (clock : Clock) : Step world { world with clock := clock }

/-- Any number of changes. -/
def World.Steps : World → World → Prop := Relation.ReflTransGen World.Step

/-- The function changes the world, if at all, by steps. -/
def HostFunction.Lawful (function : HostFunction) : Prop :=
  ∀ (values : List Value) (scope : ScopeId) (world : World),
    world.Steps (function values scope world).2

namespace HostFunction

theorem print_lawful (sink : Sink) : (print sink).Lawful := fun values _ world =>
  .single (.write world (Value.printLine values ++ "\n") sink)

theorem time_lawful : time.Lawful := fun _ _ world => .single (.wait world world.clock.tick)

theorem declare_lawful : declare.Lawful := by
  intro values scope world
  simp only [declare]
  split
  · exact .single (.declare ‹_›)
  · exact .refl

end HostFunction

/-- All functions of the host are lawful. -/
def Host.Lawful (host : Host) : Prop := ∀ function ∈ host.functions, function.Lawful

theorem Host.Lawful.call {host : Host} (h : host.Lawful) (native : Native) (values : List Value)
    (scope : ScopeId) (world : World) : world.Steps (host.call native values scope world).2 := by
  simp only [Host.call]
  split
  · exact h _ (Array.mem_of_getElem? ‹_›) values scope world
  · exact .refl

/-- Every run changes the world by steps. -/
theorem steps_pervade {config : Config} (h : config.host.Lawful) :
    Pervades config (Run.Keeps fun s s' => s.world.Steps s'.world) := by
  refine Run.keeps_pervades (fun _ => .refl) (fun _ _ _ h₁ h₂ => h₁.trans h₂) ?_ ?_ ?_ ?_ ?_
  · exact fun _ _ _ _ _ _ hd => .single (.declare hd)
  · exact fun _ _ _ _ _ ha => .single (.assign ha)
  · exact fun s native values scope => h.call native values scope s.world
  · exact fun s parent => .single (.create s.world ⟨[], parent⟩)
  · exact fun _ _ _ _ _ hs => hs

/-- Calling a value that the host holds changes the world by steps. -/
theorem callValue_steps {config : Config} (hhost : config.host.Lawful) {scope : ScopeId}
    {callee : Value} {values : List Value} {span : Span} {s s' : State} {r : Except Failure Value}
    (h : callValue config scope callee values span s = some (r, s')) : s.world.Steps s'.world :=
  ((steps_pervade hhost).applyValue ((steps_pervade hhost).callClosure _) scope callee values span
    s r s' h).1

/-- So does an evaluation. -/
theorem evaluateWithin_steps {config : Config} (hhost : config.host.Lawful) {budget : Nat}
    {scope : ScopeId} {node : Node} {s s' : State} {r : Except Failure Value}
    (h : evaluateWithin config budget scope node s = some (r, s')) : s.world.Steps s'.world :=
  ((steps_pervade hhost).evaluateWithin budget scope node s r s' h).1

end TreeScript
