import TreeScript.Proofs.Updates

/-!
# Proofs — names are resolved by a finite walk

A name is looked for in one scope after the other, along links that nothing bounds by itself: in a
scope that lay inside itself the search would go on for ever (`Store.not_search`).  Whatever a
host does, its scopes never come to lie so.  From each of them one comes outward through finitely
many scopes, none of them twice, and then there are no more; so every search ends, at the first
scope on the way that binds the name, or with the fault that there is none
(`resolution_walks_outward`).

Closures make the scopes refer to each other in circles, but a scope lies inside an older one all
the same.  For that it matters who creates scopes: one inside a scope of the host's, or a call
inside the scope that its closure was declared in.  Both exist by then, as long as closures are only
ever declared in scopes that exist (`Store.Grounded`).  A *move* is a change by one who has got hold
of such scopes and closures only (`World.Move`); one move leaves the store grounded, and evaluations
consist of moves (`World.Moves.accord`), and so does all that a host does (`Session.Reachable`).
-/

namespace TreeScript

/-! ### Walks outward -/

namespace Store

/-- The search for a name, one scope at a time, that has come to `id` ends with `result`. -/
inductive Search (store : Store) (name : String) : ScopeId → Except Fault ScopeId → Prop where
  | found {id : ScopeId} : store.binds id name = true → Search store name id (.ok id)
  | further {id parent : ScopeId} {result : Except Fault ScopeId} : store.binds id name = false →
      store.parent? id = some parent → Search store name parent result →
        Search store name id result
  | lost {id : ScopeId} : store.binds id name = false → store.parent? id = none →
      Search store name id (.error (.undefinedVariable name))

/-- The count of scopes, one at a time, that has come to `count` and to a scope, or past the
outermost one, ends with `total`. -/
inductive Climb (store : Store) : Nat → Option ScopeId → Nat → Prop where
  | further {count total : Nat} {id : ScopeId} : Climb store (count + 1) (store.parent? id) total →
      Climb store count (some id) total
  | done (count : Nat) : Climb store count none count

variable {store : Store} {id : ScopeId} {around : List ScopeId} {name : String}

/-- In a scope that lies inside itself a name that it does not bind is looked for without end. -/
theorem not_search (hparent : store.parent? id = some id) (hfree : store.binds id name = false)
    (result : Except Fault ScopeId) : ¬ store.Search name id result := by
  intro h
  induction h with
  | found hbinds => rw [hfree] at hbinds; cases hbinds
  | further _ hnext _ ih =>
      rw [hparent] at hnext
      cases hnext
      exact ih hparent hfree
  | lost _ hnone => rw [hparent] at hnone; cases hnone

/-- A search can end in one way only. -/
theorem Search.unique {result result' : Except Fault ScopeId} (h : store.Search name id result)
    (h' : store.Search name id result') : result = result' := by
  induction h with
  | found hbinds =>
      cases h' with
      | found => rfl
      | further hfree | lost hfree => rw [hfree] at hbinds; cases hbinds
  | further hfree hparent _ ih =>
      cases h' with
      | found hbinds => rw [hfree] at hbinds; cases hbinds
      | further _ hparent' h' =>
          rw [hparent] at hparent'
          cases hparent'
          exact ih h'
      | lost _ hnone => rw [hparent] at hnone; cases hnone
  | lost hfree hnone =>
      cases h' with
      | found hbinds => rw [hfree] at hbinds; cases hbinds
      | further _ hparent => rw [hparent] at hnone; cases hnone
      | lost => rfl

/-- So can a count. -/
theorem Climb.unique {count total total' : Nat} {next : Option ScopeId}
    (h : store.Climb count next total) (h' : store.Climb count next total') : total = total' := by
  induction h with
  | further _ ih =>
      cases h' with
      | further h' => exact ih h'
  | done =>
      cases h' with
      | done => rfl

namespace Outward

/-- One comes to no scope twice. -/
theorem nodup (h : store.Outward id around) (hstore : store.WellFormed) : (id :: around).Nodup := by
  induction h with
  | outermost => exact List.nodup_singleton _
  | inside hparent houtward ih =>
      refine List.nodup_cons.mpr ⟨fun hmem => ?_, ih⟩
      exact (lt (.inside hparent houtward) hstore _ hmem).false

/-- A search ends, with what the name resolves to. -/
theorem search_iff (h : store.Outward id around) (hstore : store.WellFormed)
    {result : Except Fault ScopeId} :
    store.Search name id result ↔ result = store.resolve id name := by
  have hends : store.Search name id (store.resolve id name) := by
    induction h with
    | @outermost id hparent =>
        have hchain : store.chain id = [id] := chain_eq (.outermost hparent) hstore
        rw [resolve, resolve?, hchain]
        cases hbinds : store.binds id name with
        | true => simpa [hbinds] using Search.found hbinds
        | false => simpa [hbinds] using Search.lost hbinds hparent
    | @inside id parent around hparent houtward ih =>
        have hchain : store.chain id = id :: store.chain parent := by
          rw [chain_eq (.inside hparent houtward) hstore, houtward.chain_eq hstore]
        rw [resolve, resolve?, hchain, List.find?_cons]
        -- the scope answers by itself, or all is left to those around it
        cases hbinds : store.binds id name with
        | true => exact .found hbinds
        | false => exact .further hbinds hparent ih
  exact ⟨fun hsearch => hsearch.unique hends, fun heq => heq ▸ hends⟩

/-- A count ends, with the number of scopes that are further out. -/
theorem climb_iff (h : store.Outward id around) {count total : Nat} :
    store.Climb count (store.parent? id) total ↔ total = count + around.length := by
  have hends : store.Climb count (store.parent? id) (count + around.length) := by
    induction h generalizing count with
    | outermost hparent =>
        rw [hparent]
        exact .done count
    | @inside id parent around hparent _ ih =>
        rw [hparent, List.length_cons, Nat.add_comm around.length, ← Nat.add_assoc]
        exact .further ih
  exact ⟨fun hclimb => hclimb.unique hends, fun heq => heq ▸ hends⟩

end Outward

/-! ### What resolving tells -/

/-- A name resolves to the nearest scope that binds it. -/
theorem resolve_eq_ok_iff {owner : ScopeId} :
    store.resolve id name = .ok owner ↔
      store.Exposes id name owner ∧ store.binds owner name = true := by
  rw [← resolve?_eq_some, resolve]
  cases store.resolve? id name <;> simp

/-- It is undefined just if no scope outward binds it, and nothing else can be wrong with it. -/
theorem resolve_eq_error_iff {fault : Fault} :
    store.resolve id name = .error fault ↔
      fault = .undefinedVariable name ∧ ∀ k ∈ store.chain id, store.binds k name = false := by
  have hnone : store.resolve? id name = none ↔
      ∀ k ∈ store.chain id, store.binds k name = false := by
    simp [resolve?]
  rw [← hnone, resolve]
  cases store.resolve? id name <;> simp [eq_comm]

/-- What fails to resolve has no value and cannot be assigned to, with the same fault. -/
theorem lookup_assign_of_error {fault : Fault} (h : store.resolve id name = .error fault) :
    store.lookup id name = .error fault ∧
      ∀ value, store.assign id name value = .error fault := by
  obtain ⟨rfl, hunbound⟩ := resolve_eq_error_iff.mp h
  have hresolve : store.resolve? id name = none := by simpa [resolve?] using hunbound
  constructor
  · rw [lookup, binding?, hresolve]
    rfl
  · intro value
    rw [assign, hresolve]

/-- What a name resolves to does bind it; so the lookup succeeds, and the assignment fails for a
constant only. -/
theorem lookup_assign_of_ok {owner : ScopeId} (h : store.resolve id name = .ok owner) :
    ∃ binding, store.ownBinding? owner name = some binding ∧
      store.lookup id name = .ok binding.value ∧
      ∀ value,
        (binding.mutability = .constant →
          store.assign id name value = .error (.constantAssignment name)) ∧
        (binding.mutability = .mutable → store.assign id name value =
          .ok ⟨store.scopes.modify owner (·.setValue name value)⟩) := by
  obtain ⟨hexposes, hbinds⟩ := resolve_eq_ok_iff.mp h
  rw [binds_eq_isSome] at hbinds
  obtain ⟨binding, hown⟩ := Option.isSome_iff_exists.mp hbinds
  obtain ⟨hresolve, hbinding⟩ := Nearest.binding? ⟨hexposes, hown⟩
  refine ⟨binding, hown, ?_, fun value => ⟨fun hconstant => ?_, fun hmutable => ?_⟩⟩
  · rw [lookup, hbinding]
  · rw [assign, hresolve, hbinding]
    simp only [hconstant]
  · rw [assign, hresolve, hbinding]
    simp only [hmutable]

end Store

/-! ### Grounded stores -/

namespace Store

/-- All closures in the value were declared in scopes of the store. -/
def Knows (store : Store) (v : Value) : Prop :=
  ∀ c, v.Contains c → c.scope < store.scopes.size

/-- Every scope lies inside an older one, and every closure that is bound was declared in a scope of
the store. -/
structure Grounded (store : Store) : Prop where
  wellFormed : store.WellFormed
  known : store.Confines (fun _ => True) (fun c => c.scope < store.scopes.size)

theorem Knows.mono {before after : Store} {v : Value} (h : before.Knows v)
    (hretains : before.Retains after) : after.Knows v :=
  fun c hc => (h c hc).trans_le hretains.size

namespace Grounded

variable {store store' : Store}

theorem empty : Store.empty.Grounded where
  wellFormed := empty_wellFormed
  known := by
    refine ⟨fun _ => trivial, fun _ _ _ => trivial, fun _ hscope => ?_⟩
    simp [scope?, Store.empty] at hscope

theorem lookup (h : store.Grounded) {id : ScopeId} {name : String} {v : Value}
    (hv : store.lookup id name = .ok v) : store.Knows v :=
  h.known.lookup (fun _ _ => trivial) trivial hv

/-- A change that creates no scopes and binds no closures from elsewhere. -/
theorem change (h : store.Grounded) (hsame : store.SameScopes store')
    (hknown : store'.Confines (fun _ => True) (fun c => c.scope < store.scopes.size)) :
    store'.Grounded where
  wellFormed id parent hparent := h.wellFormed id parent (hsame.parent id ▸ hparent)
  known := hknown.mono fun _ hc => hsame.size.symm ▸ hc

/-- A new scope is younger than the one that it lies inside. -/
theorem push (h : store.Grounded) {scope : Scope}
    (hparent : ∀ id ∈ scope.parent, id < store.scopes.size)
    (hvalues : ∀ b ∈ scope.bindings, store.Knows b.value) :
    (Store.mk (store.scopes.push scope)).Grounded where
  wellFormed id parent hid := by
    rw [parent?_push] at hid
    split at hid
    · -- the number of the new scope is that of all scopes before
      rename_i hnew
      exact hnew ▸ hparent parent hid
    · exact h.wellFormed id parent hid
  known := by
    refine ⟨fun _ => trivial, fun _ _ _ => trivial, fun {id inner b c} _ hinner hb hc => ?_⟩
    have hretains := Retains.push store scope
    rw [scope?_push] at hinner
    split at hinner
    · cases hinner
      exact (hvalues b hb).mono hretains c hc
    · exact (h.known.closure trivial hinner hb hc).trans_le hretains.size

end Grounded

end Store

/-! ### Moves -/

/-- One change of the world by one who has got hold of scopes that exist, and of closures that were
declared in such. -/
inductive World.Move : World → World → Prop where
  | declare {world : World} {id : ScopeId} {name : String} {value : Value} {mutability : Mutability}
      {store : Store} : id < world.store.scopes.size → world.store.Knows value →
        world.store.declare id name value mutability = .ok store →
          Move world { world with store := store }
  | assign {world : World} {id : ScopeId} {name : String} {value : Value} {store : Store} :
      id < world.store.scopes.size → world.store.Knows value →
        world.store.assign id name value = .ok store → Move world { world with store := store }
  | create {world : World} {scope : Scope} : (∀ id ∈ scope.parent, id < world.store.scopes.size) →
      (∀ b ∈ scope.bindings, world.store.Knows b.value) →
        Move world { world with store := ⟨world.store.scopes.push scope⟩ }
  | write (world : World) (text : String) (sink : Sink) :
      Move world { world with output := world.output.write text sink }
  | wait (world : World) (clock : Clock) : Move world { world with clock := clock }

/-- Any number of moves. -/
def World.Moves : World → World → Prop := Relation.ReflTransGen World.Move

namespace World

variable {before after : World}

theorem Move.retains (h : before.Move after) : before.store.Retains after.store := by
  cases h with
  | declare _ _ hd => exact (Store.SameScopes.declare hd).retains
  | assign _ _ ha => exact (Store.SameScopes.assign ha).retains
  | create => exact .push _ _
  | write | wait => exact .refl _

/-- **One move leaves the store grounded.** -/
theorem Move.grounded (h : before.Move after) (hbefore : before.store.Grounded) :
    after.store.Grounded := by
  cases h with
  | declare _ hv hd => exact hbefore.change (.declare hd) (hbefore.known.declare hv hd)
  | assign _ hv ha => exact hbefore.change (.assign ha) (hbefore.known.assign hv ha)
  | create hparent hvalues => exact hbefore.push hparent hvalues
  | write | wait => exact hbefore

theorem Moves.retains (h : before.Moves after) : before.store.Retains after.store := by
  induction h with
  | refl => exact .refl _
  | tail _ hmove ih => exact ih.trans hmove.retains

/-- **Any number of moves leaves the store grounded.** -/
theorem Moves.grounded (h : before.Moves after) (hbefore : before.store.Grounded) :
    after.store.Grounded := by
  induction h with
  | refl => exact hbefore
  | tail _ hmove ih => exact hmove.grounded ih

end World

/-! ### Functions of the host -/

/-- The function gets hold of scopes and closures that exist and of no others: from a grounded
store, a scope of it and values that it knows, it changes the world by moves and yields a value that
is known then. -/
def HostFunction.Grounded (function : HostFunction) : Prop :=
  ∀ (values : List Value) (scope : ScopeId) (world : World), world.store.Grounded →
    scope < world.store.scopes.size → (∀ v ∈ values, world.store.Knows v) →
      world.Moves (function values scope world).2 ∧
        ∀ v, (function values scope world).1 = .ok v → (function values scope world).2.store.Knows v

theorem HostFunction.print_grounded (sink : Sink) : (print sink).Grounded := by
  intro values scope world _ _ _
  refine ⟨.single (.write world (Value.printLine values ++ "\n") sink), ?_⟩
  rintro v ⟨⟩ c ⟨⟩

theorem HostFunction.time_grounded : time.Grounded := by
  intro values scope world _ _ _
  refine ⟨.single (.wait world world.clock.tick), ?_⟩
  rintro v ⟨⟩ c ⟨⟩

/-- All functions of the host are grounded. -/
def Host.Grounded (host : Host) : Prop := ∀ function ∈ host.functions, function.Grounded

theorem Host.Grounded.call {host : Host} (h : host.Grounded) (native : Native) :
    HostFunction.Grounded (host.call native) := by
  intro values scope world hstore hscope hvalues
  simp only [Host.call]
  split
  · exact h _ (Array.mem_of_getElem? ‹_›) values scope world hstore hscope hvalues
  · refine ⟨.refl, ?_⟩
    rintro v ⟨⟩ c ⟨⟩

theorem Host.Grounded.install {host : Host} (h : host.Grounded) (name : String)
    {function : HostFunction} (hf : function.Grounded) :
    (host.install name function).2.Grounded :=
  Host.forall_mem_install h name hf

/-! ### Evaluations -/

namespace World.Moves

/-- The two runs are one, in the world `world`, whose store is grounded. -/
def Holds (world : World) (s t : State) : Prop :=
  s = t ∧ s.world = world ∧ world.store.Grounded

/-- A change of the store that is a move. -/
theorem update {world : World} {change : Store → Except Fault Store}
    (hchange : ∀ store, change world.store = .ok store →
      world.Move { world with store := store }) :
    Run.Follows World.Moves Holds Unit world (fun _ _ _ => True) (Run.update change)
      (Run.update change) := by
  refine .update .refl ?_
  rintro s _ ⟨rfl, rfl, h⟩
  cases hc : change s.world.store with
  | error fault => exact .inl ⟨fault, rfl, rfl⟩
  | ok store =>
      have hmove := hchange store hc
      exact .inr ⟨_, store, store, .single hmove, rfl, rfl, rfl, rfl, hmove.grounded h⟩

/-- **Evaluations consist of moves**, in scopes that exist. -/
theorem accord {config : Config} (hhost : config.host.Grounded) :
    Accord config World.Moves Holds (fun world c => c.scope < world.store.scopes.size)
      (fun world scope _ => scope < world.store.scopes.size)
      (fun world scope _ => scope < world.store.scopes.size) where
  refl _ := .refl
  trans _ _ _ h₁ h₂ := h₁.trans h₂
  same := by
    rintro _ s _ ⟨rfl, -⟩
    rfl
  any := by
    rintro _ s _ stack ⟨rfl, hworld, h⟩
    exact ⟨rfl, hworld, h⟩
  closure_mono hmoves h := h.trans_le hmoves.retains.size
  name_mono hmoves h := h.trans_le hmoves.retains.size
  node_mono hmoves h := h.trans_le hmoves.retains.size
  parts h _ _ _ := h
  names h _ _ := h
  closure _ h := h
  lookup := by
    rintro _ scope name s _ - ⟨rfl, rfl, h⟩
    exact ⟨rfl, fun v hv => h.lookup hv⟩
  declare _ hscope hv := update fun _ hd => .declare hscope hv hd
  assign hscope hv := update fun _ ha => .assign hscope hv ha
  newScope := by
    rintro _ closure hclosure s _ ⟨rfl, rfl, h⟩ r s' ⟨⟩
    -- the scope of a call lies inside that of the declaration, whoever calls, and that exists
    have hmove : s.world.Move
        { s.world with store := ⟨s.world.store.scopes.push ⟨[], some closure.scope⟩⟩ } :=
      .create (by simpa using hclosure) nofun
    have hnew : s.world.store.scopes.size <
        (s.world.store.scopes.push ⟨[], some closure.scope⟩).size := by simp
    exact ⟨_, _, _, .single hmove, rfl, ⟨rfl, rfl, hmove.grounded h⟩,
      .ok ⟨rfl, fun _ _ => hnew, fun _ _ => hnew⟩⟩
  native := by
    intro world scope node native values hscope hvalues
    refine .act ?_
    rintro s _ ⟨rfl, rfl, h⟩
    obtain ⟨hmoves, hresult⟩ := hhost.call native values scope s.world h hscope hvalues
    exact ⟨_, hmoves, rfl, ⟨rfl, rfl, hmoves.grounded h⟩, fun v hv => ⟨rfl, hresult v hv⟩⟩

end World.Moves

section

variable {config : Config} {scope : ScopeId} {s s' : State} {r : Except Failure Value}

theorem evaluateWithin_moves (hhost : config.host.Grounded) (hstore : s.world.store.Grounded)
    (hscope : scope < s.world.store.scopes.size) {budget : Nat} {node : Node}
    (h : evaluateWithin config budget scope node s = some (r, s')) : s.world.Moves s'.world := by
  obtain ⟨_, _, _, hmoves, -, ⟨-, rfl, -⟩, -⟩ :=
    (World.Moves.accord hhost).evaluateWithin le_rfl hscope s s ⟨rfl, rfl, hstore⟩ r s' h
  exact hmoves

theorem callValue_moves (hhost : config.host.Grounded) (hstore : s.world.store.Grounded)
    (hscope : scope < s.world.store.scopes.size) {callee : Value} {values : List Value}
    {span : Span} (hcallee : s.world.store.Knows callee)
    (hvalues : ∀ v ∈ values, s.world.store.Knows v)
    (h : callValue config scope callee values span s = some (r, s')) : s.world.Moves s'.world := by
  obtain ⟨_, _, _, hmoves, -, ⟨-, rfl, -⟩, -⟩ :=
    (World.Moves.accord hhost).callValue (.program [] span) hscope hcallee hvalues span s s
      ⟨rfl, rfl, hstore⟩ r s' h
  exact hmoves

end

/-! ### Sessions -/

/-- The operation makes use of what the host can have got hold of: scopes that exist, values whose
closures were declared in such, and functions that act on such. -/
def Operation.Held (store : Store) : Operation → Prop
  | .declare scope _ value _ | .assign scope _ value =>
    scope < store.scopes.size ∧ store.Knows value
  | .newScope parent => ∀ id ∈ parent, id < store.scopes.size
  | .newGlobals _ => True
  | .install _ function _ => function.Grounded
  | .evaluate _ scope _ | .evaluateApart scope _ => scope < store.scopes.size
  | .call _ scope callee values _ =>
    scope < store.scopes.size ∧ store.Knows callee ∧ ∀ v ∈ values, store.Knows v

/-- The sessions that a host can come to, from one that has done nothing yet, whatever its trees and
its clock, with what it has got hold of on the way.  Each operation may succeed or fail. -/
inductive Session.Reachable : Session → Prop where
  | start (policy : Policy) (sink : Sink) (clock : Clock) (bodyOf : ScopeId → String → BodyId) :
      Reachable { Session.start policy sink clock with host := ⟨#[], bodyOf⟩ }
  | after {session later : Session} {operation : Operation} : session.Reachable →
      session.after operation = some later → operation.Held session.store → Reachable later

namespace Session

/-- The store of the session is grounded, and so are the functions of its host. -/
structure Grounded (session : Session) : Prop where
  store : session.store.Grounded
  host : session.host.Grounded

/-- No closures are bound in a new global scope. -/
theorem knows_of_mem_globalBindings {print time : Native} {b : Binding}
    (h : b ∈ globalBindings print time) (store : Store) : store.Knows b.value := by
  simp only [globalBindings, List.mem_cons, List.not_mem_nil, or_false] at h
  rcases h with rfl | rfl | rfl | rfl | rfl <;> rintro c ⟨⟩

/-- **One operation consists of moves**, and leaves the functions of the host grounded. -/
theorem Grounded.moves {session later : Session} {operation : Operation}
    (hsession : session.Grounded) (h : session.after operation = some later)
    (hheld : operation.Held session.store) :
    session.state.world.Moves later.state.world ∧ later.host.Grounded := by
  obtain ⟨hstore, hhost⟩ := hsession
  cases operation with
  | declare scope name value mutability =>
      obtain ⟨hscope, hvalue⟩ := hheld
      rcases Session.after_declare h with rfl | ⟨store, hd, rfl⟩
      · exact ⟨.refl, hhost⟩
      · exact ⟨.single (.declare hscope hvalue hd), hhost⟩
  | assign scope name value =>
      obtain ⟨hscope, hvalue⟩ := hheld
      rcases Session.after_assign h with rfl | ⟨store, ha, rfl⟩
      · exact ⟨.refl, hhost⟩
      · exact ⟨.single (.assign hscope hvalue ha), hhost⟩
  | newScope parent =>
      cases h
      have hparent : ∀ id ∈ (Scope.mk [] parent).parent, id < session.store.scopes.size := hheld
      exact ⟨.single (.create hparent nofun), hhost⟩
  | newGlobals sink =>
      cases h
      refine ⟨.single (.create nofun fun b hb => knows_of_mem_globalBindings hb _), ?_⟩
      exact (hhost.install "print" (HostFunction.print_grounded sink)).install "time"
        HostFunction.time_grounded
  | install name function lawful =>
      cases h
      exact ⟨.refl, hhost.install name hheld⟩
  | evaluate policy scope node =>
      obtain ⟨r, s', hrun, rfl⟩ := Session.after_evaluate h
      exact ⟨evaluateWithin_moves hhost hstore hheld hrun, hhost⟩
  | evaluateApart scope node =>
      obtain ⟨r, s', hrun, rfl⟩ := Session.after_evaluateApart h
      have hconfig : (Config.mk .default session.host).host.Grounded := hhost
      have hmoves :=
        evaluateWithin_moves (s := ⟨session.state.world, .empty⟩) hconfig hstore hheld hrun
      exact ⟨hmoves, hhost⟩
  | call policy scope callee values span =>
      obtain ⟨hscope, hcallee, hvalues⟩ := hheld
      obtain ⟨r, s', hrun, rfl⟩ := Session.after_call h
      exact ⟨callValue_moves hhost hstore hscope hcallee hvalues hrun, hhost⟩

/-- **Every session that a host can come to is grounded.** -/
theorem Reachable.grounded {session : Session} (h : session.Reachable) : session.Grounded := by
  induction h with
  | start => exact ⟨.empty, fun function hmem => absurd hmem (Array.not_mem_empty function)⟩
  | after _ hafter hheld ih =>
      obtain ⟨hmoves, hhost⟩ := ih.moves hafter hheld
      exact ⟨hmoves.grounded ih.store, hhost⟩

end Session

/-- The scopes of a session that a host can come to, or what moves make of them, as they do in the
course of an evaluation. -/
def Store.Reachable (store : Store) : Prop :=
  ∃ (session : Session) (world : World), session.Reachable ∧ session.state.world.Moves world ∧
    world.store = store

/-- **Names are resolved by a finite walk, nearest first.**  In every store that a host can come to,
also in the course of an evaluation, one comes outward from each scope through finitely many scopes,
all of which exist and none of which comes twice; and counting them ends with their number, which is
what the dump of the scope shows.

The search for a name ends.  It yields the first scope on the way, the starting one included, that
binds the name; and it fails, as undefined, just if none does.  Then the name has no value and
cannot be assigned to, for the same reason.  A scope that was found does bind the name: its value is
yielded, and only a constant refuses to be assigned to. -/
theorem resolution_walks_outward (store : Store) (hstore : store.Reachable) (env : ScopeId)
    (henv : env < store.scopes.size) :
    ∃ around, store.Outward env around ∧ store.chain env = env :: around ∧
      (env :: around).Nodup ∧ (∀ k ∈ around, k < store.scopes.size) ∧
      (∀ total, store.Climb 0 (store.parent? env) total ↔ total = around.length) ∧
      store.depth env = around.length ∧
      ∀ name,
        (∀ result, store.Search name env result ↔ result = store.resolve env name) ∧
        (∀ owner, store.resolve env name = .ok owner ↔
          ∃ nearer further, env :: around = nearer ++ owner :: further ∧
            (∀ k ∈ nearer, store.binds k name = false) ∧ store.binds owner name = true) ∧
        (∀ fault, store.resolve env name = .error fault ↔
          fault = .undefinedVariable name ∧ ∀ k ∈ env :: around, store.binds k name = false) ∧
        (∀ fault, store.resolve env name = .error fault →
          store.lookup env name = .error fault ∧
            ∀ value, store.assign env name value = .error fault) ∧
        ∀ owner, store.resolve env name = .ok owner →
          ∃ binding, store.ownBinding? owner name = some binding ∧
            store.lookup env name = .ok binding.value ∧
            ∀ value,
              (binding.mutability = .constant →
                store.assign env name value = .error (.constantAssignment name)) ∧
              (binding.mutability = .mutable → store.assign env name value =
                .ok ⟨store.scopes.modify owner (·.setValue name value)⟩) := by
  obtain ⟨session, world, hsession, hmoves, rfl⟩ := hstore
  have hstore := (hmoves.grounded hsession.grounded.store).wellFormed
  obtain ⟨around, houtward, hchain⟩ := hstore.chain_outward env
  refine ⟨around, houtward, hchain, houtward.nodup hstore, ?_, ?_, ?_,
    fun name => ⟨fun result => houtward.search_iff hstore, ?_, ?_,
      fun fault => Store.lookup_assign_of_error, fun owner => Store.lookup_assign_of_ok⟩⟩
  · exact fun k hk => (houtward.lt hstore k hk).trans henv
  · intro total
    rw [houtward.climb_iff, Nat.zero_add]
  · rw [Store.depth, hchain, List.length_cons, Nat.add_sub_cancel]
  · intro owner
    rw [Store.resolve_eq_ok_iff, Store.Exposes, hchain]
    simp only [← exists_and_right, and_assoc]
  · intro fault
    rw [Store.resolve_eq_error_iff, hchain]

/-- `let x  fn f(n) { fn g() { x = n } }  const h = f(true)  h()`. -/
def nestedClosure : Node :=
  let name (symbol : String) : Node := .identifier symbol .dummy
  let inner : Node := .function "g" [] [.assignment (name "x") (name "n") .dummy] .dummy
  .program [.declaration false "x" none .dummy, .function "f" ["n"] [inner] .dummy,
    .declaration true "h" (some (.call (name "f") [name "true"] .dummy)) .dummy,
    .call (name "h") [] .dummy] .dummy

/-- The program is run in a scope inside a global one.  That scope binds `h`, a closure from the
scope of a call, which lies inside it again.  Still one comes straight from the scope in which `h`
ran through those two to the global one; and finds `x` and `print` on the way, but no `y`. -/
theorem resolution_walks_outward_closure :
    ∃ store : Store, store.Reachable ∧ store.scopes.size = 4 ∧ store.Outward 3 [2, 1, 0] ∧
      store.Climb 0 (store.parent? 3) 3 ∧ store.Search "x" 3 (.ok 1) ∧
      store.Search "print" 3 (.ok 0) ∧ store.Search "y" 3 (.error (.undefinedVariable "y")) := by
  let opened := ((globalSession .default).newScope (some 0)).2
  have hglobal : (Session.start .default .buffer (.still 0)).after (.newGlobals .buffer) =
      some (globalSession .default) := rfl
  have hopened : (globalSession .default).after (.newScope (some 0)) = some opened := rfl
  have hparent : (Operation.newScope (some 0)).Held (globalSession .default).store := by
    rintro id ⟨⟩
    decide
  have hheld : (Operation.evaluate .default 1 nestedClosure).Held opened.store :=
    show 1 < 2 by decide
  have hend : (opened.after (.evaluate .default 1 nestedClosure)).map
      (fun later => (later.store.scopes.size, later.store.chain 3, later.store.resolve 3 "x",
        later.store.resolve 3 "print", later.store.resolve 3 "y")) =
        some (4, [3, 2, 1, 0], .ok 1, .ok 0, .error (.undefinedVariable "y")) := by
    cbv
  obtain ⟨later, hafter, hlater⟩ := Option.map_eq_some_iff.mp hend
  simp only [Prod.mk.injEq] at hlater
  obtain ⟨hsize, hchain, hx, hprint, hy⟩ := hlater
  have hsession : later.Reachable :=
    .after (.after (.after (.start .default .buffer (.still 0) BodyId.mk) hglobal trivial) hopened
      hparent) hafter hheld
  have hreachable : later.store.Reachable := ⟨later, later.state.world, hsession, .refl, rfl⟩
  obtain ⟨around, houtward, haround, -, -, hclimb, -, hsearch⟩ :=
    resolution_walks_outward later.store hreachable 3 (hsize ▸ by decide)
  obtain ⟨-, rfl⟩ := List.cons.inj (hchain.symm.trans haround)
  exact ⟨later.store, hreachable, hsize, houtward, (hclimb 3).mpr rfl,
    ((hsearch "x").1 _).mpr hx.symm, ((hsearch "print").1 _).mpr hprint.symm,
    ((hsearch "y").1 _).mpr hy.symm⟩

end TreeScript
