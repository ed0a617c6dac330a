import TreeScript.Proofs.Steps

/-!
# Proofs — the world only grows

Nothing that a host does to a session takes anything away (`history_grows`): of any two states of a
run, every scope of the earlier one is there in the later one, inside the same scope; so is every
binding, as mutable or constant as before, and a constant still holds the value it was declared
with; and what was printed is still there, at the front.

One step of the world grows it (`World.Step.grows`), so any number of them does.  A run of the host
is a list of operations, each of which may succeed or fail, and changes the world by steps.
-/

namespace TreeScript

/-! ### Growth -/

/-- A scope with all bindings of another, constants unchanged, inside the same scope. -/
structure Scope.Grows (before after : Scope) : Prop where
  parent : after.parent = before.parent
  binding {name : String} {b : Binding} : before.find? name = some b →
    ∃ b', after.find? name = some b' ∧ b'.mutability = b.mutability ∧
      (b.mutability = .constant → b' = b)

/-- A world with all scopes of another, grown, and with what was printed there at the front of what
is printed here. -/
structure World.Grows (before after : World) : Prop where
  scope {id : ScopeId} {scope : Scope} : before.store.scope? id = some scope →
    ∃ scope', after.store.scope? id = some scope' ∧ scope.Grows scope'
  buffer : ∃ text, after.output.buffer = before.output.buffer ++ text
  console : ∃ text, after.output.console = before.output.console ++ text

namespace Scope

theorem Grows.refl (scope : Scope) : scope.Grows scope :=
  ⟨rfl, fun h => ⟨_, h, rfl, fun _ => rfl⟩⟩

theorem Grows.trans {a b c : Scope} (h₁ : a.Grows b) (h₂ : b.Grows c) : a.Grows c := by
  refine ⟨h₂.parent.trans h₁.parent, fun {name x} hx => ?_⟩
  obtain ⟨y, hy, hm, hc⟩ := h₁.binding hx
  obtain ⟨z, hz, hm', hc'⟩ := h₂.binding hy
  refine ⟨z, hz, hm'.trans hm, fun hx => ?_⟩
  rw [hc' (hm.trans hx), hc hx]

/-- One more binding comes after those that are there. -/
theorem grows_add (scope : Scope) (binding : Binding) : scope.Grows (scope.add binding) := by
  refine ⟨rfl, fun {name b} h => ⟨b, ?_, rfl, fun _ => rfl⟩⟩
  simp only [find?] at h ⊢
  simp [add, List.find?_append, h]

theorem find?_setValue (scope : Scope) (name key : String) (value : Value) :
    (scope.setValue name value).find? key =
      (scope.find? key).map fun b => if b.name == name then { b with value := value } else b := by
  have same : ((fun b : Binding => b.name == key) ∘
      fun b => if b.name == name then { b with value := value } else b) =
        fun b => b.name == key := by
    funext b
    simp only [Function.comp_apply]
    split <;> rfl
  simp only [find?, setValue, List.find?_map, same]

/-- A new value for a mutable name leaves the constants alone. -/
theorem grows_setValue {scope : Scope} {name : String} {binding : Binding}
    (h : scope.find? name = some binding) (hm : binding.mutability = .mutable) (value : Value) :
    scope.Grows (scope.setValue name value) := by
  refine ⟨rfl, fun {key b} hb => ?_⟩
  rw [find?_setValue, hb, Option.map_some]
  -- a binding of the assigned name is the one that was found mutable, so it is no constant
  by_cases hn : b.name = name
  · have hkey : b.name = key := by simpa using List.find?_some hb
    rw [← hkey, hn, h] at hb
    cases hb
    refine ⟨_, rfl, by simp [hn], fun hc => ?_⟩
    rw [hm] at hc
    cases hc
  · exact ⟨b, by simp [hn], rfl, fun _ => rfl⟩

end Scope

namespace World

theorem Grows.refl (world : World) : world.Grows world :=
  ⟨fun h => ⟨_, h, .refl _⟩, ⟨"", by simp⟩, ⟨"", by simp⟩⟩

theorem Grows.trans {a b c : World} (h₁ : a.Grows b) (h₂ : b.Grows c) : a.Grows c := by
  refine ⟨fun h => ?_, ?_, ?_⟩
  · obtain ⟨scope', h', hg⟩ := h₁.scope h
    obtain ⟨scope'', h'', hg'⟩ := h₂.scope h'
    exact ⟨scope'', h'', hg.trans hg'⟩
  · obtain ⟨t₁, e₁⟩ := h₁.buffer
    obtain ⟨t₂, e₂⟩ := h₂.buffer
    exact ⟨t₁ ++ t₂, by rw [e₂, e₁, String.append_assoc]⟩
  · obtain ⟨t₁, e₁⟩ := h₁.console
    obtain ⟨t₂, e₂⟩ := h₂.console
    exact ⟨t₁ ++ t₂, by rw [e₂, e₁, String.append_assoc]⟩

/-- Changing one scope into a grown one grows the world. -/
theorem grows_modify (world : World) (id : ScopeId) (f : Scope → Scope)
    (h : ∀ scope, world.store.scope? id = some scope → scope.Grows (f scope)) :
    world.Grows { world with store := ⟨world.store.scopes.modify id f⟩ } := by
  refine ⟨fun {k scope} hk => ?_, ⟨"", by simp⟩, ⟨"", by simp⟩⟩
  rw [Store.scope?_modify]
  by_cases hid : k = id
  · subst hid
    rw [if_pos rfl, hk]
    exact ⟨f scope, rfl, h scope hk⟩
  · rw [if_neg hid]
    exact ⟨scope, hk, .refl scope⟩

/-- **One step grows the world.** -/
theorem Step.grows {before after : World} (h : Step before after) : before.Grows after := by
  cases h with
  | declare hd =>
      obtain ⟨-, rfl⟩ := Store.declare_eq_ok hd
      exact before.grows_modify _ _ fun scope _ => scope.grows_add _
  | assign ha =>
      obtain ⟨owner, scope, binding, -, hscope, hfind, hm, rfl⟩ := Store.assign_eq_ok ha
      refine before.grows_modify _ _ fun scope' h => ?_
      rw [hscope] at h
      cases h
      exact Scope.grows_setValue hfind hm _
  | create scope =>
      refine ⟨fun {k scope'} hk => ⟨scope', ?_, .refl scope'⟩, ⟨"", by simp⟩, ⟨"", by simp⟩⟩
      have hlt : k < before.store.scopes.size := (Array.getElem?_eq_some_iff.mp hk).1
      rw [Store.scope?_push, if_neg (Nat.ne_of_lt hlt), hk]
  | write text sink =>
      cases sink with
      | buffer => exact ⟨fun h => ⟨_, h, .refl _⟩, ⟨text, rfl⟩, ⟨"", by simp [Output.write]⟩⟩
      | console => exact ⟨fun h => ⟨_, h, .refl _⟩, ⟨"", by simp [Output.write]⟩, ⟨text, rfl⟩⟩
  | wait clock => exact ⟨fun h => ⟨_, h, .refl _⟩, ⟨"", by simp⟩, ⟨"", by simp⟩⟩

/-- **Any number of steps grows the world.** -/
theorem Steps.grows {before after : World} (h : before.Steps after) : before.Grows after := by
  induction h with
  | refl => exact .refl before
  | tail _ hs ih => exact ih.trans hs.grows

end World

/-! ### Constants -/

/-- The binding of a name in the scope of a number itself. -/
def Store.ownBinding? (store : Store) (id : ScopeId) (name : String) : Option Binding :=
  (store.scope? id).bind (·.find? name)

/-- A constant is there, unchanged, after any steps. -/
theorem World.Steps.constant {before after : World} (h : before.Steps after) {id : ScopeId}
    {name : String} {b : Binding} (hb : before.store.ownBinding? id name = some b)
    (hc : b.mutability = .constant) : after.store.ownBinding? id name = some b := by
  obtain ⟨scope, hscope, hfind⟩ := Option.bind_eq_some_iff.mp hb
  obtain ⟨scope', hscope', hg⟩ := h.grows.scope hscope
  obtain ⟨b', hfind', -, heq⟩ := hg.binding hfind
  rw [heq hc] at hfind'
  exact Option.bind_eq_some_iff.mpr ⟨scope', hscope', hfind'⟩

/-- A declaration in a scope that exists binds the name there. -/
theorem Store.ownBinding?_declare {store store' : Store} {id : ScopeId} {name : String}
    {value : Value} {mutability : Mutability} {scope : Scope}
    (hscope : store.scope? id = some scope)
    (h : store.declare id name value mutability = .ok store') :
    store'.ownBinding? id name = some ⟨name, value, mutability⟩ := by
  obtain ⟨hfree, rfl⟩ := Store.declare_eq_ok h
  have hnone : scope.find? name = none := by
    simpa [Store.binds, hscope, Scope.binds] using hfree
  simp only [Scope.find?] at hnone
  rw [Store.ownBinding?, Store.scope?_modify, if_pos rfl, hscope]
  simp [Scope.find?, Scope.add, List.find?_append, hnone]

/-- A function that was declared is bound to its name, as a constant, in the scope of its
declaration. -/
theorem evaluateWithin_function {config : Config} {budget : Nat} {scope : ScopeId} {name : String}
    {parameters : List String} {body : List Node} {span : Span} {s s' : State} {v : Value}
    (hscope : (s.world.store.scope? scope).isSome)
    (h : evaluateWithin config budget scope (.function name parameters body span) s =
      some (.ok v, s')) :
    s'.world.store.ownBinding? scope name =
      some ⟨name, .function ⟨name, parameters, body, config.host.bodyOf scope name, scope⟩,
        .constant⟩ := by
  obtain ⟨inner, hinner⟩ := Option.isSome_iff_exists.mp hscope
  rw [evaluateWithin, evalNode] at h
  obtain ⟨a, hrun, -⟩ := (Run.located_eq_some.mp h).resolve_left (by rintro ⟨_, _, ⟨⟩⟩)
  obtain ⟨_, s₁, hupdate, hpure⟩ :=
    (Run.bind_eq_some.mp hrun).resolve_left (by rintro ⟨_, _, ⟨⟩⟩)
  cases hpure
  rw [Run.update_apply] at hupdate
  split at hupdate
  · rename_i hd
    cases hupdate
    exact Store.ownBinding?_declare hinner hd
  · cases hupdate

/-! ### Histories -/

/-- What a host does to a session: it changes scopes by hand, offers functions of its own, or has
nodes evaluated and values called under a policy. -/
inductive Operation where
  | declare (scope : ScopeId) (name : String) (value : Value) (mutability : Mutability)
  | assign (scope : ScopeId) (name : String) (value : Value)
  | newScope (parent : Option ScopeId)
  | newGlobals (sink : Sink)
  | install (name : String) (function : HostFunction) (lawful : function.Lawful)
  | evaluate (policy : Policy) (scope : ScopeId) (node : Node)
  | evaluateApart (scope : ScopeId) (node : Node)
  | call (policy : Policy) (scope : ScopeId) (callee : Value) (values : List Value) (span : Span)

/-- The session after an operation, whether that succeeded or failed; none if it does not end. -/
def Session.after (session : Session) : Operation → Option Session
  | .declare scope name value mutability =>
    match session.declare scope name value mutability with
    | .ok later => some later
    | .error _ => some session
  | .assign scope name value =>
    match session.assign scope name value with
    | .ok later => some later
    | .error _ => some session
  | .newScope parent => some (session.newScope parent).2
  | .newGlobals sink => some (session.newGlobals sink).2
  | .install name function _ => some (session.install name function).2
  | .evaluate policy scope node =>
    (Session.evaluate { session with policy := policy } scope node).map Prod.snd
  | .evaluateApart scope node => (session.evaluateApart scope node).map Prod.snd
  | .call policy scope callee values span =>
    (Session.call { session with policy := policy } scope callee values span).map Prod.snd

namespace Session

variable {session later : Session} {policy : Policy} {scope : ScopeId} {name : String}
  {value : Value} {node : Node}

/-- A declaration changes the store, or is refused and changes nothing. -/
theorem after_declare {mutability : Mutability}
    (h : session.after (.declare scope name value mutability) = some later) :
    later = session ∨ ∃ store, session.store.declare scope name value mutability = .ok store ∧
      later = session.withStore store := by
  simp only [after, declare] at h
  cases hd : session.store.declare scope name value mutability with
  | error fault =>
      simp only [hd, Except.map] at h
      exact .inl (Option.some.inj h).symm
  | ok store =>
      simp only [hd, Except.map] at h
      exact .inr ⟨store, rfl, (Option.some.inj h).symm⟩

/-- So does an assignment. -/
theorem after_assign (h : session.after (.assign scope name value) = some later) :
    later = session ∨ ∃ store, session.store.assign scope name value = .ok store ∧
      later = session.withStore store := by
  simp only [after, assign] at h
  cases ha : session.store.assign scope name value with
  | error fault =>
      simp only [ha, Except.map] at h
      exact .inl (Option.some.inj h).symm
  | ok store =>
      simp only [ha, Except.map] at h
      exact .inr ⟨store, rfl, (Option.some.inj h).symm⟩

theorem after_evaluate (h : session.after (.evaluate policy scope node) = some later) :
    ∃ r s', TreeScript.evaluate ⟨policy, session.host⟩ scope node session.state = some (r, s') ∧
      later = { session with policy := policy, state := s' } := by
  obtain ⟨⟨r, later⟩, hrun, rfl⟩ := Option.map_eq_some_iff.mp h
  obtain ⟨s', hs, rfl⟩ := perform_eq_some.mp hrun
  exact ⟨r, s', hs, rfl⟩

/-- An evaluation apart starts without live calls, and those of the session are live after it. -/
theorem after_evaluateApart (h : session.after (.evaluateApart scope node) = some later) :
    ∃ r s', TreeScript.evaluate ⟨.default, session.host⟩ scope node
        ⟨session.state.world, .empty⟩ = some (r, s') ∧
      later = { session with state := ⟨s'.world, session.state.stack⟩ } := by
  obtain ⟨⟨r, later⟩, hrun, rfl⟩ := Option.map_eq_some_iff.mp h
  simp only [evaluateApart] at hrun
  split at hrun
  · rename_i hs
    cases hrun
    exact ⟨_, _, hs, rfl⟩
  · cases hrun

theorem after_call {values : List Value} {span : Span}
    (h : session.after (.call policy scope value values span) = some later) :
    ∃ r s', callValue ⟨policy, session.host⟩ scope value values span session.state =
        some (r, s') ∧ later = { session with policy := policy, state := s' } := by
  obtain ⟨⟨r, later⟩, hrun, rfl⟩ := Option.map_eq_some_iff.mp h
  obtain ⟨s', hs, rfl⟩ := perform_eq_some.mp hrun
  exact ⟨r, s', hs, rfl⟩

end Session

/-- The session after operations in order. -/
def Session.history (session : Session) (operations : List Operation) : Option Session :=
  operations.foldlM Session.after session

/-- What holds of the functions of a host and of one more holds of them all once that is
installed. -/
theorem Host.forall_mem_install {host : Host} {P : HostFunction → Prop}
    (h : ∀ f ∈ host.functions, P f) (name : String) {function : HostFunction} (hf : P function) :
    ∀ f ∈ (host.install name function).2.functions, P f := by
  intro f hmem
  rcases Array.mem_push.mp hmem with hmem | rfl
  · exact h f hmem
  · exact hf

theorem Host.Lawful.install {host : Host} (h : host.Lawful) (name : String)
    {function : HostFunction} (hf : function.Lawful) : (host.install name function).2.Lawful :=
  Host.forall_mem_install h name hf

/-- The later session comes out of the earlier one by steps of the world; its host is as lawful and
its sink the same. -/
structure Session.Follows (later earlier : Session) : Prop where
  steps : earlier.state.world.Steps later.state.world
  lawful : later.host.Lawful
  sink : later.sink = earlier.sink

/-- **One operation changes the world by steps.** -/
theorem Session.after_follows {session later : Session} {operation : Operation}
    (hhost : session.host.Lawful) (h : session.after operation = some later) :
    later.Follows session := by
  cases operation with
  | declare scope name value mutability =>
      rcases Session.after_declare h with rfl | ⟨store, hd, rfl⟩
      · exact ⟨.refl, hhost, rfl⟩
      · exact ⟨.single (.declare hd), hhost, rfl⟩
  | assign scope name value =>
      rcases Session.after_assign h with rfl | ⟨store, ha, rfl⟩
      · exact ⟨.refl, hhost, rfl⟩
      · exact ⟨.single (.assign ha), hhost, rfl⟩
  | newScope parent =>
      cases h
      exact ⟨.single (.create _ ⟨[], parent⟩), hhost, rfl⟩
  | newGlobals sink =>
      cases h
      exact ⟨.single (.create _ _),
        (hhost.install "print" (HostFunction.print_lawful sink)).install "time"
          HostFunction.time_lawful, rfl⟩
  | install name function lawful =>
      cases h
      exact ⟨.refl, hhost.install name lawful, rfl⟩
  | evaluate policy scope node =>
      obtain ⟨r, s', hrun, rfl⟩ := Session.after_evaluate h
      exact ⟨evaluateWithin_steps hhost hrun, hhost, rfl⟩
  | evaluateApart scope node =>
      obtain ⟨r, s', hrun, rfl⟩ := Session.after_evaluateApart h
      have hconfig : (Config.mk .default session.host).host.Lawful := hhost
      have hsteps := evaluateWithin_steps hconfig hrun
      exact ⟨hsteps, hhost, rfl⟩
  | call policy scope callee values span =>
      obtain ⟨r, s', hrun, rfl⟩ := Session.after_call h
      exact ⟨callValue_steps hhost hrun, hhost, rfl⟩

/-- **A history changes the world by steps.** -/
theorem Session.history_follows {session later : Session} {operations : List Operation}
    (hhost : session.host.Lawful) (h : session.history operations = some later) :
    later.Follows session := by
  induction operations generalizing session with
  | nil => cases h; exact ⟨.refl, hhost, rfl⟩
  | cons operation operations ih =>
      obtain ⟨next, h₁, h₂⟩ := Option.bind_eq_some_iff.mp h
      have first := Session.after_follows hhost h₁
      have rest := ih first.lawful h₂
      exact ⟨first.steps.trans rest.steps, rest.lawful, rest.sink.trans first.sink⟩

/-- The names of a new global scope are constants of the session it is in. -/
theorem Session.newGlobals_binding (session : Session) (sink : Sink) :
    ∃ print time, ∀ b ∈ Session.globalBindings print time, b.mutability = .constant ∧
      (session.newGlobals sink).2.store.ownBinding? (session.newGlobals sink).1 b.name =
        some b := by
  let print := session.host.install "print" (.print sink)
  refine ⟨print.1, (print.2.install "time" .time).1, fun b hb => ?_⟩
  have hscope : (session.newGlobals sink).2.store.scope? (session.newGlobals sink).1 =
      some ⟨Session.globalBindings print.1 (print.2.install "time" .time).1,
        none⟩ :=
    (Store.scope?_push _ _ _).trans (if_pos rfl)
  rw [Store.ownBinding?, hscope]
  simp only [Session.globalBindings, List.mem_cons, List.not_mem_nil, or_false] at hb
  rcases hb with rfl | rfl | rfl | rfl | rfl <;> exact ⟨rfl, rfl⟩

/-- **A run of the host takes nothing away.**  The world that a history reaches comes by steps out
of every world it went through and has grown from it, and what is printed begins with what was
printed.  The names of a global scope are constants, which hold their values through any history;
and so does every constant through any steps from its declaration on, in particular a function that
was declared. -/
theorem history_grows (start earlier later : Session) (past further : List Operation)
    (hhost : start.host.Lawful) (hpast : start.history past = some earlier)
    (hfurther : earlier.history further = some later) :
    earlier.state.world.Steps later.state.world ∧
    earlier.state.world.Grows later.state.world ∧
    (∃ text, later.printed = earlier.printed ++ text) ∧
    (∀ sink operations final, (earlier.newGlobals sink).2.history operations = some final →
      ∃ print time, ∀ b ∈ Session.globalBindings print time, b.mutability = .constant ∧
        final.store.ownBinding? (earlier.newGlobals sink).1 b.name = some b) ∧
    (∀ (world after : World) id name value store, (world.store.scope? id).isSome →
      world.store.declare id name value .constant = .ok store →
      World.Steps { world with store := store } after →
      after.store.ownBinding? id name = some ⟨name, value, .constant⟩) ∧
    (∀ config budget scope name parameters body span (s s' : State) v after,
      (s.world.store.scope? scope).isSome →
      evaluateWithin config budget scope (.function name parameters body span) s =
        some (.ok v, s') →
      s'.world.Steps after →
      after.store.ownBinding? scope name =
        some ⟨name, .function ⟨name, parameters, body, config.host.bodyOf scope name, scope⟩,
          .constant⟩) := by
  have hearlier : earlier.host.Lawful := (Session.history_follows hhost hpast).lawful
  have follows := Session.history_follows hearlier hfurther
  have grows := follows.steps.grows
  refine ⟨follows.steps, grows, ?_, ?_, ?_, ?_⟩
  · simp only [Session.printed]
    rw [follows.sink]
    cases earlier.sink with
    | buffer => exact grows.buffer
    | console => exact ⟨"", rfl⟩
  · -- the new global scope is one more operation, and its constants stay from then on
    intro sink operations final hfinal
    have hafter : earlier.after (.newGlobals sink) = some (earlier.newGlobals sink).2 := rfl
    have hlawful := (Session.after_follows hearlier hafter).lawful
    have hsteps := (Session.history_follows hlawful hfinal).steps
    obtain ⟨print, time, hbinding⟩ := earlier.newGlobals_binding sink
    refine ⟨print, time, fun b hb => ?_⟩
    obtain ⟨hconstant, hown⟩ := hbinding b hb
    exact ⟨hconstant, hsteps.constant hown hconstant⟩
  · intro world after id name value store hscope hd hsteps
    obtain ⟨scope, hscope⟩ := Option.isSome_iff_exists.mp hscope
    exact hsteps.constant (Store.ownBinding?_declare hscope hd) rfl
  · intro config budget scope name parameters body span s s' v after hscope h hsteps
    exact hsteps.constant (evaluateWithin_function hscope h) rfl

/-- A global scope, a scope inside it that binds `x`, and a function of the host that declares. -/
def openingMoves : List Operation :=
  [.newGlobals .buffer, .newScope (some 0), .declare 1 "x" .null .mutable,
    .install "declare" .declare HostFunction.declare_lawful]

/-- `fn f() { print(x) }  f()  print = x`, which fails in the end; an assignment that fails; and a
call that declares. -/
def middleMoves : List Operation :=
  let x : Node := .identifier "x" .dummy
  let print : Node := .identifier "print" .dummy
  [.evaluate .default 1 (.program
      [.function "f" [] [.call print [x] .dummy] .dummy,
        .call (.identifier "f" .dummy) [] .dummy, .assignment print x .dummy] .dummy),
    .assign 0 "x" .null,
    .call .default 1 (.native ⟨"declare", 2⟩) [.string "y", .bool true] .dummy]

/-- The world grows along such a run, and the constants in it stay; so do a constant and a function
that are declared in a scope on its own. -/
theorem history_grows_moves :
    (∃ earlier later final,
      (Session.start .default .buffer (.still 0)).history openingMoves = some earlier ∧
      earlier.history middleMoves = some later ∧
      (earlier.newGlobals .console).2.history middleMoves = some final ∧
      earlier.state.world.Grows later.state.world ∧
      (∃ text, later.printed = earlier.printed ++ text) ∧
      ∃ print time, ∀ b ∈ Session.globalBindings print time, b.mutability = .constant ∧
        final.store.ownBinding? (earlier.newGlobals .console).1 b.name = some b) ∧
    (∃ store, (Store.mk #[⟨[], none⟩]).declare 0 "c" .null .constant = .ok store ∧
      store.ownBinding? 0 "c" = some ⟨"c", .null, .constant⟩) ∧
    ∃ v s', evaluateWithin ⟨.default, .empty⟩ 1 0 (.function "f" [] [] .dummy)
        ⟨⟨⟨#[⟨[], none⟩]⟩, .empty, .still 0⟩, .empty⟩ = some (.ok v, s') ∧
      s'.world.store.ownBinding? 0 "f" =
        some ⟨"f", .function ⟨"f", [], [], ⟨0, "f"⟩, 0⟩, .constant⟩ := by
  have hempty : (Session.start .default .buffer (.still 0)).host.Lawful :=
    fun function h => absurd h (Array.not_mem_empty function)
  have hpast : ((Session.start .default .buffer (.still 0)).history openingMoves).isSome := by
    decide +kernel
  obtain ⟨earlier, hpast⟩ := Option.isSome_iff_exists.mp hpast
  have hfurther : (((Session.start .default .buffer (.still 0)).history openingMoves).bind
      (·.history middleMoves)).isSome := by decide +kernel
  have hfinal : (((Session.start .default .buffer (.still 0)).history openingMoves).bind
      fun s => (s.newGlobals .console).2.history middleMoves).isSome := by decide +kernel
  rw [hpast] at hfurther hfinal
  obtain ⟨later, hfurther⟩ := Option.isSome_iff_exists.mp hfurther
  obtain ⟨final, hfinal⟩ := Option.isSome_iff_exists.mp hfinal
  obtain ⟨-, hgrows, hprinted, hglobals, hconstant, hfunction⟩ :=
    history_grows _ earlier later openingMoves middleMoves hempty hpast hfurther
  refine ⟨⟨earlier, later, final, hpast, hfurther, hfinal, hgrows, hprinted,
    hglobals .console middleMoves final hfinal⟩, ⟨_, rfl, ?_⟩, ⟨_, _, rfl, ?_⟩⟩
  · exact hconstant ⟨⟨#[⟨[], none⟩]⟩, .empty, .still 0⟩ _ 0 "c" .null _ rfl rfl .refl
  · exact hfunction ⟨.default, .empty⟩ 1 0 "f" [] [] .dummy
      ⟨⟨⟨#[⟨[], none⟩]⟩, .empty, .still 0⟩, .empty⟩ _ _ _ rfl rfl .refl

end TreeScript
