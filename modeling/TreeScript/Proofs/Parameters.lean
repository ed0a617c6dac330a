import Mathlib.Data.List.TakeDrop
import TreeScript.Proofs.Raise
import TreeScript.Proofs.Updates

/-!
# Proofs — calls bind their parameters

A call either starts its body in a scope that binds exactly the parameters, each to the argument at
its place, or it is refused and leaves all that existed as it was (`calls_bind_parameters`).  What
decides is the number of arguments, then a name that comes twice among the parameters, then the
stack.

Parameters are declared one by one in the scope of the call, which is the latest scope of the store
all the while (`declareIn_withScope`).  As long as no name comes twice, the declarations add up
(`bindParameters_withScope`); the first name that comes again is refused, and no later one is looked
at (`bindParameters_repeated`).
-/

namespace TreeScript

/-! ### The latest scope -/

/-- The state with one more scope, the latest. -/
def State.withScope (s : State) (scope : Scope) : State :=
  ⟨⟨⟨s.world.store.scopes.push scope⟩, s.world.output, s.world.clock⟩, s.stack⟩

/-- The scopes that existed are as they were. -/
theorem State.scope?_withScope {s : State} {id : ScopeId} (h : id < s.world.store.scopes.size)
    (scope : Scope) : (s.withScope scope).world.store.scope? id = s.world.store.scope? id :=
  (Store.scope?_push ..).trans (if_neg h.ne)

theorem Scope.binds_iff_mem_names {scope : Scope} {name : String} :
    scope.binds name = true ↔ name ∈ scope.names := by
  simp only [binds, find?, List.find?_isSome, beq_iff_eq, names, List.mem_map]

theorem modify_push_size (scopes : Array Scope) (scope : Scope) (f : Scope → Scope) :
    (scopes.push scope).modify scopes.size f = scopes.push (f scope) := by
  refine Array.ext_getElem? fun i => ?_
  rw [Array.getElem?_modify, Array.getElem?_push, Array.getElem?_push]
  by_cases hi : i = scopes.size
  · simp [hi]
  · simp [hi, Ne.symm hi]

/-- **A declaration in the latest scope** is refused if the scope has the name, and added to it if
not. -/
theorem declareIn_withScope (s : State) (scope : Scope) (name : String) (value : Value)
    (mutability : Mutability) :
    declareIn s.world.store.scopes.size name value mutability (s.withScope scope) =
      if name ∈ scope.names then
        some (.error { fault := .duplicateDeclaration name }, s.withScope scope)
      else some (.ok value, s.withScope (scope.add ⟨name, value, mutability⟩)) := by
  have hbinds : (s.withScope scope).world.store.binds s.world.store.scopes.size name =
      scope.binds name := by
    simp [Store.binds, State.withScope, Store.scope?_push]
  rw [declareIn_apply, Store.declare, hbinds]
  by_cases hname : name ∈ scope.names
  · rw [if_pos (Scope.binds_iff_mem_names.mpr hname), if_pos hname]
  · rw [if_neg fun h => hname (Scope.binds_iff_mem_names.mp h), if_neg hname]
    simp only [State.withScope, modify_push_size]

/-! ### Binding parameters -/

/-- What parameters are bound to: each to the argument at its place, or to null where there is
none. -/
def parameterBindings (names : List String) (values : List Value) : List Binding :=
  names.mapIdx fun place name => ⟨name, values.getD place .null, .mutable⟩

theorem parameterBindings_cons (name : String) (names : List String) (values : List Value) :
    parameterBindings (name :: names) values =
      ⟨name, values.headD .null, .mutable⟩ :: parameterBindings names values.tail := by
  cases values <;> simp [parameterBindings, List.mapIdx_cons]

/-- Each parameter is bound, in its place. -/
theorem names_parameterBindings (names : List String) (values : List Value) :
    (parameterBindings names values).map (·.name) = names := by
  induction names generalizing values with
  | nil => rfl
  | cons name names ih => rw [parameterBindings_cons, List.map_cons, ih]

section

variable {scope : ScopeId}

theorem bindParameters_cons (name : String) (names : List String) (values : List Value) :
    bindParameters scope (name :: names) values =
      declareIn scope name (values.headD .null) .mutable >>= fun _ =>
        bindParameters scope names values.tail := by
  cases values <;> rfl

/-- Parameters are bound one after the other, to the arguments that are left. -/
theorem bindParameters_append (first second : List String) (values : List Value) :
    bindParameters scope (first ++ second) values =
      bindParameters scope first values >>= fun _ =>
        bindParameters scope second (values.drop first.length) := by
  induction first generalizing values with
  | nil => rfl
  | cons name names ih =>
      simp only [List.cons_append, bindParameters_cons, ih, bind_assoc, List.drop_tail,
        List.length_cons]

/-- Arguments beyond the parameters are not looked at, and missing ones are null. -/
theorem bindParameters_takeD (names : List String) (values : List Value) :
    bindParameters scope names (values.takeD names.length .null) =
      bindParameters scope names values := by
  induction names generalizing values with
  | nil => rfl
  | cons name names ih =>
      rw [bindParameters_cons, bindParameters_cons, List.length_cons, List.takeD_succ,
        List.tail_cons, ih]
      cases values <;> rfl

end

section

variable {s : State} {values : List Value} {before : List Binding} {parent : Option ScopeId}

/-- **Different names add up.**  The latest scope has bound some names; none of them comes among the
parameters, and no parameter comes twice. -/
theorem bindParameters_withScope {names : List String}
    (h : (before.map (·.name) ++ names).Nodup) :
    bindParameters s.world.store.scopes.size names values (s.withScope ⟨before, parent⟩) =
      some (.ok (), s.withScope ⟨before ++ parameterBindings names values, parent⟩) := by
  induction names generalizing values before with
  | nil => rw [parameterBindings, List.mapIdx_nil, List.append_nil]; rfl
  | cons name names ih =>
      have hname : name ∉ Scope.names ⟨before, parent⟩ := by
        intro hmem
        exact (List.nodup_append.mp h).2.2 name hmem name List.mem_cons_self rfl
      let added : Binding := ⟨name, values.headD .null, .mutable⟩
      have hadded : ((before ++ [added]).map (·.name) ++ names).Nodup := by
        simpa [added] using h
      have hdeclare := (declareIn_withScope s ⟨before, parent⟩ name added.value .mutable).trans
        (if_neg hname)
      rw [bindParameters_cons]
      refine Run.bind_eq_some.mpr (.inr ⟨_, _, hdeclare, (ih hadded).trans ?_⟩)
      rw [parameterBindings_cons, List.append_assoc]
      rfl

theorem bindParameters_of_nodup {names : List String} (h : names.Nodup) :
    bindParameters s.world.store.scopes.size names values (s.withScope ⟨[], parent⟩) =
      some (.ok (), s.withScope ⟨parameterBindings names values, parent⟩) :=
  bindParameters_withScope (by simpa using h)

/-- **The first name that comes again is refused.**  The parameters before it are bound, and those
after it are not looked at. -/
theorem bindParameters_repeated {fine rest : List String} {name : String} (h : fine.Nodup)
    (hname : name ∈ fine) :
    bindParameters s.world.store.scopes.size (fine ++ name :: rest) values
        (s.withScope ⟨[], parent⟩) =
      some (.error { fault := .duplicateDeclaration name },
        s.withScope ⟨parameterBindings fine values, parent⟩) := by
  have hnames : name ∈ Scope.names ⟨parameterBindings fine values, parent⟩ := by
    rwa [Scope.names, names_parameterBindings]
  rw [bindParameters_append]
  refine Run.bind_eq_some.mpr (.inr ⟨(), _, bindParameters_of_nodup h, ?_⟩)
  rw [bindParameters_cons]
  exact Run.bind_eq_some.mpr (.inl ⟨_, (declareIn_withScope ..).trans (if_pos hnames), rfl⟩)

end

/-- A list without repetitions, or the first element that comes again in it. -/
theorem nodup_or_repeated (names : List String) :
    names.Nodup ∨ ∃ fine name rest, names = fine ++ name :: rest ∧ fine.Nodup ∧ name ∈ fine := by
  induction names using List.reverseRecOn with
  | nil => exact .inl List.nodup_nil
  | append_singleton names name ih =>
      rcases ih with hnodup | ⟨fine, again, rest, rfl, hfine, hmem⟩
      · by_cases hname : name ∈ names
        · exact .inr ⟨names, name, [], rfl, hnodup, hname⟩
        · rw [← List.concat_eq_append, List.nodup_concat]
          exact .inl ⟨hname, hnodup⟩
      · exact .inr ⟨fine, again, rest ++ [name], by simp, hfine, hmem⟩

/-! ### Calls -/

section

variable {closure : Closure} {values : List Value} {s : State}

/-- The scope of a call lies inside that of the declaration and binds the parameters. -/
theorem openScope_of_nodup (h : closure.parameters.Nodup) :
    openScope closure values s =
      some (.ok s.world.store.scopes.size,
        s.withScope ⟨parameterBindings closure.parameters values, some closure.scope⟩) :=
  Run.bind_eq_some.mpr (.inr ⟨_, _, rfl, Run.bind_eq_some.mpr
    (.inr ⟨(), _, bindParameters_of_nodup h, rfl⟩)⟩)

theorem openScope_of_repeated {fine rest : List String} {name : String}
    (hparameters : closure.parameters = fine ++ name :: rest) (h : fine.Nodup)
    (hname : name ∈ fine) :
    openScope closure values s =
      some (.error { fault := .duplicateDeclaration name },
        s.withScope ⟨parameterBindings fine values, some closure.scope⟩) := by
  rw [openScope, hparameters]
  exact Run.bind_eq_some.mpr (.inr ⟨_, _, rfl, Run.bind_eq_some.mpr
    (.inl ⟨_, bindParameters_repeated h hname, rfl⟩)⟩)

end

/-- A push is refused just where the limit is reached. -/
theorem CallStack.push_eq {limit : Option Nat} {frame : Frame} {stack : CallStack} :
    (∀ max, limit = some max → max ≤ stack.depth →
      stack.push limit frame = .error (.stackOverflow max)) ∧
    ((∀ max, limit = some max → stack.depth < max) →
      stack.push limit frame = .ok ⟨stack.frames.push frame⟩) := by
  cases limit with
  | none => exact ⟨by rintro _ ⟨⟩, fun _ => rfl⟩
  | some limit =>
      refine ⟨?_, fun hroom => ?_⟩
      · rintro _ ⟨⟩ hfull
        rw [CallStack.push, if_pos hfull]
      · rw [CallStack.push, if_neg (Nat.not_le.mpr (hroom limit rfl))]

/-- A call opens a scope, and runs the body there under a frame of its own. -/
theorem callClosure_succ (config : Config) (budget : Nat) (closure : Closure)
    (values : List Value) (span : Span) :
    callClosure config (budget + 1) closure values span =
      enterClosure config.policy closure values span fun scope =>
        evalBlock config (callClosure config budget) scope .null closure.body := by
  simp only [callClosure, Run.spread_eq]

/-- Under lenient counting a call is made with as many arguments as there are parameters. -/
theorem callClosure_takeD {config : Config} (h : config.policy.arity = .lenient) (budget : Nat)
    (closure : Closure) (values : List Value) (span : Span) :
    callClosure config budget closure (values.takeD closure.parameters.length .null) span =
      callClosure config budget closure values span := by
  cases budget with
  | zero => rfl
  | succ budget => simp [callClosure, enterClosure, h, bindParameters_takeD]

/-- **Calls bind their parameters, or change nothing.**  A call of a closure, from any state:

* if the policy does not admit the number of arguments, it fails for that;
* else, if a parameter repeats an earlier one, it fails for the first that does;
* else, if the stack holds as many calls as the limit says, it fails for that, at its span;
* else its body runs in a new scope inside that of the declaration, which binds the parameters and
  nothing else, and over a frame with the name of the function and the span of the call, if it has
  one.

Where it fails, the state is the one before, or that with a new scope; so the scopes that existed,
the output, the clock and the stack are the same.  Under lenient counting, cutting the arguments or
filling them up with null to the number of parameters makes no difference. -/
theorem calls_bind_parameters (config : Config) (closure : Closure) (values : List Value)
    (span : Span) (s : State) :
    (∀ budget,
      (¬config.policy.Admits closure values →
        callClosure config (budget + 1) closure values span s =
          some (.error
            { fault := .arityMismatch closure.name closure.parameters.length values.length },
            s)) ∧
      (config.policy.Admits closure values →
        ∀ fine name rest, closure.parameters = fine ++ name :: rest → fine.Nodup → name ∈ fine →
          callClosure config (budget + 1) closure values span s =
            some (.error { fault := .duplicateDeclaration name },
              s.withScope ⟨parameterBindings fine values, some closure.scope⟩)) ∧
      (config.policy.Admits closure values → closure.parameters.Nodup →
        (∀ limit, config.policy.maxCallDepth = some limit → limit ≤ s.stack.depth →
          callClosure config (budget + 1) closure values span s =
            some (.error (Failure.orSpan span { fault := .stackOverflow limit }),
              s.withScope ⟨parameterBindings closure.parameters values, some closure.scope⟩)) ∧
        ((∀ limit, config.policy.maxCallDepth = some limit → s.stack.depth < limit) →
          callClosure config (budget + 1) closure values span s =
            Run.framed
              (evalBlock config (callClosure config budget) s.world.store.scopes.size .null
                closure.body)
              ⟨(s.withScope
                  ⟨parameterBindings closure.parameters values, some closure.scope⟩).world,
                ⟨s.stack.frames.push
                  ⟨closure.name, if span = .dummy then none else some span⟩⟩⟩))) ∧
    (closure.parameters.Nodup ∨ ∃ fine name rest,
      closure.parameters = fine ++ name :: rest ∧ fine.Nodup ∧ name ∈ fine) ∧
    (∀ scope, (∀ id < s.world.store.scopes.size,
        (s.withScope scope).world.store.scope? id = s.world.store.scope? id) ∧
      (s.withScope scope).world.output = s.world.output ∧
      (s.withScope scope).world.clock = s.world.clock ∧ (s.withScope scope).stack = s.stack) ∧
    (config.policy.arity = .lenient → ∀ budget,
      callClosure config budget closure (values.takeD closure.parameters.length .null) span =
        callClosure config budget closure values span) := by
  refine ⟨fun budget => ⟨fun hnot => ?_, fun hadmits fine name rest hparameters hfine hname => ?_,
    fun hadmits hnodup => ⟨fun limit hlimit hfull => ?_, fun hroom => ?_⟩⟩,
    nodup_or_repeated closure.parameters,
    fun scope => ⟨fun id hid => State.scope?_withScope hid scope, rfl, rfl, rfl⟩,
    fun hlenient budget => callClosure_takeD hlenient budget closure values span⟩
  · have hstrict : config.policy.arity = .strict ∧ closure.parameters.length ≠ values.length := by
      simpa [Policy.Admits] using hnot
    rw [callClosure_succ, enterClosure, if_pos hstrict]
    rfl
  · rw [callClosure_succ, enterClosure_of_admits hadmits]
    exact Run.bind_eq_some.mpr (.inl ⟨_, openScope_of_repeated hparameters hfine hname, rfl⟩)
  · rw [callClosure_succ, enterClosure_of_admits hadmits]
    refine Run.bind_eq_some.mpr (.inr ⟨_, _, openScope_of_nodup hnodup, ?_⟩)
    rw [Run.pushFrame_framed_apply]
    simp only [State.withScope, CallStack.push_eq.1 limit hlimit hfull]
  · exact Begins.callClosure
      (.intro hadmits (openScope_of_nodup hnodup) (CallStack.push_eq.2 hroom))

/-- `fn f(…) { y }`, declared in the global scope. -/
def secondOf (parameters : List String) : Closure :=
  ⟨"f", parameters, [.identifier "y" .dummy], ⟨0, "f"⟩, 0⟩

/-- A strict policy that admits no call at all. -/
def callless : Policy := ⟨.nullFallback, .strict, .error, some 0⟩

/-- Two arguments are too few for `f(x, y, x)`, three are refused for the second `x`, and `f(x, y)`
finds no room on the stack.  Under the permissive policy `f(x, y)` called with one argument gives
null, as it does with null for the second. -/
theorem calls_bind_parameters_cases :
    let s := (globalSession callless).state
    let strict : Config := ⟨callless, (globalSession callless).host⟩
    let lenient : Config := ⟨.permissive, (globalSession callless).host⟩
    ¬strict.policy.Admits (secondOf ["x", "y", "x"]) [.null, .null] ∧
    callClosure strict 1 (secondOf ["x", "y", "x"]) [.null, .null] .dummy s =
      some (.error { fault := .arityMismatch "f" 3 2 }, s) ∧
    (∃ scope, callClosure strict 1 (secondOf ["x", "y", "x"]) [.null, .null, .null] .dummy s =
      some (.error { fault := .duplicateDeclaration "x" }, s.withScope scope)) ∧
    (∃ scope, callClosure strict 1 (secondOf ["x", "y"]) [.null, .null] .dummy s =
      some (.error { fault := .stackOverflow 0 }, s.withScope scope)) ∧
    callClosure lenient 1 (secondOf ["x", "y"]) [.bool true] .dummy s =
      some (.ok .null, s.withScope
        ⟨[⟨"x", .bool true, .mutable⟩, ⟨"y", .null, .mutable⟩], some 0⟩) ∧
    callClosure lenient 1 (secondOf ["x", "y"]) [.bool true, .null] .dummy =
      callClosure lenient 1 (secondOf ["x", "y"]) [.bool true] .dummy := by
  intro s strict lenient
  have hnot : ¬strict.policy.Admits (secondOf ["x", "y", "x"]) [.null, .null] := by
    simp [Policy.Admits, strict, callless, secondOf]
  have hthree := (calls_bind_parameters strict (secondOf ["x", "y", "x"]) [.null, .null, .null]
    .dummy s).1 0
  have htwo := (calls_bind_parameters strict (secondOf ["x", "y"]) [.null, .null] .dummy s).1 0
  obtain ⟨hone, -, -, hpad⟩ :=
    calls_bind_parameters lenient (secondOf ["x", "y"]) [.bool true] .dummy s
  refine ⟨hnot, ?_, ?_, ?_, ?_, hpad rfl 1⟩
  · exact ((calls_bind_parameters strict _ _ .dummy s).1 0).1 hnot
  · exact ⟨_, hthree.2.1 (fun _ => rfl) ["x", "y"] "x" [] rfl (by decide) (by decide)⟩
  · exact ⟨_, (htwo.2.2 (fun _ => rfl) (by decide)).1 0 rfl (Nat.zero_le _)⟩
  · refine (((hone 0).2.2 (by rintro ⟨⟩) (by decide)).2 fun limit hlimit => ?_).trans ?_
    · cases hlimit
      decide
    · cbv

end TreeScript
