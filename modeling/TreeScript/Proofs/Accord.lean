import TreeScript.Proofs.Invariance
import TreeScript.Proofs.Parts

/-!
# Proofs — two runs in accord

`Run.Follows le S w R x y` says that `y` follows `x`: from states that `S w` relates, whenever `x`
ends so does `y`, in states that `S w'` relates, with the same failure or with values that `R w'`
relates.  The index grows from `w` to `w'` along the way, as `le` admits; it says what the runs have
come to know of their scopes, and what is known stays known.

The two runs evaluate the same nodes.  Their values are equal, and all closures in them, also those
inside objects, satisfy a predicate `K` (`Value.Holding`).  `Accord` lists what has to be said of
lookups, of changes of the scopes and of natives for two evaluations to follow each other.  It may
depend on the node that is evaluated (`N`) and on the names that a node uses (`M`), and so it can
speak of the names in a program and of the functions nested in it.
-/

namespace TreeScript

/-! ### The closures in a value -/

namespace Value

/-- `closure` is the value, or lies inside it as a property of an object, at any depth. -/
inductive Contains : Value → Closure → Prop where
  | function (closure : Closure) : Contains (.function closure) closure
  | property {properties : List (String × Value)} {key : String} {value : Value}
      {closure : Closure} : (key, value) ∈ properties → Contains value closure →
        Contains (.object properties) closure

/-- The two values are one, and all closures in it satisfy `K`. -/
def Holding (K : Closure → Prop) (v v' : Value) : Prop := v = v' ∧ ∀ c, v.Contains c → K c

theorem mem_setProperty {key : String} {value : Value} {p : String × Value} :
    ∀ {properties : List (String × Value)}, p ∈ setProperty key value properties →
      p = (key, value) ∨ p ∈ properties
  | [], h => by simpa [setProperty] using h
  | (k, v) :: properties, h => by
      simp only [setProperty] at h
      split at h
      · rcases List.mem_cons.mp h with rfl | h
        · exact .inl rfl
        · exact .inr (List.mem_cons_of_mem _ h)
      · rcases List.mem_cons.mp h with rfl | h
        · exact .inr (List.mem_cons_self ..)
        · exact (mem_setProperty h).imp_right (List.mem_cons_of_mem _)

/-- A property of an object literal comes from one of its entries. -/
theorem mem_propertiesOf {entries : List (String × Value)} {p : String × Value}
    (h : p ∈ propertiesOf entries) : p ∈ entries := by
  suffices ∀ properties, p ∈ entries.foldl
      (fun properties entry => setProperty entry.1 entry.2 properties) properties →
        p ∈ properties ∨ p ∈ entries from (this [] h).resolve_left (by simp)
  clear h
  induction entries with
  | nil => exact fun _ h => .inl h
  | cons entry entries ih =>
      intro properties h
      rcases ih _ h with h | h
      · rcases mem_setProperty h with rfl | h
        · exact .inr (List.mem_cons_self ..)
        · exact .inl h
      · exact .inr (List.mem_cons_of_mem _ h)

/-- A closure in an object literal lies in the value of one of its entries. -/
theorem contains_ofEntries {entries : List (String × Value)} {c : Closure}
    (h : (ofEntries entries).Contains c) : ∃ entry ∈ entries, entry.2.Contains c := by
  cases h with
  | property hp hc => exact ⟨_, mem_propertiesOf hp, hc⟩

/-- A closure in a property lies in the object. -/
theorem contains_member {subject value : Value} {key : String} {c : Closure}
    (h : subject.member key = .ok value) (hc : value.Contains c) : subject.Contains c := by
  simp only [member] at h
  split at h
  · split at h <;> cases h
    rename_i properties _ hp
    obtain ⟨before, after, rfl, -⟩ := List.lookup_eq_some_iff.mp hp
    have hmem : (key, value) ∈ before ++ (key, value) :: after := by simp
    exact .property hmem hc
  · cases h

/-- The arithmetic operators make no closures. -/
theorem not_contains_apply {op : BinaryOp} {policy : Policy} {left right value : Value}
    {c : Closure} (h : op.apply policy left right = .ok value) : ¬ value.Contains c := by
  simp only [BinaryOp.apply] at h
  split at h
  · cases hn : op.onNumbers policy.zeroDivision _ _ <;> rw [hn] at h <;> cases h
    rintro ⟨⟩
  · cases hs : op.onStrings _ _ <;> rw [hs] at h <;> cases h
    rintro ⟨⟩
  · split at h <;> cases h
    rintro ⟨⟩

/-- Comparisons make no closures. -/
theorem not_contains_compare {op : ComparisonOp} {left right value : Value} {c : Closure}
    (h : op.apply left right = .ok value) : ¬ value.Contains c := by
  simp only [ComparisonOp.apply] at h
  cases hc : left.compare right <;> rw [hc] at h <;> cases h
  rintro ⟨⟩

end Value

/-! ### Results of two runs -/

/-- The same failure twice, or two values that `R` relates. -/
inductive Results {α : Type} (R : α → α → Prop) :
    Except Failure α → Except Failure α → Prop where
  | ok {a b : α} : R a b → Results R (.ok a) (.ok b)
  | error (failure : Failure) : Results R (.error failure) (.error failure)

/-- Results whose values are equal are equal. -/
theorem Results.eq {α : Type} {R : α → α → Prop} (hR : ∀ a b, R a b → a = b)
    {r r' : Except Failure α} (h : Results R r r') : r = r' := by
  cases h with
  | ok hab => rw [hR _ _ hab]
  | error => rfl

/-- One result twice, if its value is related to itself. -/
theorem Results.same {α : Type} {R : α → α → Prop} {r : Except Failure α}
    (h : ∀ a, r = .ok a → R a a) : Results R r r := by
  cases r with
  | ok a => exact .ok (h a rfl)
  | error failure => exact .error failure

/-! ### One run that follows another -/

namespace Run

variable {W α β : Type} {le : W → W → Prop} {S : W → State → State → Prop} {w : W}

/-- From states that `S w` relates, `y` ends whenever `x` does, in states that `S w'` relates and
with results that `R w'` relates, where `w'` has grown from `w`. -/
def Follows (le : W → W → Prop) (S : W → State → State → Prop) (α : Type) (w : W)
    (R : W → α → α → Prop) (x y : Run α) : Prop :=
  ∀ s t, S w s t → ∀ r s', x s = some (r, s') →
    ∃ w' r' t', le w w' ∧ y t = some (r', t') ∧ S w' s' t' ∧ Results (R w') r r'

namespace Follows

variable {R : W → α → α → Prop} {Q : W → β → β → Prop}

theorem pure (hw : le w w) {a b : α} (hab : R w a b) :
    Follows le S α w R (Pure.pure a) (Pure.pure b) := by
  rintro s t hst r s' ⟨⟩
  exact ⟨w, .ok b, t, hw, rfl, hst, .ok hab⟩

theorem bind (trans : ∀ ⦃u v w⦄, le u v → le v w → le u w) {x y : Run α} {f g : α → Run β}
    (hx : Follows le S α w R x y)
    (hf : ∀ w' a b, le w w' → R w' a b → Follows le S β w' Q (f a) (g b)) :
    Follows le S β w Q (x >>= f) (y >>= g) := by
  intro s t hst r s' h
  rcases Run.bind_eq_some.mp h with ⟨failure, h₁, rfl⟩ | ⟨a, s₁, h₁, h₂⟩
  · obtain ⟨w', r', t', hw, hy, hst', hr⟩ := hx s t hst _ _ h₁
    cases hr
    exact ⟨w', _, t', hw, Run.bind_eq_some.mpr (.inl ⟨failure, hy, rfl⟩), hst', .error _⟩
  · obtain ⟨w₁, r', t₁, hw₁, hy, hst₁, hr⟩ := hx s t hst _ _ h₁
    cases hr with
    | ok hab =>
        obtain ⟨w', r', t', hw', hg, hst', hr⟩ := hf w₁ _ _ hw₁ hab s₁ t₁ hst₁ _ _ h₂
        exact ⟨w', r', t', trans hw₁ hw', Run.bind_eq_some.mpr (.inr ⟨_, t₁, hy, hg⟩), hst', hr⟩

theorem located (span : Span) {x y : Run α} (hx : Follows le S α w R x y) :
    Follows le S α w R (Run.located span x) (Run.located span y) := by
  intro s t hst r s' h
  rcases Run.located_eq_some.mp h with ⟨failure, h₁, rfl⟩ | ⟨a, h₁, rfl⟩
  · obtain ⟨w', r', t', hw, hy, hst', hr⟩ := hx s t hst _ _ h₁
    cases hr
    exact ⟨w', _, t', hw, Run.located_eq_some.mpr (.inl ⟨failure, hy, rfl⟩), hst', .error _⟩
  · obtain ⟨w', r', t', hw, hy, hst', hr⟩ := hx s t hst _ _ h₁
    cases hr with
    | ok hab => exact ⟨w', _, t', hw, Run.located_eq_some.mpr (.inr ⟨_, hy, rfl⟩), hst', .ok hab⟩

/-- A result that does not depend on the state. -/
theorem ofExcept (hw : le w w) {result : Except Fault α} (h : ∀ a, result = .ok a → R w a a) :
    Follows le S α w R (Run.ofExcept result) (Run.ofExcept result) := by
  intro s t hst r s' hr
  cases result with
  | error fault => cases hr; exact ⟨w, _, t, hw, rfl, hst, .error _⟩
  | ok a => cases hr; exact ⟨w, _, t, hw, rfl, hst, .ok (h a rfl)⟩

/-- An answer that the two stores give alike. -/
theorem query (hw : le w w) {question : Store → Except Fault α}
    (h : ∀ s t, S w s t → question t.world.store = question s.world.store ∧
      ∀ a, question s.world.store = .ok a → R w a a) :
    Follows le S α w R (Run.query question) (Run.query question) := by
  intro s t hst r s' hr
  obtain ⟨heq, hR⟩ := h s t hst
  simp only [Run.query] at hr ⊢
  rw [heq]
  split at hr <;> cases hr
  · exact ⟨w, _, t, hw, rfl, hst, .ok (hR _ ‹_›)⟩
  · exact ⟨w, _, t, hw, rfl, hst, .error _⟩

/-- A change that the two stores refuse alike, or that leads to related states. -/
theorem update (hw : le w w) {change : Store → Except Fault Store}
    (h : ∀ s t, S w s t →
      (∃ fault, change s.world.store = .error fault ∧ change t.world.store = .error fault) ∨
        ∃ w' σ τ, le w w' ∧ change s.world.store = .ok σ ∧ change t.world.store = .ok τ ∧
          S w' ⟨⟨σ, s.world.output, s.world.clock⟩, s.stack⟩
            ⟨⟨τ, t.world.output, t.world.clock⟩, t.stack⟩) :
    Follows le S Unit w (fun _ _ _ => True) (Run.update change) (Run.update change) := by
  intro s t hst r s' hr
  rw [Run.update_apply] at hr ⊢
  rcases h s t hst with ⟨fault, hs, ht⟩ | ⟨w', σ, τ, hw', hs, ht, hst'⟩
  · simp only [hs] at hr
    cases hr
    simp only [ht]
    exact ⟨w, _, t, hw, rfl, hst, .error _⟩
  · simp only [hs] at hr
    cases hr
    simp only [ht]
    exact ⟨w', _, _, hw', rfl, hst', .ok trivial⟩

/-- An action with the same result in both worlds, that leads to related states. -/
theorem act {action : World → Except Failure α × World}
    (h : ∀ s t, S w s t → ∃ w', le w w' ∧ (action t.world).1 = (action s.world).1 ∧
      S w' ⟨(action s.world).2, s.stack⟩ ⟨(action t.world).2, t.stack⟩ ∧
        ∀ a, (action s.world).1 = .ok a → R w' a a) :
    Follows le S α w R (Run.act action) (Run.act action) := by
  rintro s t hst r s' ⟨⟩
  obtain ⟨w', hw, heq, hst', hR⟩ := h s t hst
  refine ⟨w', _, _, hw, rfl, hst', ?_⟩
  rw [heq]
  exact .same hR

/-- A call runs bodies that follow each other, if `S` relates only states with one stack and does
not say which. -/
theorem pushFrame_framed (hw : le w w) (same : ∀ ⦃w s t⦄, S w s t → s.stack = t.stack)
    (any : ∀ ⦃w s t⦄ stack, S w s t → S w ⟨s.world, stack⟩ ⟨t.world, stack⟩) (limit : Option Nat)
    (frame : Frame) (span : Span) {x y : Run α} (hx : Follows le S α w R x y) :
    Follows le S α w R (do Run.located span (Run.pushFrame limit frame); Run.framed x)
      (do Run.located span (Run.pushFrame limit frame); Run.framed y) := by
  intro s t hst r s' h
  rw [Run.pushFrame_framed_apply] at h ⊢
  rw [← same hst]
  cases hp : s.stack.push limit frame with
  | error fault =>
      simp only [hp] at h
      cases h
      exact ⟨w, _, t, hw, rfl, hst, .error _⟩
  | ok pushed =>
      simp only [hp, Run.framed_apply, Option.map_eq_some_iff] at h ⊢
      obtain ⟨⟨r₁, s₁⟩, h₁, h₂⟩ := h
      cases h₂
      obtain ⟨w', r', t₁, hw', hy, hst₁, hr⟩ := hx _ _ (any pushed hst) _ _ h₁
      -- one stack at the end of the bodies, so one backtrace and one stack after the pop
      rw [same hst₁]
      refine ⟨w', _, _, hw', ⟨(r', t₁), hy, rfl⟩, any _ hst₁, ?_⟩
      cases hr with
      | ok hab => exact .ok hab
      | error failure => exact .error _

end Follows

end Run

/-! ### Evaluations that follow each other -/

/-- The names that a node itself uses: to read a variable, or to declare one, a function or its
parameters.  The target of an assignment is a part of it, with a name of its own. -/
def Node.ownNames : Node → List String
  | .declaration _ name _ _ | .identifier name _ => [name]
  | .function name parameters _ _ => name :: parameters
  | .object entries _ => (entries.filter (·.value.isNone)).map (·.key)
  | _ => []

theorem Node.assignable_eq_ok {node : Node} {name : String} (h : node.assignable = .ok name) :
    name ∈ node.ownNames := by
  cases node <;> cases h
  exact List.mem_singleton_self _

/-- What makes evaluations under `config` follow each other for `S`.  At every index, `K` holds of
the closures that the runs get hold of, `M` of the names that they use in a scope, and `N` of the
nodes that they evaluate in a scope. -/
structure Accord {W : Type} (config : Config) (le : W → W → Prop) (S : W → State → State → Prop)
    (K : W → Closure → Prop) (M : W → ScopeId → String → Prop) (N : W → ScopeId → Node → Prop) :
    Prop where
  refl (w : W) : le w w
  trans ⦃u v w : W⦄ : le u v → le v w → le u w
  same ⦃w : W⦄ ⦃s t : State⦄ : S w s t → s.stack = t.stack
  any ⦃w : W⦄ ⦃s t : State⦄ (stack : CallStack) : S w s t → S w ⟨s.world, stack⟩ ⟨t.world, stack⟩
  closure_mono {w w' : W} {closure : Closure} : le w w' → K w closure → K w' closure
  name_mono {w w' : W} {scope : ScopeId} {name : String} : le w w' → M w scope name →
    M w' scope name
  node_mono {w w' : W} {scope : ScopeId} {node : Node} : le w w' → N w scope node → N w' scope node
  parts {w : W} {scope : ScopeId} {node : Node} : N w scope node → node.kind ≠ .function →
    ∀ part ∈ node.parts, N w scope part
  names {w : W} {scope : ScopeId} {node : Node} : N w scope node →
    ∀ name ∈ node.ownNames, M w scope name
  closure {w : W} {scope : ScopeId} {name : String} {parameters : List String} {body : List Node}
    {span : Span} (bodyId : BodyId) : N w scope (.function name parameters body span) →
      K w ⟨name, parameters, body, bodyId, scope⟩
  lookup {w : W} {scope : ScopeId} {name : String} {s t : State} : M w scope name → S w s t →
    t.world.store.lookup scope name = s.world.store.lookup scope name ∧
      ∀ v, s.world.store.lookup scope name = .ok v → ∀ c, v.Contains c → K w c
  declare {w : W} {scope : ScopeId} {name : String} {v : Value} (mutability : Mutability) :
    M w scope name → (∀ c, v.Contains c → K w c) →
      Run.Follows le S Unit w (fun _ _ _ => True)
        (Run.update fun store => store.declare scope name v mutability)
        (Run.update fun store => store.declare scope name v mutability)
  assign {w : W} {scope : ScopeId} {name : String} {v : Value} : M w scope name →
    (∀ c, v.Contains c → K w c) →
      Run.Follows le S Unit w (fun _ _ _ => True)
        (Run.update fun store => store.assign scope name v)
        (Run.update fun store => store.assign scope name v)
  newScope {w : W} {closure : Closure} : K w closure →
    Run.Follows le S ScopeId w
      (fun w a b => a = b ∧ (∀ name ∈ closure.parameters, M w a name) ∧
        ∀ node ∈ closure.body, N w a node)
      (Run.newScope (some closure.scope)) (Run.newScope (some closure.scope))
  native {w : W} {scope : ScopeId} {node : Node} (native : Native) {values : List Value} :
    N w scope node → (∀ v ∈ values, ∀ c, v.Contains c → K w c) →
      Run.Follows le S Value w (fun w => Value.Holding (K w))
        (Run.act (config.host.call native values scope))
        (Run.act (config.host.call native values scope))

namespace Accord

variable {W : Type} {config : Config} {le : W → W → Prop} {S : W → State → State → Prop}
  {K : W → Closure → Prop} {M : W → ScopeId → String → Prop} {N : W → ScopeId → Node → Prop}
  {w : W} {scope : ScopeId}

theorem value_mono (h : Accord config le S K M N) {w' : W} (hw : le w w') {v v' : Value}
    (hv : Value.Holding (K w) v v') : Value.Holding (K w') v v' :=
  ⟨hv.1, fun c hc => h.closure_mono hw (hv.2 c hc)⟩

theorem declareIn (h : Accord config le S K M N) {name : String} (hM : M w scope name) {v : Value}
    (mutability : Mutability) (hv : ∀ c, v.Contains c → K w c) :
    Run.Follows le S Value w (fun w => Value.Holding (K w))
      (TreeScript.declareIn scope name v mutability)
      (TreeScript.declareIn scope name v mutability) :=
  (h.declare mutability hM hv).bind h.trans fun w' _ _ hw _ =>
    .pure (h.refl w') (h.value_mono hw ⟨rfl, hv⟩)

theorem assignIn (h : Accord config le S K M N) {name : String} (hM : M w scope name) {v : Value}
    (hv : ∀ c, v.Contains c → K w c) :
    Run.Follows le S Value w (fun w => Value.Holding (K w)) (TreeScript.assignIn scope name v)
      (TreeScript.assignIn scope name v) :=
  (h.assign hM hv).bind h.trans fun w' _ _ hw _ => .pure (h.refl w') (h.value_mono hw ⟨rfl, hv⟩)

theorem query (h : Accord config le S K M N) {name : String} (hM : M w scope name) :
    Run.Follows le S Value w (fun w => Value.Holding (K w))
      (Run.query fun store => store.lookup scope name)
      (Run.query fun store => store.lookup scope name) :=
  .query (h.refl w) fun _ _ hst =>
    ⟨(h.lookup hM hst).1, fun v hv => ⟨rfl, (h.lookup hM hst).2 v hv⟩⟩

theorem values {K : Closure → Prop} {vs vs' : List Value}
    (h : List.Forall₂ (Value.Holding K) vs vs') :
    vs = vs' ∧ ∀ v ∈ vs, ∀ c, v.Contains c → K c := by
  induction h with
  | nil => simp
  | cons hv _ ih =>
      obtain ⟨rfl, hv⟩ := hv
      obtain ⟨rfl, ih⟩ := ih
      exact ⟨rfl, List.forall_mem_cons.mpr ⟨hv, ih⟩⟩

/-- The two callers follow each other on closures and values that the runs get hold of. -/
def Calls (le : W → W → Prop) (S : W → State → State → Prop) (K : W → Closure → Prop)
    (call call' : Caller) : Prop :=
  ∀ w closure values span, K w closure → (∀ v ∈ values, ∀ c, v.Contains c → K w c) →
    Run.Follows le S Value w (fun w => Value.Holding (K w)) (call closure values span)
      (call' closure values span)

/-- Two callers that follow each other apply values alike. -/
theorem applyValue (h : Accord config le S K M N) {node : Node} (hN : N w scope node)
    {call call' : Caller} (hcall : Calls le S K call call') {f : Value}
    (hf : ∀ c, f.Contains c → K w c) {values : List Value}
    (hvalues : ∀ v ∈ values, ∀ c, v.Contains c → K w c) (span : Span) :
    Run.Follows le S Value w (fun w => Value.Holding (K w))
      (TreeScript.applyValue config call scope f values span)
      (TreeScript.applyValue config call' scope f values span) := by
  cases f with
  | native native => exact h.native native hN hvalues
  | function closure => exact hcall w closure values span (hf closure (.function closure)) hvalues
  | number | string | bool | null | object =>
      show Run.Follows le S Value w _ (Run.ofExcept (.error (.notCallable _))) _
      exact .ofExcept (h.refl w) (by rintro _ ⟨⟩)

/-- Two callers that follow each other make evaluations that do, from the index on at which the
nodes were admitted. -/
theorem corresponds (h : Accord config le S K M N) (w₀ : W) (scope : ScopeId)
    {call call' : Caller} (hcall : Calls le S K call call') :
    Corresponds le config config call call' scope scope (fun n m => n = m ∧ N w₀ scope n)
      (fun w => Value.Holding (K w))
      (fun α w R x y => le w₀ w → Run.Follows le S α w R x y) where
  alike := by
    rintro n _ ⟨rfl, hN⟩
    exact .of_parts fun hkind => h.parts hN hkind
  mono hw hv := h.value_mono hw hv
  pure {_ w _ _ _} hab _ := .pure (h.refl w) hab
  bind hx hf hw := (hx hw).bind h.trans fun w' a b hw' hab => hf w' a b hw' hab (h.trans hw hw')
  located := by
    rintro α w R n _ s s' x y ⟨rfl, -⟩ rfl rfl hx hw
    exact (hx hw).located _
  null _ := ⟨rfl, by rintro c ⟨⟩⟩
  number _ _ := ⟨rfl, by rintro c ⟨⟩⟩
  string _ _ := ⟨rfl, by rintro c ⟨⟩⟩
  object := by
    intro w entries entries' hentries
    obtain ⟨rfl, hK⟩ : entries = entries' ∧ ∀ entry ∈ entries, ∀ c, entry.2.Contains c → K w c := by
      induction hentries with
      | nil => simp
      | @cons a b _ _ hab _ ih =>
          obtain ⟨key, v⟩ := a
          obtain ⟨rfl, rfl, hv⟩ := hab
          obtain ⟨rfl, ih⟩ := ih
          exact ⟨rfl, List.forall_mem_cons.mpr ⟨hv, ih⟩⟩
    refine ⟨rfl, fun c hc => ?_⟩
    obtain ⟨entry, hentry, hc⟩ := Value.contains_ofEntries hc
    exact hK entry hentry c hc
  identifier w hn hw :=
    h.query (h.name_mono hw (h.names hn.2 _ (List.mem_singleton_self _)))
  short w hn hkey hw := by
    refine h.query (h.name_mono hw (h.names hn.2 _ ?_))
    exact List.mem_map.mpr ⟨_, List.mem_filter.mpr ⟨hkey, rfl⟩, rfl⟩
  declaration := by
    rintro constant name n n' s s' w v _ hn ⟨rfl, hv⟩ hw
    exact h.declareIn (h.name_mono hw (h.names hn.2 _ (List.mem_singleton_self _))) _ hv
  function := by
    rintro name parameters body body' s s' w ⟨heq, hN⟩ hw
    cases heq
    refine h.declareIn (h.name_mono hw (h.names hN _ (List.mem_cons_self ..))) _ ?_
    rintro _ ⟨⟩
    exact h.closure_mono hw (h.closure _ hN)
  target := by
    rintro target target' n n' s s' w ⟨heq, -⟩ -
    cases heq
    exact .located _ (.ofExcept (h.refl w) fun name hname => ⟨hname, hname⟩)
  assignment := by
    rintro target target' n n' s s' name name' w v _ ⟨heq, hN⟩ ht ht' ⟨rfl, hv⟩ hw
    cases heq
    cases ht.symm.trans ht'
    have htarget : N w₀ scope target := h.parts hN nofun target (by simp [Node.parts])
    exact h.assignIn (h.name_mono hw (h.names htarget _ (Node.assignable_eq_ok ht))) hv
  binary := by
    rintro op w l _ r _ ⟨rfl, -⟩ ⟨rfl, -⟩ -
    exact .ofExcept (h.refl w) fun v hv =>
      ⟨rfl, fun c hc => absurd hc (Value.not_contains_apply hv)⟩
  comparison := by
    rintro op w l _ r _ ⟨rfl, -⟩ ⟨rfl, -⟩ -
    exact .ofExcept (h.refl w) fun v hv =>
      ⟨rfl, fun c hc => absurd hc (Value.not_contains_compare hv)⟩
  member := by
    rintro key w v _ ⟨rfl, hK⟩ -
    exact .ofExcept (h.refl w) fun v hv => ⟨rfl, fun c hc => hK c (Value.contains_member hv hc)⟩
  condition := by
    rintro w v _ ⟨rfl, -⟩ -
    exact .ofExcept (h.refl w) fun _ _ => rfl
  apply := by
    rintro n n' ns ns' s s' w f _ as as' ⟨heq, hN⟩ ⟨rfl, hf⟩ has hw
    cases heq
    obtain ⟨rfl, has'⟩ := values has
    exact h.applyValue (h.node_mono hw hN) hcall hf has' s
  property := by
    rintro entry entry' s s' w ⟨heq, -⟩ -
    cases heq
    rw [evalNode]
    exact .located _ (.ofExcept (h.refl w) (by rintro _ ⟨⟩))

theorem bindParameters (h : Accord config le S K M N) :
    ∀ (w : W) (names : List String) (values : List Value), (∀ name ∈ names, M w scope name) →
      (∀ v ∈ values, ∀ c, v.Contains c → K w c) →
      Run.Follows le S Unit w (fun _ _ _ => True) (TreeScript.bindParameters scope names values)
        (TreeScript.bindParameters scope names values)
  | w, [], _, _, _ => .pure (h.refl w) trivial
  | w, name :: names, [], hM, _ => by
      obtain ⟨hname, hnames⟩ := List.forall_mem_cons.mp hM
      refine (h.declareIn hname .mutable (by rintro c ⟨⟩)).bind h.trans fun w' _ _ hw _ => ?_
      exact h.bindParameters w' names [] (fun n hn => h.name_mono hw (hnames n hn)) nofun
  | w, name :: names, v :: vs, hM, hvs => by
      obtain ⟨hname, hnames⟩ := List.forall_mem_cons.mp hM
      obtain ⟨hv, hvs⟩ := List.forall_mem_cons.mp hvs
      refine (h.declareIn hname .mutable hv).bind h.trans fun w' _ _ hw _ => ?_
      exact h.bindParameters w' names vs (fun n hn => h.name_mono hw (hnames n hn))
        fun v hm c hc => h.closure_mono hw (hvs v hm c hc)

/-- Calls follow each other, if their bodies do in the scope of the call. -/
theorem enterClosure (h : Accord config le S K M N) {closure : Closure} (hK : K w closure)
    {values : List Value} (hvalues : ∀ v ∈ values, ∀ c, v.Contains c → K w c) (span : Span)
    {body body' : ScopeId → Run Value}
    (hbody : ∀ w' scope, le w w' → (∀ node ∈ closure.body, N w' scope node) →
      Run.Follows le S Value w' (fun w => Value.Holding (K w)) (body scope) (body' scope)) :
    Run.Follows le S Value w (fun w => Value.Holding (K w))
      (TreeScript.enterClosure config.policy closure values span body)
      (TreeScript.enterClosure config.policy closure values span body') := by
  simp only [TreeScript.enterClosure]
  split
  · exact .ofExcept (h.refl w) (by rintro _ ⟨⟩)
  · refine (h.newScope hK).bind h.trans ?_
    rintro w₁ scope _ hw₁ ⟨rfl, hM, hN⟩
    have hvalues₁ : ∀ v ∈ values, ∀ c, v.Contains c → K w₁ c :=
      fun v hv c hc => h.closure_mono hw₁ (hvalues v hv c hc)
    refine (h.bindParameters w₁ closure.parameters values hM hvalues₁).bind h.trans
      fun w₂ _ _ hw₂ _ => ?_
    refine .pushFrame_framed (h.refl w₂) h.same h.any _ _ _ (hbody w₂ scope (h.trans hw₁ hw₂) ?_)
    exact fun node hnode => h.node_mono hw₂ (hN node hnode)

/-- **Calls follow each other**, the one with the larger budget that with the smaller. -/
theorem callClosure (h : Accord config le S K M N) {budget budget' : Nat} (hb : budget ≤ budget') :
    Calls le S K (TreeScript.callClosure config budget)
      (TreeScript.callClosure config budget') := by
  induction budget generalizing budget' with
  | zero => rintro w closure values span - - s t - r s' ⟨⟩
  | succ budget ih =>
      intro w closure values span hK hvalues
      obtain ⟨budget', rfl⟩ : ∃ n, budget' = n + 1 := ⟨budget' - 1, by omega⟩
      refine h.enterClosure hK hvalues span fun w' scope hw hN => ?_
      rw [Run.spread_eq, Run.spread_eq]
      have all : List.Forall₂ (fun n m => n = m ∧ N w' scope n) closure.body closure.body :=
        List.forall₂_same.mpr fun n hn => ⟨rfl, hN n hn⟩
      exact (h.corresponds w' scope (ih (by omega))).evalBlock _ _ w' _ _ all
        ⟨rfl, by rintro c ⟨⟩⟩ (h.refl w')

/-- **Evaluations follow each other**, the one with the larger budget that with the smaller. -/
theorem evaluateWithin (h : Accord config le S K M N) {budget budget' : Nat}
    (hb : budget ≤ budget') {node : Node} (hN : N w scope node) :
    Run.Follows le S Value w (fun w => Value.Holding (K w))
      (TreeScript.evaluateWithin config budget scope node)
      (TreeScript.evaluateWithin config budget' scope node) :=
  (h.corresponds w scope (h.callClosure hb)).evalNode node node w ⟨rfl, hN⟩ (h.refl w)

/-- So do calls that the host makes, in a scope where some node can be evaluated. -/
theorem callValue (h : Accord config le S K M N) (node : Node) (hN : N w scope node)
    {callee : Value} (hcallee : ∀ c, callee.Contains c → K w c) {values : List Value}
    (hvalues : ∀ v ∈ values, ∀ c, v.Contains c → K w c) (span : Span) :
    Run.Follows le S Value w (fun w => Value.Holding (K w))
      (TreeScript.callValue config scope callee values span)
      (TreeScript.callValue config scope callee values span) :=
  h.applyValue hN (h.callClosure (Nat.le_refl _)) hcallee hvalues span

end Accord

end TreeScript
