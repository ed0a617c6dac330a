import TreeScript.Proofs.Declarations
import TreeScript.Proofs.Updates

/-!
# Proofs — code without calls

Code that calls nothing does no more than it mentions (`effects_bounded`).  Whatever the policy, it
ends, creates no scope, prints nothing and leaves the live calls alone; it adds to its scope only
names that it declares, and gives new values only to mutable names that it assigns to, in the scopes
from its own outward.  Code that neither declares nor assigns changes nothing at all.  The bodies of
the functions that it declares do not count, because nothing runs them.

The bound is a relation between the stores before and after (`Store.Alters`).  One declaration and
one assignment keep to it, and so does any sequence of them, also one that a failure cuts short.  As
no part of a node without calls is a call, it does not matter how closures are called
(`Composes.inherits_limited`).
-/

namespace TreeScript

/-! ### What a node mentions -/

namespace Node

/-- `part` is the node, or occurs in it outside the bodies of functions. -/
inductive Occurs (part : Node) : Node → Prop where
  | here : Occurs part part
  | inside {node child : Node} : node.kind ≠ .function → child ∈ node.parts → Occurs part child →
      Occurs part node

/-- What holds of a node, and of all that occurs in its parts, holds of all that occurs in it. -/
theorem forall_occurs {P : Node → Prop} {node : Node} (h : P node)
    (hparts : node.kind ≠ .function → ∀ child ∈ node.parts, ∀ part, Occurs part child → P part) :
    ∀ part, Occurs part node → P part := by
  intro part hoccurs
  cases hoccurs with
  | here => exact h
  | inside hkind hchild hinner => exact hparts hkind _ hchild part hinner

/-- No call occurs in the node outside the bodies of functions. -/
def CallFree (node : Node) : Prop := ∀ part : Node, part.Occurs node → part.kind ≠ .call

/-- The node assigns to the name, outside the bodies of functions. -/
def Assigns (node : Node) (name : String) : Prop :=
  ∃ place value span, (Node.assignment (.identifier name place) value span).Occurs node

theorem Declares.occurs {node : Node} {name : String} (h : node.Declares name) :
    ∃ part : Node, part.Occurs node ∧ part.declaredName? = some name := by
  induction h with
  | here hname => exact ⟨_, .here, hname⟩
  | inside hkind hpart _ ih =>
      obtain ⟨part, hoccurs, hname⟩ := ih
      exact ⟨part, .inside hkind hpart hoccurs, hname⟩

/-- A node without calls that declares and assigns to no other names than these. -/
structure Limited (declared assigned : String → Prop) (node : Node) : Prop where
  callFree : node.CallFree
  declares (name : String) : node.Declares name → declared name
  assigns (name : String) : node.Assigns name → assigned name

theorem Limited.part {declared assigned : String → Prop} {node part : Node}
    (h : node.Limited declared assigned) (hkind : node.kind ≠ .function)
    (hpart : part ∈ node.parts) : part.Limited declared assigned where
  callFree inner hinner := h.callFree inner (.inside hkind hpart hinner)
  declares name hname := h.declares name (.inside hkind hpart hname)
  assigns name := fun ⟨place, value, span, hoccurs⟩ =>
    h.assigns name ⟨place, value, span, .inside hkind hpart hoccurs⟩

end Node

/-- Limited nodes inherit a property that composes, if the declarations and assignments that they
admit have it. -/
theorem Composes.inherits_limited {holds : (α : Type) → (α → Prop) → Run α → Prop}
    (h : Composes holds) (config : Config) (call : Caller) (scope : ScopeId)
    {declared assigned : String → Prop}
    (hd : ∀ name value mutability, declared name →
      holds Value (fun _ => True) (declareIn scope name value mutability))
    (ha : ∀ name value, assigned name → holds Value (fun _ => True) (assignIn scope name value)) :
    Inherits config call scope (Node.Limited declared assigned) holds where
  toSequences := h.toSequences
  parts hnode := .of_parts fun hkind _ hpart => hnode.part hkind hpart
  lookup _ := h.query fun _ _ _ => trivial
  declaration v hnode := hd _ v _ (hnode.declares _ (.here rfl))
  function hnode := hd _ _ _ (hnode.declares _ (.here rfl))
  target _ := h.ofExcept fun _ hname => hname
  assignment {target _ _ name} v hnode htarget := by
    cases target with
    | identifier _ place =>
        cases htarget
        exact ha name v (hnode.assigns name ⟨place, _, _, .here⟩)
    | _ => cases htarget
  binary _ _ _ := h.ofExcept fun _ _ => trivial
  comparison _ _ _ := h.ofExcept fun _ _ => trivial
  member _ _ := h.ofExcept fun _ _ => trivial
  condition _ := h.ofExcept fun _ _ => trivial
  apply _ _ hnode := absurd rfl (hnode.callFree _ .here)
  property _ _ := h.ofExcept fun _ _ => trivial

/-! ### Stores before and after -/

namespace Store

/-- What may become of a store by code in `scope`.  Its scopes are the same, inside the same scopes.
Every binding is there, as mutable as it was; it has the value that it had, unless it is mutable and
of an assigned name, in a scope from `scope` outward.  New bindings are of declared names, in
`scope`. -/
structure Alters (scope : ScopeId) (declared assigned : String → Prop) (before after : Store) : Prop
    extends before.SameScopes after where
  kept {id : ScopeId} {name : String} {b : Binding} : before.ownBinding? id name = some b →
    ∃ value, after.ownBinding? id name = some { b with value := value } ∧
      (value = b.value ∨ b.mutability = .mutable ∧ id ∈ before.chain scope ∧ assigned name)
  added {id : ScopeId} {name : String} {b : Binding} : before.ownBinding? id name = none →
    after.ownBinding? id name = some b → id = scope ∧ declared name

variable {scope : ScopeId} {declared assigned : String → Prop}

theorem Alters.refl (store : Store) : store.Alters scope declared assigned store where
  toSameScopes := .refl store
  kept h := ⟨_, h, .inl rfl⟩
  added hnone h := by rw [hnone] at h; cases h

theorem Alters.trans {a b c : Store} (h₁ : a.Alters scope declared assigned b)
    (h₂ : b.Alters scope declared assigned c) : a.Alters scope declared assigned c where
  size := h₂.size.trans h₁.size
  parent id := (h₂.parent id).trans (h₁.parent id)
  kept {id name x} hx := by
    obtain ⟨value, hy, hvalue⟩ := h₁.kept hx
    obtain ⟨value', hz, hvalue'⟩ := h₂.kept hy
    have hchain : b.chain scope = a.chain scope := chain_congr fun k _ => h₁.parent k
    refine ⟨value', hz, ?_⟩
    rcases hvalue' with rfl | hassigned
    · exact hvalue
    · rw [hchain] at hassigned
      exact .inr hassigned
  added {id name z} hnone hz := by
    cases hy : b.ownBinding? id name with
    | none => exact h₂.added hy hz
    | some y => exact h₁.added hnone hy

/-- Replacing what one scope binds to a name keeps to the bound, if the binding is new and declared
here, or is an old one with an assigned value. -/
theorem Rebinds.alters {before after : Store} {owner : ScopeId} {name : String} {binding : Binding}
    (h : before.Rebinds after owner name binding) (hscopes : before.SameScopes after)
    (hnew : before.ownBinding? owner name = none → owner = scope ∧ declared name)
    (hold : ∀ b, before.ownBinding? owner name = some b →
      binding = { b with value := binding.value } ∧ b.mutability = .mutable ∧
        owner ∈ before.chain scope ∧ assigned name) :
    before.Alters scope declared assigned after where
  toSameScopes := hscopes
  kept {id key b} hb := by
    rw [h.own]
    split
    · rename_i heq
      obtain ⟨rfl, rfl⟩ := heq
      obtain ⟨hbinding, hassigned⟩ := hold b hb
      exact ⟨binding.value, congrArg some hbinding, .inr hassigned⟩
    · exact ⟨b.value, hb, .inl rfl⟩
  added {id key b} hnone hb := by
    rw [h.own] at hb
    split at hb
    · rename_i heq
      obtain ⟨rfl, rfl⟩ := heq
      exact hnew hnone
    · rw [hnone] at hb
      cases hb

/-- A declaration adds a binding to its scope, if that exists, and else does nothing. -/
theorem alters_declare {store store' : Store} {name : String} {value : Value}
    {mutability : Mutability} (h : store.declare scope name value mutability = .ok store')
    (hname : declared name) : store.Alters scope declared assigned store' := by
  have hscopes : store.SameScopes store' := .declare h
  obtain ⟨hfree, rfl⟩ := declare_eq_ok h
  cases hscope : store.scope? scope with
  | none =>
      have hsize : ¬ scope < store.scopes.size := by
        simpa [scope?] using hscope
      have hsame : store.scopes.modify scope (·.add ⟨name, value, mutability⟩) = store.scopes := by
        simp [Array.modify, Array.modifyM, hsize]
      rw [hsame]
      exact .refl store
  | some inner =>
      refine (rebinds_add hscope hfree value mutability).alters hscopes (fun _ => ⟨rfl, hname⟩) ?_
      intro b hb
      rw [binds_eq_isSome, hb] at hfree
      cases hfree

/-- An assignment gives its value to a mutable binding in a scope from `scope` outward. -/
theorem alters_assign {store store' : Store} {name : String} {value : Value}
    (h : store.assign scope name value = .ok store') (hname : assigned name) :
    store.Alters scope declared assigned store' := by
  have hscopes : store.SameScopes store' := .assign h
  obtain ⟨owner, inner, binding, hresolve, hinner, hfind, hmutable, rfl⟩ := assign_eq_ok h
  have hown : store.ownBinding? owner name = some binding := by
    rw [ownBinding?, hinner]
    exact hfind
  refine (rebinds_setValue hown value).alters hscopes ?_ ?_
  · intro hnone
    rw [hown] at hnone
    cases hnone
  · intro b hb
    rw [hown] at hb
    cases hb
    exact ⟨rfl, hmutable, List.mem_of_find?_eq_some hresolve, hname⟩

end Store

/-! ### Runs of code without calls -/

/-- The state `after` has the output and the clock of `before`, and its store is altered within the
bound. -/
def State.Alters (scope : ScopeId) (declared assigned : String → Prop) (before after : State) :
    Prop :=
  after.world.output = before.world.output ∧ after.world.clock = before.world.clock ∧
    before.world.store.Alters scope declared assigned after.world.store

variable {scope : ScopeId} {node : Node} {declared assigned : String → Prop}

/-- A limited node ends from every state, with the live calls that it started with. -/
theorem evalNode_ends (h : node.Limited declared assigned) (config : Config) (call : Caller)
    (scope : ScopeId) (s : State) :
    ∃ r s', evalNode config call scope node s = some (r, s') ∧ s'.stack = s.stack := by
  -- no call is needed, so a budget of one reaches beyond a limit of none
  have hends : Run.Ends 0 1 Value (fun _ => True) (evalNode config call scope node) :=
    ((Run.ends_composes 0 1).inherits_limited config call scope
      (fun name value mutability _ => declareIn_ends scope name value mutability)
      fun name value _ => assignIn_ends scope name value).evalNode h
  obtain ⟨r, s', hrun, hstack, -⟩ := hends Nat.one_pos s (Nat.succ_pos _)
  exact ⟨r, s', hrun, hstack⟩

variable {config : Config} {call : Caller}

/-- **What a limited node does to the world**, however it ends. -/
theorem evalNode_alters (h : node.Limited declared assigned) {s s' : State}
    {r : Except Failure Value} (hrun : evalNode config call scope node s = some (r, s')) :
    s.Alters scope declared assigned s' := by
  have refl : ∀ s : State, s.Alters scope declared assigned s := fun _ => ⟨rfl, rfl, .refl _⟩
  have composes : Composes (Run.Keeps (State.Alters scope declared assigned)) :=
    Run.keeps_composes refl fun _ _ _ ⟨houtput, hclock, hstore⟩ ⟨houtput', hclock', hstore'⟩ =>
      ⟨houtput'.trans houtput, hclock'.trans hclock, hstore.trans hstore'⟩
  have hkeeps : Run.Keeps (State.Alters scope declared assigned) Value (fun _ => True)
      (evalNode config call scope node) := by
    refine (composes.inherits_limited config call scope ?_ ?_).evalNode h
    · intro name value mutability hname
      refine composes.bind (Run.keeps_update refl fun s store hstore => ?_) fun _ _ =>
        composes.pure trivial
      exact ⟨rfl, rfl, Store.alters_declare hstore hname⟩
    · intro name value hname
      refine composes.bind (Run.keeps_update refl fun s store hstore => ?_) fun _ _ =>
        composes.pure trivial
      exact ⟨rfl, rfl, Store.alters_assign hstore hname⟩
  exact (hkeeps s r s' hrun).1

/-- A node that may neither declare nor assign changes nothing. -/
theorem evalNode_unchanged (h : node.Limited (fun _ => False) fun _ => False) {s s' : State}
    {r : Except Failure Value} (hrun : evalNode config call scope node s = some (r, s')) :
    s' = s := by
  have composes : Composes (Run.Keeps fun s s' => s' = s) :=
    Run.keeps_composes (fun _ => rfl) fun _ _ _ h₁ h₂ => h₂.trans h₁
  have hkeeps : Run.Keeps (fun s s' => s' = s) Value (fun _ => True)
      (evalNode config call scope node) :=
    (composes.inherits_limited config call scope (fun _ _ _ hname => hname.elim)
      fun _ _ hname => hname.elim).evalNode h
  exact (hkeeps s r s' hrun).1

/-- **Code without calls does no more than it mentions.**  Let no call occur in a node outside the
bodies of functions.  Under every policy its evaluation ends, from every state and without any
nested call, with a value or a failure.  Either way what is printed, the clock and the live calls
are as before, no scope is created, and the store is altered only by names that the node declares,
in its scope, and by values of mutable names that it assigns to, from its scope outward.  If no
declaration of a variable or a function and no assignment occurs in it either, the state is the very
same, and another evaluation ends alike. -/
theorem effects_bounded (config : Config) (scope : ScopeId) (node : Node) (hfree : node.CallFree)
    (s : State) :
    ∃ r s', evaluate config scope node s = some (r, s') ∧
      (∀ budget, evaluateWithin config budget scope node s = some (r, s')) ∧
      s'.world.output = s.world.output ∧ s'.world.clock = s.world.clock ∧ s'.stack = s.stack ∧
      s.world.store.Alters scope node.Declares node.Assigns s'.world.store ∧
      ((∀ part : Node, part.Occurs node → part.kind ∉ [.declaration, .function, .assignment]) →
        s' = s ∧ evaluate config scope node s' = some (r, s')) := by
  have hlimited : node.Limited node.Declares node.Assigns := ⟨hfree, fun _ h => h, fun _ h => h⟩
  obtain ⟨r, s', hrun, hstack⟩ := evalNode_ends hlimited config (callClosure config 0) scope s
  have hbudget : ∀ budget, evaluateWithin config budget scope node s = some (r, s') :=
    fun budget => evaluateWithin_mono (Nat.zero_le budget) hrun
  obtain ⟨houtput, hclock, hstore⟩ := evalNode_alters hlimited hrun
  refine ⟨r, s', hbudget _, hbudget, houtput, hclock, hstack, hstore, fun hpure => ?_⟩
  have hunlimited : node.Limited (fun _ => False) fun _ => False := by
    refine ⟨hfree, fun name hname => ?_, fun name hname => ?_⟩
    · obtain ⟨part, hoccurs, hdeclares⟩ := hname.occurs
      refine hpure part hoccurs ?_
      cases part <;> cases hdeclares <;> simp [Node.kind]
    · obtain ⟨place, value, span, hoccurs⟩ := hname
      exact hpure _ hoccurs (by simp [Node.kind])
  cases evalNode_unchanged hunlimited hrun
  exact ⟨rfl, hbudget _⟩

/-- `let y = x  x = "new"  fn f() { f() }  { x, z: missing }`. -/
def interruptedUpdate : Node :=
  .program
    [.declaration false "y" (some (.identifier "x" .dummy)) .dummy,
      .assignment (.identifier "x" .dummy) (.string "new" .dummy) .dummy,
      .function "f" [] [.call (.identifier "f" .dummy) [] .dummy] .dummy,
      .object [⟨"x", none⟩, ⟨"z", some (.identifier "missing" .dummy)⟩] .dummy] .dummy

/-- `{ a: x } == x`. -/
def mixedComparison : Node :=
  .comparison (.object [⟨"a", some (.identifier "x" .dummy)⟩] .dummy) (.identifier "x" .dummy) .eq
    .dummy

/-- The configuration of a host without functions that sets no limit on the live calls. -/
def unlimitedConfig : Config := ⟨{ Policy.default with maxCallDepth := none }, .empty⟩

/-- Evaluated in the second scope of the family, the first program declares `y` and `f` there and
assigns to `x` in the scope around it, before it fails halfway through the object.  The second
program fails too and changes nothing. -/
theorem effects_bounded_interrupted :
    interruptedUpdate.CallFree ∧
    (∃ failure s', evaluate unlimitedConfig 1 interruptedUpdate familyState =
        some (.error failure, s') ∧
      failure.fault = .undefinedVariable "missing" ∧
      s'.world.store.names 1 = ["y", "f"] ∧ s'.world.store.lookup 0 "x" = .ok (.string "new") ∧
      familyState.world.store.Alters 1 interruptedUpdate.Declares interruptedUpdate.Assigns
        s'.world.store) ∧
    mixedComparison.CallFree ∧
    ∃ failure, evaluate unlimitedConfig 1 mixedComparison familyState =
        some (.error failure, familyState) ∧
      failure.fault = .typeMismatch "object" "null" := by
  have hidentifier : ∀ {P : Node → Prop} (name : String), P (.identifier name .dummy) →
      ∀ part : Node, part.Occurs (.identifier name .dummy) → P part :=
    fun _ h => Node.forall_occurs h (by simp [Node.parts])
  have hfree : interruptedUpdate.CallFree := by
    refine Node.forall_occurs (by decide) fun _ => ?_
    simp only [interruptedUpdate, Node.parts, List.forall_mem_cons]
    refine ⟨?_, ?_, ?_, ?_, by simp⟩
    · exact Node.forall_occurs (by decide) fun _ =>
        List.forall_mem_singleton.mpr (hidentifier "x" (by decide))
    · exact Node.forall_occurs (by decide) fun _ =>
        List.forall_mem_cons.mpr ⟨hidentifier "x" (by decide),
          List.forall_mem_singleton.mpr (Node.forall_occurs (by decide) (by simp [Node.parts]))⟩
    · exact Node.forall_occurs (by decide) fun hkind => absurd rfl hkind
    · exact Node.forall_occurs (by decide) fun _ =>
        List.forall_mem_singleton.mpr (hidentifier "missing" (by decide))
  have hpure : ∀ part : Node, part.Occurs mixedComparison →
      part.kind ∉ [.call, .declaration, .function, .assignment] := by
    refine Node.forall_occurs (by decide) fun _ => List.forall_mem_cons.mpr
      ⟨?_, List.forall_mem_singleton.mpr (hidentifier "x" (by decide))⟩
    exact Node.forall_occurs (by decide) fun _ =>
      List.forall_mem_singleton.mpr (hidentifier "x" (by decide))
  have hfree' : mixedComparison.CallFree :=
    fun part hpart hcall => hpure part hpart (by simp [hcall])
  have hinterrupted : Run.failure? (evaluateWithin unlimitedConfig 0 1 interruptedUpdate
      familyState) = some { fault := .undefinedVariable "missing" } := by
    decide +kernel
  have hnames : (evaluateWithin unlimitedConfig 0 1 interruptedUpdate familyState).map
      (fun p => p.2.world.store.names 1) = some ["y", "f"] := by
    decide +kernel
  have hlookup : (evaluateWithin unlimitedConfig 0 1 interruptedUpdate familyState).bind
      (fun p => (p.2.world.store.lookup 0 "x").toOption.map fun v => (v.typeName, v.printForm)) =
        some ("string", "new") := by
    decide +kernel
  have hmixed : Run.failure? (evaluateWithin unlimitedConfig 0 1 mixedComparison familyState) =
      some { fault := .typeMismatch "object" "null" } := by
    decide +kernel
  obtain ⟨r, s', hrun, hbudget, -, -, -, halters, -⟩ :=
    effects_bounded unlimitedConfig 1 interruptedUpdate hfree familyState
  obtain ⟨r', s'', hrun', hbudget', -, -, -, -, hsame⟩ :=
    effects_bounded unlimitedConfig 1 mixedComparison hfree' familyState
  rw [hbudget 0] at hinterrupted hnames hlookup
  rw [hbudget' 0] at hmixed
  obtain ⟨_, ⟨⟩⟩ := Run.failure?_eq_some.mp hinterrupted
  obtain ⟨_, ⟨⟩⟩ := Run.failure?_eq_some.mp hmixed
  have hnew : s'.world.store.lookup 0 "x" = .ok (.string "new") := by
    simp only [Option.bind_some] at hlookup
    cases hvalue : s'.world.store.lookup 0 "x" with
    | error fault =>
        rw [hvalue] at hlookup
        cases hlookup
    | ok v =>
        rw [hvalue] at hlookup
        obtain ⟨htype, hprint⟩ := Prod.mk.inj (Option.some.inj hlookup)
        cases v with
        | string text => rw [← hprint, Value.printForm]
        | _ => simp [Value.typeName] at htype
  obtain ⟨rfl, -⟩ := hsame fun part hpart hkind => hpure part hpart (List.mem_cons_of_mem _ hkind)
  exact ⟨hfree, ⟨_, s', hrun, rfl, Option.some.inj hnames, hnew, halters⟩, hfree', _, hrun', rfl⟩

end TreeScript
