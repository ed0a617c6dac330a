import TreeScript.Proofs.Invariance
import TreeScript.Proofs.Parts

/-!
# Proofs — operands

Whatever its kind, a node is evaluated in two steps: some of its parts are evaluated one after the
other, and then something is done with their values.  `Node.operands` lists these parts and
`Node.conclude` says what is done, so that the evaluation of every node has one equation
(`evalNode_eq`).

Lists of nodes, blocks and the entries of object literals are evaluated in order, so they fail at
the first item that fails (`evalAll_eq_error`, `evalBlock_eq_error`, `evalEntries_eq_error`).
-/

namespace TreeScript

/-! ### Operands and what is made of them -/

instance : LawfulMonad Run := LawfulMonad.mk' Run (fun x => Run.bind_pure x) (fun _ _ => rfl)
  (fun x f g => by
    funext s
    show Run.bind (Run.bind x f) g s = Run.bind x (fun a => Run.bind (f a) g) s
    simp only [Run.bind]
    rcases x s with _ | ⟨_ | _, _⟩ <;> rfl)

section

variable {config : Config} {call : Caller} {scope : ScopeId}

/-- Nodes are evaluated one after the other. -/
theorem evalAll_append (before after : List Node) :
    evalAll config call scope (before ++ after) = do
      let values ← evalAll config call scope before
      let others ← evalAll config call scope after
      return values ++ others := by
  induction before with
  | nil => simp [evalAll]
  | cons node nodes ih => simp [evalAll, ih]

/-- A block evaluates its statements, and yields the value of the last one. -/
theorem evalBlock_eq (nodes : List Node) :
    ∀ last, evalBlock config call scope last nodes = do
      let values ← evalAll config call scope nodes
      return values.getLastD last := by
  induction nodes with
  | nil => simp [evalAll, evalBlock]
  | cons node nodes ih => simp [evalAll, evalBlock, ih, List.getLast?_cons]

theorem evalEntries_append (before after : List (Entry Node)) :
    evalEntries config call scope (before ++ after) = do
      let values ← evalEntries config call scope before
      let others ← evalEntries config call scope after
      return values ++ others := by
  induction before with
  | nil => simp [evalEntries]
  | cons entry entries ih =>
      obtain ⟨key, _ | node⟩ := entry <;> simp [evalEntries, ih]

end

namespace Node

/-- The nodes that are evaluated, in this order, before anything else is done for a node.  The value
of an assignment is one of them if there is something to assign to. -/
def operands : Node → List Node
  | .program body _ => body
  | .declaration _ _ value _ => value.toList
  | .assignment (.identifier ..) value _ => [value]
  | .binary left right _ _ | .comparison left right _ _ => [left, right]
  | .call callee arguments _ => arguments ++ [callee]
  | .member subject _ _ => [subject]
  | .conditional condition _ _ _ => [condition]
  | _ => []

/-- What is done for a node once its operands have values. -/
def conclude (config : Config) (call : Caller) (scope : ScopeId) : Node → List Value → Run Value
  | .program .., values => return values.getLastD .null
  | .declaration constant name _ _, values =>
    declareIn scope name (values.headD .null) (.ofConstant constant)
  | .function name parameters body _, _ =>
    declareIn scope name
      (.function ⟨name, parameters, body, config.host.bodyOf scope name, scope⟩) .constant
  | .assignment (.identifier name _) _ _, [value] => assignIn scope name value
  | .assignment target .., _ => do
    let _ ← Run.located target.span (Run.ofExcept target.assignable)
    return .null
  | .binary _ _ op _, [left, right] => Run.ofExcept (op.apply config.policy left right)
  | .comparison _ _ op _, [left, right] => Run.ofExcept (op.apply left right)
  | .call _ _ span, values =>
    applyValue config call scope (values.getLastD .null) values.dropLast span
  | .member _ key _, [subject] => Run.ofExcept (subject.member key)
  | .conditional condition consequent alternative _, [value] => do
    let taken ← Run.located condition.span (Run.ofExcept value.condition)
    evalBlock config call scope .null (if taken then consequent else alternative.getD [])
  | .identifier name _, _ => Run.query fun store => store.lookup scope name
  | .number value _, _ => return .number value
  | .string value _, _ => return .string value
  | .object entries _, _ => do
    let entries ← evalEntries config call scope entries
    return .ofEntries entries
  | .property entry span, _ =>
    Run.ofExcept
      (.error (.unimplementedNode Node.Kind.property.name (Node.property entry span).dump))
  | _, _ => return .null

/-- A call is concluded by calling the last of its operands with the others. -/
theorem conclude_call {config : Config} {call : Caller} {scope : ScopeId} {callee : Node}
    {arguments : List Node} {span : Span} {values : List Value} {f : Value} :
    (Node.call callee arguments span).conclude config call scope (values ++ [f]) =
      applyValue config call scope f values span := by
  simp [conclude]

/-- Operands are parts. -/
theorem mem_parts_of_mem_operands {node part : Node} (h : part ∈ node.operands) :
    part ∈ node.parts := by
  cases node with
  | assignment target value span =>
      cases target with
      | identifier name inner => simp_all [operands, parts]
      | _ => cases h
  | program | declaration | binary | comparison | member => exact h
  | call callee arguments span => simpa [operands, parts, or_comm] using h
  | conditional condition consequent alternative span => simp_all [operands, parts]
  | _ => cases h

end Node

/-- **A node is evaluated by its operands and its conclusion**, and a failure of either is located
at the node. -/
theorem evalNode_eq (config : Config) (call : Caller) (scope : ScopeId) (node : Node) :
    evalNode config call scope node =
      Run.located node.span
        (evalAll config call scope node.operands >>= node.conclude config call scope) := by
  cases node with
  | program body span =>
      rw [evalNode, evalBlock_eq]
      rfl
  | declaration constant name value span =>
      cases value <;> simp [evalNode, Node.operands, Node.conclude, evalAll, evalOption, Node.span]
  | assignment target value span =>
      cases target with
      | identifier name inner =>
          have hname : Run.located inner (Run.ofExcept (Except.ok name)) = pure name := rfl
          simp [evalNode, Node.operands, Node.conclude, evalAll, Node.assignable, Node.span, hname]
      | _ =>
          -- the target is refused, so the value is never evaluated
          rw [evalNode]
          rfl
  | conditional condition consequent alternative span =>
      have hbranch : ∀ taken : Bool,
          (if taken then evalBlock config call scope .null consequent
            else evalBranch config call scope alternative) =
          evalBlock config call scope .null
            (if taken then consequent else alternative.getD []) := by
        intro taken
        cases taken <;> cases alternative <;> rfl
      simp [evalNode, Node.operands, Node.conclude, evalAll, Node.span, hbranch]
  | number value span => rfl
  | string value span => rfl
  | _ => simp [evalNode, Node.operands, Node.conclude, evalAll, evalAll_append, Node.span]

/-! ### Where a list fails -/

/-- A list that is evaluated piece by piece fails at the first item that fails. -/
theorem Run.each_eq_error {α β : Type} {each : List α → Run (List β)} (nil : each [] = pure [])
    (append : ∀ xs ys, each (xs ++ ys) = do
      let values ← each xs
      let others ← each ys
      return values ++ others)
    {xs : List α} {s s' : State} {failure : Failure} :
    each xs s = some (.error failure, s') ↔
      ∃ before x after values s₁, xs = before ++ x :: after ∧
        each before s = some (.ok values, s₁) ∧ each [x] s₁ = some (.error failure, s') := by
  constructor
  · intro h
    induction xs generalizing s with
    | nil => rw [nil] at h; cases h
    | cons x xs ih =>
        rw [← List.singleton_append, append] at h
        rcases Run.bind_eq_some.mp h with ⟨_, hx, ⟨⟩⟩ | ⟨value, s₁, hx, hxs⟩
        · exact ⟨[], x, xs, [], s, rfl, by rw [nil]; rfl, hx⟩
        · rcases Run.bind_eq_some.mp hxs with ⟨_, hxs, ⟨⟩⟩ | ⟨_, _, _, ⟨⟩⟩
          obtain ⟨before, last, after, values, s₂, rfl, hbefore, hlast⟩ := ih hxs
          refine ⟨[x] ++ before, last, after, value ++ values, s₂, rfl, ?_, hlast⟩
          rw [append]
          refine Run.bind_eq_some.mpr (.inr ⟨value, s₁, hx, ?_⟩)
          exact Run.bind_eq_some.mpr (.inr ⟨values, s₂, hbefore, rfl⟩)
  · rintro ⟨before, x, after, values, s₁, rfl, hbefore, hx⟩
    rw [append]
    refine Run.bind_eq_some.mpr (.inr ⟨values, s₁, hbefore, ?_⟩)
    rw [← List.singleton_append, append]
    refine Run.bind_eq_some.mpr (.inl ⟨failure, ?_, rfl⟩)
    exact Run.bind_eq_some.mpr (.inl ⟨failure, hx, rfl⟩)

/-- What is made of a value has no part in a failure to get it. -/
theorem Run.map_eq_error {α β : Type} {f : α → β} {x : Run α} {s s' : State} {failure : Failure} :
    (f <$> x) s = some (.error failure, s') ↔ x s = some (.error failure, s') := by
  rw [← bind_pure_comp, Run.bind_eq_some]
  constructor
  · rintro (⟨_, h, ⟨⟩⟩ | ⟨_, _, _, ⟨⟩⟩)
    exact h
  · exact fun h => .inl ⟨failure, h, rfl⟩

section

variable {config : Config} {call : Caller} {scope : ScopeId} {s s' : State} {failure : Failure}

/-- A list of nodes fails at the first one that fails. -/
theorem evalAll_eq_error {nodes : List Node} :
    evalAll config call scope nodes s = some (.error failure, s') ↔
      ∃ before part after values s₁, nodes = before ++ part :: after ∧
        evalAll config call scope before s = some (.ok values, s₁) ∧
        evalNode config call scope part s₁ = some (.error failure, s') := by
  have single : ∀ (part : Node) (s₁ : State),
      evalAll config call scope [part] s₁ = some (.error failure, s') ↔
        evalNode config call scope part s₁ = some (.error failure, s') := by
    intro part s₁
    simp [evalAll, Run.map_eq_error]
  rw [Run.each_eq_error (by rw [evalAll]) evalAll_append]
  simp only [single]

theorem evalAll_singleton_eq_ok {node : Node} {values : List Value} :
    evalAll config call scope [node] s = some (.ok values, s') ↔
      ∃ value, evalNode config call scope node s = some (.ok value, s') ∧ values = [value] := by
  simp only [evalAll, Run.bind_eq_some]
  constructor
  · rintro (⟨_, _, ⟨⟩⟩ | ⟨value, s₁, h, ⟨_, ⟨⟩, _⟩ | ⟨_, _, ⟨⟩, ⟨⟩⟩⟩)
    exact ⟨value, h, rfl⟩
  · rintro ⟨value, h, rfl⟩
    exact .inr ⟨value, s', h, .inr ⟨[], s', rfl, rfl⟩⟩

/-- So does a block. -/
theorem evalBlock_eq_error {nodes : List Node} {last : Value} :
    evalBlock config call scope last nodes s = some (.error failure, s') ↔
      evalAll config call scope nodes s = some (.error failure, s') := by
  simp [evalBlock_eq, Run.map_eq_error]

/-- The entries of an object literal fail at the first value that fails, or the first name that has
none. -/
theorem evalEntries_eq_error {entries : List (Entry Node)} :
    evalEntries config call scope entries s = some (.error failure, s') ↔
      ∃ before entry after values s₁, entries = before ++ entry :: after ∧
        evalEntries config call scope before s = some (.ok values, s₁) ∧
        evalEntries config call scope [entry] s₁ = some (.error failure, s') :=
  Run.each_eq_error (by rw [evalEntries]) evalEntries_append

theorem evalEntries_value_eq_error {key : String} {node : Node} :
    evalEntries config call scope [⟨key, some node⟩] s = some (.error failure, s') ↔
      evalNode config call scope node s = some (.error failure, s') := by
  simp [evalEntries, Run.map_eq_error]

theorem evalEntries_short_eq_error {key : String} :
    evalEntries config call scope [⟨key, none⟩] s = some (.error failure, s') ↔
      ∃ fault, s.world.store.lookup scope key = .error fault ∧ failure = { fault := fault } ∧
        s' = s := by
  have hentries : evalEntries config call scope [⟨key, none⟩] =
      (fun value => [(key, value)]) <$> Run.query fun store => store.lookup scope key := by
    simp [evalEntries]
  rw [hentries, Run.map_eq_error, Run.query]
  cases s.world.store.lookup scope key <;> simp [eq_comm]

/-- As many values come out as nodes go in. -/
theorem evalAll_length {nodes : List Node} {values : List Value}
    (h : evalAll config call scope nodes s = some (.ok values, s')) :
    values.length = nodes.length := by
  induction nodes generalizing values s with
  | nil => cases h; rfl
  | cons node nodes ih =>
      rcases Run.bind_eq_some.mp h with ⟨_, _, ⟨⟩⟩ | ⟨value, s₁, _, h⟩
      rcases Run.bind_eq_some.mp h with ⟨_, _, ⟨⟩⟩ | ⟨values, s₂, hnodes, ⟨⟩⟩
      simp [ih hnodes]

end

end TreeScript
