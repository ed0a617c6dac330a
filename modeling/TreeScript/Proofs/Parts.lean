import TreeScript.Proofs.Correspondence

/-!
# Proofs — the parts of a node

Nodes hold other nodes in many places: alone, perhaps absent, in lists, in entries.  `Node.parts`
lists what a node holds directly, whatever its kind.  What passes from the parts of a node to the
node holds of every node (`Node.induction_parts`), and a function of nodes may recur on the parts
(`Node.sizeOf_lt_of_mem_parts`).
-/

namespace TreeScript.Node

/-- The nodes that a node holds directly. -/
def parts : Node → List Node
  | .program body _ => body
  | .declaration _ _ value _ => value.toList
  | .function _ _ body _ => body
  | .assignment target value _ => [target, value]
  | .binary left right _ _ | .comparison left right _ _ => [left, right]
  | .call callee arguments _ => callee :: arguments
  | .member subject _ _ => [subject]
  | .conditional condition consequent alternative _ =>
    condition :: (consequent ++ alternative.getD [])
  | .identifier .. | .number .. | .string .. => []
  | .object entries _ => entries.filterMap (·.value)
  | .property entry _ => entry.value.toList

/-! ### Induction and recursion -/

/-- A part is smaller than the node. -/
theorem sizeOf_lt_of_mem_parts {node part : Node} (h : part ∈ node.parts) :
    sizeOf part < sizeOf node := by
  have among {nodes : List Node} (h : part ∈ nodes) : sizeOf part < sizeOf nodes :=
    List.sizeOf_lt_of_mem h
  cases node with
  | program body | function _ _ body =>
      have : sizeOf part < sizeOf body := among h
      simp
      omega
  | declaration _ _ value =>
      cases Option.mem_toList.mp h
      simp
      omega
  | assignment | binary | comparison =>
      rcases List.mem_pair.mp h with rfl | rfl <;> simp <;> omega
  | call callee arguments =>
      rcases List.mem_cons.mp h with rfl | h
      · simp
        omega
      · have := among h
        simp
        omega
  | member =>
      cases List.mem_singleton.mp h
      simp
      omega
  | conditional condition consequent alternative =>
      rcases List.mem_cons.mp h with rfl | h
      · simp
        omega
      · rcases List.mem_append.mp h with h | h
        · have := among h
          simp
          omega
        · cases alternative with
          | none => cases h
          | some body =>
              have : sizeOf part < sizeOf body := among h
              simp
              omega
  | identifier | number | string => cases h
  | object entries =>
      obtain ⟨⟨key, value⟩, hentry, rfl⟩ := List.mem_filterMap.mp h
      have := List.sizeOf_lt_of_mem hentry
      simp at this ⊢
      omega
  | property entry =>
      obtain ⟨key, value⟩ := entry
      cases Option.mem_toList.mp h
      simp
      omega

/-- **What passes from the parts of a node to the node holds of every node.** -/
theorem induction_parts {P : Node → Prop}
    (step : ∀ node : Node, (∀ part ∈ node.parts, P part) → P node) (node : Node) : P node :=
  step node fun part _ => induction_parts step part
termination_by node
decreasing_by exact sizeOf_lt_of_mem_parts ‹_›

/-! ### Parts that are evaluated -/

/-- What holds of the parts of a node holds of those that its evaluation reaches. -/
theorem Alike.of_parts {P : Node → Prop} {node : Node}
    (h : node.kind ≠ .function → ∀ part ∈ node.parts, P part) :
    Node.Alike (fun a b => a = b ∧ P a) node node := by
  have all : ∀ nodes : List Node, (∀ n ∈ nodes, P n) →
      List.Forall₂ (fun a b => a = b ∧ P a) nodes nodes :=
    fun nodes hnodes => List.forall₂_same.mpr fun n hn => ⟨rfl, hnodes n hn⟩
  have option : ∀ o : Option Node, (∀ n ∈ o, P n) →
      Option.Rel (fun a b => a = b ∧ P a) o o
    | none, _ => .none
    | some n, ho => .some ⟨rfl, ho n rfl⟩
  by_cases hfunction : node.kind = .function
  · cases node <;> cases hfunction
    exact .function
  have h : ∀ part ∈ node.parts, P part := h hfunction
  cases node with
  | program body => exact .program (all body h)
  | declaration _ _ value => exact .declaration (option value (by simpa [parts] using h))
  | function => exact absurd rfl hfunction
  | assignment target value => exact .assignment ⟨rfl, h value (by simp [parts])⟩
  | binary left right =>
      exact .binary ⟨rfl, h left (by simp [parts])⟩ ⟨rfl, h right (by simp [parts])⟩
  | comparison left right =>
      exact .comparison ⟨rfl, h left (by simp [parts])⟩ ⟨rfl, h right (by simp [parts])⟩
  | call callee arguments =>
      exact .call ⟨rfl, h callee (by simp [parts])⟩
        (all arguments fun n hn => h n (by simp [parts, hn]))
  | member subject => exact .member ⟨rfl, h subject (by simp [parts])⟩
  | conditional condition consequent alternative =>
      refine .conditional ⟨rfl, h condition (by simp [parts])⟩
        (all consequent fun n hn => h n (by simp [parts, hn])) ?_
      cases alternative with
      | none => exact .none
      | some body => exact .some (all body fun n hn => h n (by simp [parts, hn]))
  | identifier => exact .identifier
  | number => exact .number
  | string => exact .string
  | object entries =>
      refine .object (List.forall₂_same.mpr fun entry hentry => ⟨rfl, option _ fun n hn => ?_⟩)
      exact h n (List.mem_filterMap.mpr ⟨entry, hentry, hn⟩)
  | property => exact .property

end TreeScript.Node
