import TreeScript.Node

/-!
# Equality of syntax trees

Two trees are equal if they have the same shape, the same texts and operators, and the same spans,
with numbers compared as doubles compare: the two zeros are equal, and a number that is not one
differs from itself.
-/

namespace TreeScript

namespace Node

mutual

/-- Whether two trees are equal. -/
def equal : Node → Node → Bool
  | program b s, program b' s' => equalAll b b' && s == s'
  | declaration c n v s, declaration c' n' v' s' =>
    c == c' && n == n' && equalOption v v' && s == s'
  | function n p b s, function n' p' b' s' => n == n' && p == p' && equalAll b b' && s == s'
  | assignment t v s, assignment t' v' s' => equal t t' && equal v v' && s == s'
  | binary l r o s, binary l' r' o' s' => equal l l' && equal r r' && o == o' && s == s'
  | comparison l r o s, comparison l' r' o' s' => equal l l' && equal r r' && o == o' && s == s'
  | call c a s, call c' a' s' => equal c c' && equalAll a a' && s == s'
  | member o k s, member o' k' s' => equal o o' && k == k' && s == s'
  | conditional c t e s, conditional c' t' e' s' =>
    equal c c' && equalAll t t' && equalBranch e e' && s == s'
  | identifier n s, identifier n' s' => n == n' && s == s'
  | number x s, number x' s' => x == x' && s == s'
  | string t s, string t' s' => t == t' && s == s'
  | object e s, object e' s' => equalEntries e e' && s == s'
  | property ⟨k, v⟩ s, property ⟨k', v'⟩ s' => k == k' && equalOption v v' && s == s'
  | _, _ => false

/-- Whether two nodes that may be absent are equal. -/
def equalOption : Option Node → Option Node → Bool
  | none, none => true
  | some n, some n' => equal n n'
  | _, _ => false

/-- Whether two branches that may be absent are equal. -/
def equalBranch : Option (List Node) → Option (List Node) → Bool
  | none, none => true
  | some b, some b' => equalAll b b'
  | _, _ => false

/-- Whether nodes are equal one by one. -/
def equalAll : List Node → List Node → Bool
  | [], [] => true
  | n :: ns, n' :: ns' => equal n n' && equalAll ns ns'
  | _, _ => false

/-- Whether entries are equal one by one. -/
def equalEntries : List (Entry Node) → List (Entry Node) → Bool
  | [], [] => true
  | ⟨k, v⟩ :: es, ⟨k', v'⟩ :: es' => k == k' && equalOption v v' && equalEntries es es'
  | _, _ => false

end

end Node

end TreeScript
