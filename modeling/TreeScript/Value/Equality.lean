import TreeScript.Value

/-!
# Equality of values

The host compares values structurally.  Numbers compare as doubles do, so one that is not a number
differs from itself; objects are equal if they have the same keys with equal values, in whatever
order.  Functions are equal if they have one and the same body, declared in the same scope: neither
the name nor what the body says counts.  Natives are equal if they are the same function of the
host.
-/

namespace TreeScript

namespace Value

mutual

/-- Whether the host takes two values for equal. -/
def equal : Value → Value → Bool
  | number a, number b => a == b
  | string a, string b => a == b
  | bool a, bool b => a == b
  | null, null => true
  | object p, object q => p.length == q.length && propertiesEqual p q
  | function f, function g => f.bodyId == g.bodyId && f.scope == g.scope
  | native m, native n => m.id == n.id
  | _, _ => false

/-- Whether each property on the left is there on the right with an equal value. -/
def propertiesEqual : List (String × Value) → List (String × Value) → Bool
  | [], _ => true
  | (key, value) :: properties, others =>
    (match property? others key with
      | some other => equal value other
      | none => false) && propertiesEqual properties others

end

end Value

end TreeScript
