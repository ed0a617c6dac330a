import TreeScript.Store
import TreeScript.Text.Quoted

/-!
# Dumps of scopes

The dump of a scope shows the names it binds itself, sorted, and how many scopes lie around it.
Values are left out, because a function bound in a scope refers back to it.
-/

namespace TreeScript

namespace Store

/-- The names a scope itself binds, by code points. -/
def sortedNames (store : Store) (id : ScopeId) : List String :=
  (store.names id).mergeSort fun a b => !decide (b < a)

/-- How many scopes lie around a scope. -/
def depth (store : Store) (id : ScopeId) : Nat := (store.chain id).length - 1

/-- The dump of a scope. -/
def dump (store : Store) (id : ScopeId) : String :=
  Text.record "Environment"
    [("bindings", Text.bracketed ((store.sortedNames id).map Text.quote)),
      ("depth", toString (store.depth id))]

end Store

end TreeScript
