import TreeScript.Json.Token

/-!
# Reading JSON

The reader takes tokens one at a time and keeps the arrays and objects that are still open, so
nesting costs no stack of its own.  A text must hold exactly one value.
-/

namespace TreeScript.Json

/-- An array or object that is still open, with what it holds so far, latest first. -/
inductive Open where
  | array (items : List Json)
  | object (members : List (Literal × Json)) (name : Literal)
deriving Inhabited

/-- What may come next. -/
inductive Expect where
  /-- A value. -/
  | value
  /-- A value, or the end of the array just opened. -/
  | firstItem
  /-- A name, or the end of the object just opened. -/
  | firstName
  /-- A name after a comma. -/
  | name (members : List (Literal × Json))
  /-- The colon after a name. -/
  | colon (members : List (Literal × Json)) (name : Literal)
  /-- A comma or the end of what is open, now that `value` is complete. -/
  | done (value : Json)
deriving Inhabited

namespace Reader

/-- A token where a value may start. -/
def startValue (stack : List Open) : Token → Option (Expect × List Open)
  | .null => some (.done .null, stack)
  | .bool b => some (.done (.bool b), stack)
  | .number n => some (.done (.number n), stack)
  | .string s => some (.done (.string s), stack)
  | .openArray => some (.firstItem, stack)
  | .openObject => some (.firstName, stack)
  | _ => none

/-- A token after a complete value. -/
def continueAfter (value : Json) : List Open → Token → Option (Expect × List Open)
  | .array items :: stack, .comma => some (.value, .array (value :: items) :: stack)
  | .array items :: stack, .closeArray => some (.done (.array (value :: items).reverse), stack)
  | .object members name :: stack, .comma => some (.name ((name, value) :: members), stack)
  | .object members name :: stack, .closeObject =>
    some (.done (.object ((name, value) :: members).reverse), stack)
  | _, _ => none

/-- Takes one token. -/
def step (expect : Expect) (stack : List Open) (token : Token) : Option (Expect × List Open) :=
  match expect, token with
  | .value, token => startValue stack token
  | .firstItem, .closeArray => some (.done (.array []), stack)
  | .firstItem, token => startValue (.array [] :: stack) token
  | .firstName, .closeObject => some (.done (.object []), stack)
  | .firstName, .string name => some (.colon [] name, stack)
  | .name members, .string name => some (.colon members name, stack)
  | .colon members name, .colon => some (.value, .object members name :: stack)
  | .done value, token => continueAfter value stack token
  | _, _ => none

/-- Takes tokens to their end. -/
def run (expect : Expect) (stack : List Open) : List Token → Option Json
  | [] =>
    match expect, stack with
    | .done value, [] => some value
    | _, _ => none
  | token :: tokens =>
    match step expect stack token with
    | some (expect, stack) => run expect stack tokens
    | none => none

end Reader

/-- The value that a text spells. -/
def read? (s : String) : Option Json := do
  let tokens ← tokens? s.toList
  Reader.run .value [] tokens

end TreeScript.Json
