import TreeScript.Node.Dump
import TreeScript.Value

/-!
# Texts of values

A value has three texts.  Its display form quotes strings, without escaping them.  Its print form
differs only for a string on its own, which is bare.  Its dump shows how the value is made up.
-/

namespace TreeScript

namespace Value

/-- Numbers are displayed positionally from `1e-6` up to `1e21` and with a signed exponent
elsewhere, and zero has no sign. -/
def displayLayout : Decimal.Layout where
  lowest := -6
  highest := 20
  keepsPoint := false
  signsExponent := true
  signsZero := false
  tie := .up
  nan := "NaN"
  infinity := "Infinity"

mutual

/-- The display form. -/
def display : Value → String
  | number x => displayLayout.text x
  | string s => "\"" ++ s ++ "\""
  | bool b => toString b
  | null => "null"
  | object [] => "\x7b\x7d"
  | object properties => "\x7b " ++ ", ".intercalate (displayProperties properties) ++ " \x7d"
  | function closure => "<fn " ++ closure.name ++ ">"
  | native n => "<native fn " ++ n.name ++ ">"

/-- The display forms of properties, in order. -/
def displayProperties : List (String × Value) → List String
  | [] => []
  | (key, value) :: properties => (key ++ ": " ++ display value) :: displayProperties properties

end

/-- The form in which a value is printed. -/
def printForm : Value → String
  | string s => s
  | value => value.display

/-- What printing several values shows on one line. -/
def printLine (values : List Value) : String := " ".intercalate (values.map printForm)

/-- A name whose fields are not all shown. -/
def openRecord (name : String) (fields : List (String × String)) : String :=
  let shown := fields.map fun (key, text) => key ++ ": " ++ text ++ ", "
  name ++ " \x7b " ++ String.join shown ++ ".. \x7d"

mutual

/-- The dump. -/
def dump : Value → String
  | number x => "Number(" ++ Node.dumpLayout.text x ++ ")"
  | string s => "Str(" ++ Text.quote s ++ ")"
  | bool b => "Bool(" ++ toString b ++ ")"
  | null => "Null"
  | object properties =>
    "Object(" ++
      Text.record "ObjectValue"
        [("properties", "\x7b" ++ ", ".intercalate (dumpProperties properties) ++ "\x7d")] ++ ")"
  | function closure =>
    "Function(" ++
      openRecord "FunctionValue"
        [("name", Text.quote closure.name),
          ("params", Text.bracketed (closure.parameters.map Text.quote)),
          ("body_len", toString closure.body.length)] ++ ")"
  | native n =>
    "NativeFunction(" ++ openRecord "NativeFunctionValue" [("name", Text.quote n.name)] ++ ")"

/-- The dumps of properties, in order. -/
def dumpProperties : List (String × Value) → List String
  | [] => []
  | (key, value) :: properties =>
    (Text.quote key ++ ": " ++ dump value) :: dumpProperties properties

end

end Value

end TreeScript
