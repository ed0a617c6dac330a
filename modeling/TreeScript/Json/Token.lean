import TreeScript.Json

/-!
# JSON tokens

The lexer takes a text one character at a time and keeps what it has of the current token, so a
text of any length and nesting is read in one pass.  Characters that are neither blank nor
punctuation nor inside a string form a bare word, which must be one of the three names or a number.
-/

namespace TreeScript.Json

/-- A token of a JSON text. -/
inductive Token where
  | openArray
  | closeArray
  | openObject
  | closeObject
  | comma
  | colon
  | null
  | bool (value : Bool)
  | number (value : Number)
  | string (value : Literal)
deriving DecidableEq, Repr, Inhabited

/-- Whether the character may stand between tokens. -/
def isBlank (c : Char) : Bool := c == ' ' || c == '\t' || c == '\n' || c == '\r'

/-- The token that a punctuation character is. -/
def punctuation? : Char → Option Token
  | '[' => some .openArray
  | ']' => some .closeArray
  | '\x7b' => some .openObject
  | '\x7d' => some .closeObject
  | ',' => some .comma
  | ':' => some .colon
  | _ => none

/-! ## Numbers -/

namespace Number

/-- The digits at the start of a text, and what follows them. -/
def spanDigits (cs : List Char) : List Char × List Char := cs.span Char.isDigit

/-- Reads an exponent part that is the rest of a number. -/
def readExponent? : List Char → Option (Option Int)
  | [] => some none
  | c :: cs =>
    if c == 'e' || c == 'E' then
      let (negative, digits) := match cs with
        | '-' :: digits => (true, digits)
        | '+' :: digits => (false, digits)
        | digits => (false, digits)
      if digits.isEmpty || !digits.all Char.isDigit then none
      else
        let value : Int := Nat.ofDigitChars 10 digits 0
        some (some (if negative then -value else value))
    else none

/-- Reads a fraction part, and what follows it. -/
def readFraction? : List Char → Option (List Char × List Char)
  | '.' :: cs =>
    let (digits, rest) := spanDigits cs
    if digits.isEmpty then none else some (digits, rest)
  | cs => some ([], cs)

/-- Reads a number without its sign.  The whole part is zero or starts with another digit. -/
def readUnsigned? (negative : Bool) (cs : List Char) : Option Number := do
  let (whole, rest) := spanDigits cs
  guard (!whole.isEmpty && (whole.head? != some '0' || whole.length == 1))
  let (fraction, rest) ← readFraction? rest
  let exponent ← readExponent? rest
  return { negative, whole := Nat.ofDigitChars 10 whole 0, fraction, exponent }

/-- Reads a number. -/
def read? : List Char → Option Number
  | '-' :: cs => readUnsigned? true cs
  | cs => readUnsigned? false cs

end Number

/-- The token that a bare word spells. -/
def bare? (word : List Char) : Option Token :=
  if word == "null".toList then some .null
  else if word == "true".toList then some (.bool true)
  else if word == "false".toList then some (.bool false)
  else (Number.read? word).map .number

/-! ## Strings -/

/-- Whether a code unit is the first half of a pair. -/
def isHighSurrogate (u : Nat) : Bool := 0xd800 ≤ u && u < 0xdc00

/-- Whether a code unit is the second half of a pair. -/
def isLowSurrogate (u : Nat) : Bool := 0xdc00 ≤ u && u < 0xe000

/-- The text that code points and escaped code units spell after `done`, which is reversed; none if
a surrogate stands alone. -/
def pairUnits (done : List Char) : List Nat → Literal
  | [] => some (String.ofList done.reverse)
  | [u] =>
    if isHighSurrogate u || isLowSurrogate u then none
    else some (String.ofList (Char.ofNat u :: done).reverse)
  | u :: v :: units =>
    if isHighSurrogate u then
      if isLowSurrogate v then
        pairUnits (Char.ofNat (0x10000 + (u - 0xd800) * 0x400 + (v - 0xdc00)) :: done) units
      else none
    else if isLowSurrogate u then none
    else pairUnits (Char.ofNat u :: done) (v :: units)

/-- The character that a one-letter escape stands for. -/
def unescape? : Char → Option Char
  | '"' => some '"'
  | '\\' => some '\\'
  | '/' => some '/'
  | 'b' => some '\x08'
  | 'f' => some '\x0c'
  | 'n' => some '\n'
  | 'r' => some '\r'
  | 't' => some '\t'
  | _ => none

/-- The value of a hexadecimal digit. -/
def hexDigit? (c : Char) : Option Nat :=
  if c.isDigit then some (c.toNat - '0'.toNat)
  else if 'a' ≤ c && c ≤ 'f' then some (c.toNat - 'a'.toNat + 10)
  else if 'A' ≤ c && c ≤ 'F' then some (c.toNat - 'A'.toNat + 10)
  else none

/-! ## The lexer -/

/-- What the lexer has read of the current token.  Lists hold the latest character first. -/
inductive Lexer where
  /-- Between tokens. -/
  | between
  /-- Inside a bare word. -/
  | word (chars : List Char)
  /-- Inside a string. -/
  | quoted (units : List Nat)
  /-- After the backslash of an escape. -/
  | escape (units : List Nat)
  /-- After `\u` and some hexadecimal digits of value `value`, of which `missing` are to come. -/
  | hex (units : List Nat) (missing value : Nat)
deriving Repr, Inhabited

namespace Lexer

/-- A character between tokens, with the tokens so far, latest first. -/
def start (tokens : List Token) (c : Char) : Lexer × List Token :=
  if isBlank c then (between, tokens)
  else if c == '"' then (quoted [], tokens)
  else match punctuation? c with
    | some token => (between, token :: tokens)
    | none => (word [c], tokens)

/-- Whether a character ends a bare word. -/
def endsWord (c : Char) : Bool := isBlank c || c == '"' || (punctuation? c).isSome

/-- Takes one character. -/
def step (state : Lexer) (tokens : List Token) (c : Char) : Option (Lexer × List Token) :=
  match state with
  | between => some (start tokens c)
  | word chars =>
    if endsWord c then (bare? chars.reverse).map fun token => start (token :: tokens) c
    else some (word (c :: chars), tokens)
  | quoted units =>
    if c == '"' then some (between, .string (pairUnits [] units.reverse) :: tokens)
    else if c == '\\' then some (escape units, tokens)
    else if c.toNat < 0x20 then none
    else some (quoted (c.toNat :: units), tokens)
  | escape units =>
    if c == 'u' then some (hex units 4 0, tokens)
    else (unescape? c).map fun e => (quoted (e.toNat :: units), tokens)
  | hex units missing value =>
    (hexDigit? c).map fun d =>
      if missing ≤ 1 then (quoted ((16 * value + d) :: units), tokens)
      else (hex units (missing - 1) (16 * value + d), tokens)

/-- Takes the end of the text. -/
def finish (state : Lexer) (tokens : List Token) : Option (List Token) :=
  match state with
  | between => some tokens.reverse
  | word chars => (bare? chars.reverse).map fun token => (token :: tokens).reverse
  | _ => none

/-- Takes a text to its end. -/
def run (state : Lexer) (tokens : List Token) : List Char → Option (List Token)
  | [] => state.finish tokens
  | c :: cs =>
    match state.step tokens c with
    | some (state, tokens) => run state tokens cs
    | none => none

end Lexer

/-- The tokens of a text. -/
def tokens? (cs : List Char) : Option (List Token) := Lexer.run .between [] cs

end TreeScript.Json
