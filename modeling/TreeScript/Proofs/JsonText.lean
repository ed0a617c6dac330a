import Mathlib.Data.List.TakeDrop
import Mathlib.Data.Option.Basic
import TreeScript.Json.Reader
import TreeScript.Json.Writer

/-!
# Proofs — a JSON text reads back

What is written for a value is read as the value (`Json.read?_render`), for every value whose
numbers have digits, and nothing else, after their point.  The reader works in two passes, and so
does the proof: the text of a value gives the tokens of the value (`Lexer.run_write`), and these are
read as the value (`Reader.run_tokens`).

A number ends only where its text is followed by something else, so a statement about the lexer
leaves open what follows, as long as it may follow a bare word (`Lexer.Follows`).
-/

namespace TreeScript.Json

/-! ### Numbers -/

namespace Number

/-- What follows the point of the number is digits. -/
def Spelled (n : Number) : Prop := ∀ c ∈ n.fraction, c.isDigit

/-- The part of the text from the point on, without the exponent. -/
def fractionText (n : Number) : List Char :=
  if n.fraction.isEmpty then [] else '.' :: n.fraction

/-- The part of the text that gives the exponent. -/
def exponentText (n : Number) : List Char :=
  match n.exponent with
  | none => []
  | some e => 'e' :: (if e < 0 then '-' else '+') :: Nat.toDigits 10 e.natAbs

theorem writeNumber_eq (n : Number) :
    writeNumber n = (if n.negative then ['-'] else []) ++
      (Nat.toDigits 10 n.whole ++ (n.fractionText ++ n.exponentText)) := by
  show _ ++ Nat.toDigits 10 n.whole ++ n.fractionText ++ n.exponentText = _
  rw [List.append_assoc, List.append_assoc]

theorem isDigit_toDigits {n : Nat} : ∀ c ∈ Nat.toDigits 10 n, c.isDigit :=
  fun _ hc => Nat.isDigit_of_mem_toDigits (by decide) (by decide) hc

/-- Only zero has digits that start with a zero. -/
theorem eq_zero_of_head?_toDigits {n : Nat} (h : (Nat.toDigits 10 n).head? = some '0') : n = 0 := by
  induction n using Nat.strongRecOn with
  | ind n ih =>
    by_cases hn : n < 10
    · rw [Nat.toDigits_of_lt_base hn] at h
      have digits : ∀ k < 10, [k.digitChar].head? = some '0' → k = 0 := by decide
      exact digits n hn h
    · rw [Nat.toDigits_of_base_le (by decide) (by omega),
        List.head?_append, List.head?_eq_some_head Nat.toDigits_ne_nil, Option.some_or] at h
      rw [← List.head?_eq_some_head] at h
      have hzero : n / 10 = 0 := ih (n / 10) (by omega) h
      omega

/-- Digits are read up to what is no digit. -/
theorem spanDigits_append {digits rest : List Char} (hdigits : ∀ c ∈ digits, c.isDigit)
    (hrest : ∀ c, rest.head? = some c → c.isDigit = false) :
    spanDigits (digits ++ rest) = (digits, rest) := by
  rw [spanDigits, List.span_eq_takeWhile_dropWhile, List.takeWhile_append_of_pos hdigits,
    List.dropWhile_append_of_pos hdigits]
  cases rest with
  | nil => simp
  | cons c cs => simp [hrest c rfl]

theorem head?_exponentText {n : Number} {c : Char} (h : n.exponentText.head? = some c) :
    c = 'e' := by
  simp only [exponentText] at h
  split at h <;> cases h
  rfl

/-- An exponent that is written reads back. -/
theorem readExponent?_exponentText (n : Number) :
    readExponent? n.exponentText = some n.exponent := by
  cases he : n.exponent with
  | none => simp [exponentText, he, readExponent?]
  | some e =>
      have hall : (Nat.toDigits 10 e.natAbs).all Char.isDigit = true :=
        List.all_eq_true.mpr isDigit_toDigits
      by_cases hneg : e < 0
      · have habs : (e.natAbs : Int) = -e := Int.ofNat_natAbs_of_nonpos (by omega)
        simp [exponentText, he, readExponent?, hneg, hall, habs]
      · have habs : (e.natAbs : Int) = e := Int.natAbs_of_nonneg (by omega)
        simp [exponentText, he, readExponent?, hneg, hall, habs]

/-- So do the digits after the point, if no digit follows. -/
theorem readFraction?_append {n : Number} (h : n.Spelled) {rest : List Char}
    (hrest : ∀ c, rest.head? = some c → c = 'e') :
    readFraction? (n.fractionText ++ rest) = some (n.fraction, rest) := by
  by_cases hempty : n.fraction = []
  · rw [fractionText, hempty]
    cases rest with
    | nil => rfl
    | cons c cs =>
        cases hrest c rfl
        rfl
  · have hspan : spanDigits (n.fraction ++ rest) = (n.fraction, rest) :=
      spanDigits_append h fun c hc => by rw [hrest c hc]; decide
    simp [fractionText, hempty, readFraction?, hspan]

/-- So does the number without its sign. -/
theorem readUnsigned?_append {n : Number} (h : n.Spelled) :
    readUnsigned? n.negative (Nat.toDigits 10 n.whole ++ (n.fractionText ++ n.exponentText)) =
      some n := by
  have hrest : ∀ c, (n.fractionText ++ n.exponentText).head? = some c → c.isDigit = false := by
    intro c hc
    by_cases hempty : n.fraction = []
    · rw [fractionText, hempty] at hc
      rw [head?_exponentText hc]
      decide
    · simp only [fractionText, List.isEmpty_iff, hempty, if_false] at hc
      cases hc
      decide
  have hguard : (Nat.toDigits 10 n.whole).head? = some '0' →
      (Nat.toDigits 10 n.whole).length = 1 := by
    intro hzero
    rw [eq_zero_of_head?_toDigits hzero]
    rfl
  simp only [readUnsigned?, spanDigits_append isDigit_toDigits hrest,
    readFraction?_append h fun c => head?_exponentText, Nat.ofDigitChars_ten_toDigits]
  by_cases hzero : (Nat.toDigits 10 n.whole).head? = some '0'
  · simp [hguard hzero, readExponent?_exponentText]
  · simp [hzero, readExponent?_exponentText]

/-- A number starts with its sign or a digit. -/
theorem writeNumber_eq_cons (n : Number) :
    ∃ c cs, writeNumber n = c :: cs ∧ (c = '-' ∨ c.isDigit) ∧ (c = '-' ↔ n.negative) := by
  obtain ⟨d, ds, hdigits⟩ :=
    List.exists_cons_of_ne_nil (Nat.toDigits_ne_nil (n := n.whole) (b := 10))
  have hd : d.isDigit := isDigit_toDigits d (by rw [hdigits]; exact List.mem_cons_self)
  cases hneg : n.negative with
  | true => exact ⟨'-', _, by rw [writeNumber_eq, hneg]; rfl, .inl rfl, by simp⟩
  | false =>
      refine ⟨d, ds ++ (n.fractionText ++ n.exponentText), ?_, .inr hd, ?_⟩
      · simp [writeNumber_eq, hneg, hdigits]
      · simp only [Bool.false_eq_true, iff_false]
        rintro rfl
        cases hd

/-- **A number reads back.** -/
theorem read?_writeNumber {n : Number} (h : n.Spelled) : Number.read? (writeNumber n) = some n := by
  have hread := readUnsigned?_append h
  rw [writeNumber_eq]
  cases hneg : n.negative with
  | true => simpa [Number.read?, hneg] using hread
  | false =>
      obtain ⟨c, cs, heq, -, hsign⟩ := writeNumber_eq_cons n
      simp only [writeNumber_eq, hneg, Bool.false_eq_true, if_false, List.nil_append] at heq ⊢
      rw [hneg] at hread
      rw [heq] at hread ⊢
      unfold Number.read?
      split
      · simp_all
      · exact hread

end Number

/-! ### Words -/

/-- A character that ends a word belongs to no number. -/
theorem not_isDigit_of_endsWord {c : Char} (h : Lexer.endsWord c) :
    c.isDigit = false ∧ c ≠ '-' ∧ c ≠ '+' ∧ c ≠ '.' ∧ c ≠ 'e' := by
  simp only [Lexer.endsWord, isBlank, Bool.or_eq_true, beq_iff_eq, Option.isSome_iff_exists] at h
  rcases h with ((((rfl | rfl) | rfl) | rfl) | rfl) | ⟨token, htoken⟩
  all_goals try decide
  unfold punctuation? at htoken
  split at htoken
  all_goals first | decide | cases htoken

/-- No character of a number ends a word. -/
theorem endsWord_writeNumber {n : Number} (h : n.Spelled) :
    ∀ c ∈ writeNumber n, Lexer.endsWord c = false := by
  intro c hc
  by_contra hends
  rw [Bool.not_eq_false] at hends
  obtain ⟨hdigit, hminus, hplus, hpoint, he⟩ := not_isDigit_of_endsWord hends
  have notDigit : ∀ k, c ∉ Nat.toDigits 10 k := fun k hk => by
    simp [Number.isDigit_toDigits c hk] at hdigit
  simp only [Number.writeNumber_eq, List.mem_append] at hc
  rcases hc with hc | hc | hc | hc
  · split at hc <;> simp_all
  · exact notDigit _ hc
  · simp only [Number.fractionText] at hc
    split at hc
    · cases hc
    · rcases List.mem_cons.mp hc with hc | hc
      · exact hpoint hc
      · simp [h c hc] at hdigit
  · simp only [Number.exponentText] at hc
    split at hc
    · cases hc
    · rename_i e _
      simp only [List.mem_cons] at hc
      rcases hc with hc | hc | hc
      · exact he hc
      · split at hc <;> contradiction
      · exact notDigit _ hc

/-- A word that is a number stands for that number. -/
theorem bare?_writeNumber {n : Number} (h : n.Spelled) :
    bare? (writeNumber n) = some (.number n) := by
  obtain ⟨c, cs, heq, hc, -⟩ := Number.writeNumber_eq_cons n
  have notName : ∀ d ds, d.isDigit = false → d ≠ '-' → (writeNumber n == d :: ds) = false := by
    intro d ds hd hminus
    rw [heq, beq_eq_false_iff_ne]
    rintro ⟨⟩
    rcases hc with rfl | hc
    · exact hminus rfl
    · simp [hc] at hd
  have hnull : (writeNumber n == "null".toList) = false := notName 'n' _ (by decide) (by decide)
  have htrue : (writeNumber n == "true".toList) = false := notName 't' _ (by decide) (by decide)
  have hfalse : (writeNumber n == "false".toList) = false := notName 'f' _ (by decide) (by decide)
  simp only [bare?, hnull, htrue, hfalse, Number.read?_writeNumber h]
  rfl

namespace Lexer

variable {acc : List Token} {rest : List Char}

/-- The text may follow a bare word: it is empty or ends the word. -/
def Follows (rest : List Char) : Prop := ∀ c, rest.head? = some c → endsWord c

/-- A word ends where the text that may follow it starts. -/
theorem run_word {token : Token} (hrest : Follows rest) {word : List Char}
    (hword : ∀ c ∈ word, endsWord c = false) (chars : List Char)
    (hbare : bare? (chars.reverse ++ word) = some token) :
    run (.word chars) acc (word ++ rest) = run .between (token :: acc) rest := by
  induction word generalizing chars with
  | nil =>
      rw [List.append_nil] at hbare
      cases rest with
      | nil => simp [run, finish, hbare]
      | cons c cs => simp [run, step, hrest c rfl, hbare]
  | cons c word ih =>
      have hc : endsWord c = false := hword c List.mem_cons_self
      simp only [List.cons_append, run, step, hc, Bool.false_eq_true, if_false]
      refine ih (fun c hc => hword c (List.mem_cons_of_mem _ hc)) (c :: chars) ?_
      simpa using hbare

/-- A bare word between tokens gives the token that it spells. -/
theorem run_bare {token : Token} (hrest : Follows rest) {word : List Char} (hne : word ≠ [])
    (hword : ∀ c ∈ word, endsWord c = false) (hbare : bare? word = some token) :
    run .between acc (word ++ rest) = run .between (token :: acc) rest := by
  obtain ⟨c, cs, rfl⟩ := List.exists_cons_of_ne_nil hne
  have hc : endsWord c = false := hword c List.mem_cons_self
  simp only [endsWord, Bool.or_eq_false_iff, Option.isSome_eq_false_iff, Option.isNone_iff_eq_none]
    at hc
  obtain ⟨⟨hblank, hquote⟩, hpunctuation⟩ := hc
  simp only [List.cons_append, run, step, start, hblank, hquote, hpunctuation, Bool.false_eq_true,
    if_false]
  exact run_word hrest (fun c hc => hword c (List.mem_cons_of_mem _ hc)) [c] hbare

end Lexer

/-! ### Strings -/

/-- Characters are no surrogates. -/
theorem not_surrogate (c : Char) :
    isHighSurrogate c.toNat = false ∧ isLowSurrogate c.toNat = false := by
  have hvalid := c.valid
  simp only [UInt32.isValidChar, Nat.isValidChar] at hvalid
  have : c.toNat = c.val.toNat := rfl
  simp only [isHighSurrogate, isLowSurrogate, Bool.and_eq_false_iff, decide_eq_false_iff_not]
  omega

/-- The code points of a text spell the text. -/
theorem pairUnits_map_toNat (cs : List Char) :
    ∀ done, pairUnits done (cs.map Char.toNat) = some (String.ofList (done.reverse ++ cs)) := by
  induction cs with
  | nil => simp [pairUnits]
  | cons c cs ih =>
      intro done
      obtain ⟨hhigh, hlow⟩ := not_surrogate c
      cases cs with
      | nil => simp [pairUnits, hhigh, hlow]
      | cons d cs =>
          have := ih (c :: done)
          simp only [List.map_cons] at this ⊢
          simp [pairUnits, hhigh, hlow, this]

theorem hexUnit_eq : ∀ n < 32, hexUnit n = ['0', '0', (n / 16).digitChar, (n % 16).digitChar] := by
  decide

theorem hexDigit?_digitChar : ∀ n < 16, hexDigit? n.digitChar = some n := by
  decide

namespace Lexer

variable {acc : List Token} {rest : List Char}

/-- A character inside a string is read as its code point, escaped or not. -/
theorem run_writeChar (c : Char) (units : List Nat) :
    run (.quoted units) acc (writeChar c ++ rest) =
      run (.quoted (c.toNat :: units)) acc rest := by
  unfold writeChar
  split
  all_goals try rfl
  by_cases hcontrol : c.toNat < 0x20
  · have hhigh := hexDigit?_digitChar (c.toNat / 16) (by omega)
    have hlow := hexDigit?_digitChar (c.toNat % 16) (by omega)
    have hvalue : 16 * (c.toNat / 16) + c.toNat % 16 = c.toNat := by omega
    have hzero : hexDigit? '0' = some 0 := rfl
    simp [hcontrol, hexUnit_eq _ hcontrol, run, step, hzero, hhigh, hlow, hvalue]
  · have hquote : (c == '"') = false := by simp_all
    have hslash : (c == '\\') = false := by simp_all
    simp [hcontrol, run, step, hquote, hslash]

/-- The characters of a text are read one by one. -/
theorem run_flatMap_writeChar (cs : List Char) :
    ∀ units, run (.quoted units) acc (cs.flatMap writeChar ++ rest) =
      run (.quoted ((cs.map Char.toNat).reverse ++ units)) acc rest := by
  induction cs with
  | nil => simp
  | cons c cs ih =>
      intro units
      simp [run_writeChar, ih]

theorem run_quote (cs : List Char) : run .between acc ('"' :: cs) = run (.quoted []) acc cs := by
  rfl

/-- A string literal between tokens gives the token of what it denotes. -/
theorem run_writeString (literal : Literal) :
    run .between acc (writeString literal ++ rest) =
      run .between (.string literal :: acc) rest := by
  cases literal with
  | none =>
      have hchars : writeString none = ['"', '\\', 'u', 'd', '8', '0', '0', '"'] := by decide
      have hunits : pairUnits [] [0xd800] = none := by decide
      simp [hchars, run_quote, run, step, hexDigit?, hunits]
  | some s =>
      have hpair : pairUnits [] (s.toList.map Char.toNat) = some s := by
        rw [pairUnits_map_toNat]
        simp
      show run .between acc (('"' :: (s.toList.flatMap writeChar ++ ['"'])) ++ rest) = _
      rw [List.cons_append, run_quote, List.append_assoc, run_flatMap_writeChar]
      simp [run, step, hpair]

end Lexer

/-! ### Tokens -/

/-- Every number of the value satisfies `number`, and every string and name `literal`. -/
inductive Each (number : Number → Prop) (literal : Literal → Prop) : Json → Prop where
  | null : Each number literal .null
  | bool (b : Bool) : Each number literal (.bool b)
  | number {n : Number} : number n → Each number literal (.number n)
  | string {s : Literal} : literal s → Each number literal (.string s)
  | array {items : List Json} :
      (∀ item ∈ items, Each number literal item) → Each number literal (.array items)
  | object {members : List (Literal × Json)} : (∀ member ∈ members, literal member.1) →
      (∀ member ∈ members, Each number literal member.2) → Each number literal (.object members)

mutual

/-- The tokens of a value. -/
def tokens : Json → List Token
  | null => [.null]
  | bool b => [.bool b]
  | number n => [.number n]
  | string s => [.string s]
  | array [] => [.openArray, .closeArray]
  | array (item :: items) => .openArray :: tokens item ++ itemTokens items
  | object [] => [.openObject, .closeObject]
  | object ((name, value) :: members) =>
    .openObject :: .string name :: .colon :: tokens value ++ memberTokens members

/-- The tokens of the items after the first, and the bracket that closes the array. -/
def itemTokens : List Json → List Token
  | [] => [.closeArray]
  | item :: items => .comma :: tokens item ++ itemTokens items

/-- The tokens of the members after the first, and the brace that closes the object. -/
def memberTokens : List (Literal × Json) → List Token
  | [] => [.closeObject]
  | (name, value) :: members =>
    .comma :: .string name :: .colon :: tokens value ++ memberTokens members

end

/-- Every value whose numbers are spelled by digits. -/
abbrev Spelled : Json → Prop := Each Number.Spelled fun _ => True

theorem write_array (item : Json) (items : List Json) :
    write (.array (item :: items)) = '[' :: (write item ++ writeItems items) := rfl

theorem write_object (name : Literal) (value : Json) (members : List (Literal × Json)) :
    write (.object ((name, value) :: members)) =
      '\x7b' :: (writeString name ++ ':' :: (write value ++ writeMembers members)) :=
  congrArg _ (List.append_assoc _ _ _)

namespace Lexer

variable {acc : List Token} {rest : List Char}

theorem follows_writeItems (items : List Json) (rest : List Char) :
    Follows (writeItems items ++ rest) := by
  cases items <;> (intro c hc; cases hc; rfl)

theorem follows_writeMembers (members : List (Literal × Json)) (rest : List Char) :
    Follows (writeMembers members ++ rest) := by
  rcases members with _ | ⟨⟨name, value⟩, members⟩ <;> (intro c hc; cases hc; rfl)

/-- Punctuation between tokens is a token. -/
theorem run_punctuation (c : Char) (token : Token) (h : punctuation? c = some token)
    (acc : List Token) (rest : List Char) :
    run .between acc (c :: rest) = run .between (token :: acc) rest := by
  unfold punctuation? at h
  split at h <;> cases h <;> rfl

/-- A member is its name, a colon and its value. -/
theorem run_member {value : Json} {rest : List Char}
    (hvalue : ∀ acc, run .between acc (write value ++ rest) =
      run .between ((tokens value).reverse ++ acc) rest)
    (name : Literal) (acc : List Token) :
    run .between acc (writeString name ++ ':' :: (write value ++ rest)) =
      run .between ((tokens value).reverse ++ .colon :: .string name :: acc) rest := by
  rw [run_writeString, run_punctuation ':' .colon rfl, hvalue]

theorem endsNoWord {word : List Char} (h : word.all fun c => !endsWord c) :
    ∀ c ∈ word, endsWord c = false := by
  simpa using h

mutual

/-- **The text of a value gives the tokens of the value.** -/
theorem run_write : ∀ {j : Json}, j.Spelled → ∀ {rest : List Char}, Follows rest →
    ∀ acc, run .between acc (write j ++ rest) = run .between ((tokens j).reverse ++ acc) rest
  | .null, _, _, hrest, _ => run_bare hrest (by decide) (endsNoWord (by decide)) (by decide)
  | .bool true, _, _, hrest, _ => run_bare hrest (by decide) (endsNoWord (by decide)) (by decide)
  | .bool false, _, _, hrest, _ => run_bare hrest (by decide) (endsNoWord (by decide)) (by decide)
  | .number n, h, _, hrest, _ => by
      cases h with
      | number hn =>
          obtain ⟨c, cs, heq, -⟩ := Number.writeNumber_eq_cons n
          have hne : writeNumber n ≠ [] := heq ▸ List.cons_ne_nil c cs
          exact run_bare hrest hne (endsWord_writeNumber hn) (bare?_writeNumber hn)
  | .string s, _, _, _, _ => run_writeString s
  | .array [], _, _, _, _ => rfl
  | .array (item :: items), h, rest, _, acc => by
      cases h with
      | array h =>
          have hitem := run_write (h item List.mem_cons_self) (follows_writeItems items rest)
          have hitems := run_writeItems fun j hj => h j (List.mem_cons_of_mem _ hj)
          rw [write_array, List.cons_append, List.append_assoc]
          rw [run_punctuation '[' .openArray rfl, hitem, hitems]
          simp [tokens]
  | .object [], _, _, _, _ => rfl
  | .object ((name, value) :: members), h, rest, _, acc => by
      cases h with
      | object _ h =>
          have hvalue := run_write (h (name, value) List.mem_cons_self)
            (follows_writeMembers members rest)
          have hmembers := run_writeMembers fun m hm => h m (List.mem_cons_of_mem _ hm)
          simp only [write_object, List.cons_append, List.append_assoc]
          rw [run_punctuation '\x7b' .openObject rfl, run_member hvalue, hmembers]
          simp [tokens]

/-- The items of an array are read as their tokens, with commas in between. -/
theorem run_writeItems : ∀ {items : List Json}, (∀ item ∈ items, item.Spelled) → ∀ acc rest,
    run .between acc (writeItems items ++ rest) =
      run .between ((itemTokens items).reverse ++ acc) rest
  | [], _, _, _ => rfl
  | item :: items, h, acc, rest => by
      have hitem := run_write (h item List.mem_cons_self) (follows_writeItems items rest)
      have hitems := run_writeItems fun j hj => h j (List.mem_cons_of_mem _ hj)
      simp only [writeItems, List.cons_append, List.append_assoc]
      rw [run_punctuation ',' .comma rfl, hitem, hitems]
      simp [itemTokens]

/-- So are the members of an object, with their names. -/
theorem run_writeMembers : ∀ {members : List (Literal × Json)},
    (∀ member ∈ members, member.2.Spelled) → ∀ acc rest,
    run .between acc (writeMembers members ++ rest) =
      run .between ((memberTokens members).reverse ++ acc) rest
  | [], _, _, _ => rfl
  | (name, value) :: members, h, acc, rest => by
      have hvalue := run_write (h (name, value) List.mem_cons_self)
        (follows_writeMembers members rest)
      have hmembers := run_writeMembers fun m hm => h m (List.mem_cons_of_mem _ hm)
      simp only [writeMembers, List.cons_append, List.append_assoc]
      rw [run_punctuation ',' .comma rfl, run_member hvalue, hmembers]
      simp [memberTokens]

end

end Lexer

/-- The tokens of a text are those of the value that it was written for. -/
theorem tokens?_write {j : Json} (h : j.Spelled) : tokens? (write j) = some (tokens j) := by
  have hend : Lexer.Follows [] := by rintro c ⟨⟩
  have hrun := Lexer.run_write h hend []
  rw [List.append_nil, List.append_nil] at hrun
  rw [tokens?, hrun]
  simp [Lexer.run, Lexer.finish]

/-! ### Values -/

namespace Reader

/-- No value starts with the bracket that closes an array, so the first item of an array is read
like any value. -/
theorem run_firstItem (j : Json) (stack : List Open) (rest : List Token) :
    run .firstItem stack (tokens j ++ rest) =
      run .value (.array [] :: stack) (tokens j ++ rest) := by
  rcases j with _ | _ | _ | _ | ⟨_ | _⟩ | ⟨_ | ⟨_, _⟩⟩ <;> rfl

mutual

/-- **The tokens of a value are read as the value.** -/
theorem run_tokens : ∀ (j : Json) (stack : List Open) (rest : List Token),
    run .value stack (tokens j ++ rest) = run (.done j) stack rest
  | .null, _, _ => rfl
  | .bool _, _, _ => rfl
  | .number _, _, _ => rfl
  | .string _, _, _ => rfl
  | .array [], _, _ => rfl
  | .array (item :: items), stack, rest => by
      have hopen : ∀ ts, run .value stack (.openArray :: ts) = run .firstItem stack ts :=
        fun _ => rfl
      simp only [tokens, List.cons_append, List.append_assoc]
      rw [hopen, run_firstItem, run_tokens, run_itemTokens]
      rfl
  | .object [], _, _ => rfl
  | .object ((name, value) :: members), stack, rest => by
      have hopen : ∀ ts, run .value stack (.openObject :: .string name :: .colon :: ts) =
          run .value (.object [] name :: stack) ts := fun _ => rfl
      simp only [tokens, List.cons_append, List.append_assoc]
      rw [hopen, run_tokens, run_memberTokens]
      rfl

/-- The tokens of items make up the array, whatever is open around it. -/
theorem run_itemTokens : ∀ (items : List Json) (value : Json) (before : List Json)
    (stack : List Open) (rest : List Token),
    run (.done value) (.array before :: stack) (itemTokens items ++ rest) =
      run (.done (.array (before.reverse ++ value :: items))) stack rest
  | [], value, before, stack, rest => by
      simp [itemTokens, run, step, continueAfter]
  | item :: items, value, before, stack, rest => by
      have hcomma : ∀ ts, run (.done value) (.array before :: stack) (.comma :: ts) =
          run .value (.array (value :: before) :: stack) ts := fun _ => rfl
      simp only [itemTokens, List.cons_append, List.append_assoc]
      rw [hcomma, run_tokens, run_itemTokens]
      simp

/-- Those of members make up the object. -/
theorem run_memberTokens : ∀ (members : List (Literal × Json)) (name : Literal) (value : Json)
    (before : List (Literal × Json)) (stack : List Open) (rest : List Token),
    run (.done value) (.object before name :: stack) (memberTokens members ++ rest) =
      run (.done (.object (before.reverse ++ (name, value) :: members))) stack rest
  | [], name, value, before, stack, rest => by
      simp [memberTokens, run, step, continueAfter]
  | (next, item) :: members, name, value, before, stack, rest => by
      have hcomma : ∀ ts, run (.done value) (.object before name :: stack)
          (.comma :: .string next :: .colon :: ts) =
            run .value (.object ((name, value) :: before) next :: stack) ts := fun _ => rfl
      simp only [memberTokens, List.cons_append, List.append_assoc]
      rw [hcomma, run_tokens, run_memberTokens]
      simp

end

end Reader

/-- **The text of a value reads back**, if every number has digits after its point. -/
theorem read?_render {j : Json} (h : j.Spelled) : read? j.render = some j := by
  have hread := Reader.run_tokens j [] []
  rw [List.append_nil] at hread
  simp only [read?, render, String.toList_ofList, tokens?_write h]
  exact hread

end TreeScript.Json
