import Mathlib.Data.Finset.Card
import TreeScript.Proofs.Operands
import TreeScript.Proofs.Updates

/-!
# Proofs — object literals

An object literal evaluates its entries once each, from left to right, each in the state that the
one before it leaves, and fails at the first that fails (`object_literal_exact`).  If all have
values, the object has the keys of the entries in the order of their first appearance, and each key
has the value of the last entry with this key.

Place and value of a repeated key come from different entries.  `Value.setProperty` keeps the place,
so the keys of an object are those of its entries without repetitions (`Value.keys_propertiesOf`);
and it replaces the value, so a key is looked up in the entries from the back
(`Value.property?_propertiesOf`).
-/

namespace TreeScript

/-! ### Properties that entries set -/

namespace Value

theorem propertiesOf_concat (entries : List (String × Value)) (key : String) (value : Value) :
    propertiesOf (entries ++ [(key, value)]) = setProperty key value (propertiesOf entries) := by
  simp [propertiesOf, List.foldl_append]

/-- Setting a property leaves the keys alone, or adds one at the end. -/
theorem keys_setProperty (key : String) (value : Value) (properties : List (String × Value)) :
    (setProperty key value properties).map (·.1) =
      if key ∈ properties.map (·.1) then properties.map (·.1)
      else properties.map (·.1) ++ [key] := by
  induction properties with
  | nil => rfl
  | cons p properties ih =>
      obtain ⟨k, v⟩ := p
      rw [setProperty]
      by_cases hk : k = key
      · simp [hk]
      · have hne : key ≠ k := Ne.symm hk
        simp only [hk, if_false, List.map_cons, ih, List.mem_cons, hne, false_or]
        split <;> rfl

/-- **The keys of an object** are those of its entries, each at the place of its first
appearance. -/
theorem keys_propertiesOf (entries : List (String × Value)) :
    (propertiesOf entries).map (·.1) = (entries.map (·.1)).eraseDups := by
  induction entries using List.reverseRecOn with
  | nil => rfl
  | append_singleton entries entry ih =>
      obtain ⟨key, value⟩ := entry
      rw [propertiesOf_concat, keys_setProperty, ih, List.map_append, List.eraseDups_append]
      by_cases hkey : key ∈ entries.map (·.1)
      · rw [if_pos (List.mem_eraseDups.mpr hkey)]
        have hnone : [key].removeAll (entries.map (·.1)) = [] := by
          simpa [List.removeAll] using hkey
        rw [List.map_singleton, hnone, List.eraseDups_nil, List.append_nil]
      · rw [if_neg (mt List.mem_eraseDups.mp hkey)]
        have hone : [key].removeAll (entries.map (·.1)) = [key] := by
          simpa [List.removeAll] using hkey
        rw [List.map_singleton, hone]
        rfl

/-- No key of an object comes twice. -/
theorem nodup_keys_propertiesOf (entries : List (String × Value)) :
    ((propertiesOf entries).map (·.1)).Nodup := by
  induction entries using List.reverseRecOn with
  | nil => exact .nil
  | append_singleton entries entry ih =>
      obtain ⟨key, value⟩ := entry
      rw [propertiesOf_concat, keys_setProperty]
      split
      · exact ih
      · rename_i hkey
        exact List.nodup_append.mpr ⟨ih, List.nodup_singleton key, by
          rintro k hk _ hkey' rfl
          exact hkey (List.mem_singleton.mp hkey' ▸ hk)⟩

/-- An object has as many properties as its entries have distinct keys. -/
theorem length_propertiesOf (entries : List (String × Value)) :
    (propertiesOf entries).length = (entries.map (·.1)).toFinset.card := by
  have hsame : (entries.map (·.1)).toFinset = ((propertiesOf entries).map (·.1)).toFinset := by
    ext key
    rw [List.mem_toFinset, List.mem_toFinset, keys_propertiesOf, List.mem_eraseDups]
  rw [hsame, List.toFinset_card_of_nodup (nodup_keys_propertiesOf entries), List.length_map]

theorem property?_cons (k : String) (v : Value) (properties : List (String × Value))
    (key : String) :
    property? ((k, v) :: properties) key =
      if key = k then some v else property? properties key := by
  by_cases h : key = k
  · simp [property?, h]
  · have hne : (key == k) = false := by simpa using h
    simp [property?, List.lookup_cons, h, hne]

theorem property?_setProperty (key : String) (value : Value) (properties : List (String × Value))
    (k : String) :
    property? (setProperty key value properties) k =
      if k = key then some value else property? properties k := by
  induction properties with
  | nil => exact property?_cons key value [] k
  | cons p properties ih =>
      obtain ⟨k', v⟩ := p
      rw [setProperty]
      split
      · rename_i hk'
        rw [property?_cons, property?_cons, hk']
        split <;> rfl
      · rename_i hk'
        rw [property?_cons, property?_cons, ih]
        by_cases hk : k = k'
        · rw [if_pos hk, if_pos hk, if_neg fun h => hk' (hk.symm.trans h)]
        · rw [if_neg hk, if_neg hk]

/-- **The value of a key** is that of the last entry with this key. -/
theorem property?_propertiesOf (entries : List (String × Value)) (key : String) :
    property? (propertiesOf entries) key = property? entries.reverse key := by
  induction entries using List.reverseRecOn with
  | nil => rfl
  | append_singleton entries entry ih =>
      obtain ⟨k, value⟩ := entry
      rw [propertiesOf_concat, property?_setProperty, ih, List.reverse_append,
        List.reverse_singleton, List.singleton_append, property?_cons]

end Value

/-- An entry that no later one repeats decides the value of its key. -/
theorem Value.member_ofEntries {before after : List (String × Value)} {key : String} {value : Value}
    (h : key ∉ after.map (·.1)) :
    (Value.ofEntries (before ++ (key, value) :: after)).member key = .ok value := by
  have hproperty : property? (propertiesOf (before ++ (key, value) :: after)) key = some value := by
    rw [property?_propertiesOf]
    refine List.lookup_eq_some_iff.mpr ⟨after.reverse, before.reverse, by simp, ?_⟩
    intro p hp
    have hne : key ≠ p.1 := by
      rintro rfl
      exact h (List.mem_map_of_mem (List.mem_reverse.mp hp))
    simpa using hne
  simp only [Value.ofEntries, Value.member, hproperty]

/-- A key can be read if and only if an entry has it. -/
theorem Value.member_ofEntries_isOk {entries : List (String × Value)} {key : String} :
    (∃ value, (Value.ofEntries entries).member key = .ok value) ↔ key ∈ entries.map (·.1) := by
  simp only [Value.ofEntries, Value.member, property?_propertiesOf]
  cases hlookup : property? entries.reverse key with
  | none =>
      have habsent : ∀ p ∈ entries, key ≠ p.1 := by
        intro p hp
        simpa using List.lookup_eq_none_iff.mp hlookup p (List.mem_reverse.mpr hp)
      simp only [reduceCtorEq, exists_false, false_iff, List.mem_map, not_exists, not_and]
      exact fun p hp heq => habsent p hp heq.symm
  | some value =>
      obtain ⟨before, after, hentries, -⟩ := List.lookup_eq_some_iff.mp hlookup
      have hmem : (key, value) ∈ entries := List.mem_reverse.mp (by simp [hentries])
      simp only [Except.ok.injEq, exists_eq', true_iff]
      exact List.mem_map_of_mem hmem

/-! ### Entries one after the other -/

/-- Evaluates an entry of an object literal: its node or, if it has none, the variable of its
key. -/
def evaluateEntry (config : Config) (budget : Nat) (scope : ScopeId) (entry : Entry Node) :
    Run Value :=
  match entry.value with
  | some node => evaluateWithin config budget scope node
  | none => Run.query fun store => store.lookup scope entry.key

/-- The entries, evaluated one after the other, each in the state that the one before it leaves,
yield these values and lead from the first state to the last. -/
inductive EntriesYield (config : Config) (budget : Nat) (scope : ScopeId) :
    List (Entry Node) → State → List Value → State → Prop where
  | nil (s : State) : EntriesYield config budget scope [] s [] s
  | cons {entry : Entry Node} {entries : List (Entry Node)} {value : Value} {values : List Value}
      {s s₁ s' : State} : evaluateEntry config budget scope entry s = some (.ok value, s₁) →
        EntriesYield config budget scope entries s₁ values s' →
        EntriesYield config budget scope (entry :: entries) s (value :: values) s'

section

variable {config : Config} {budget : Nat} {scope : ScopeId} {s s' : State}

theorem evalEntries_cons (entry : Entry Node) (entries : List (Entry Node)) :
    evalEntries config (callClosure config budget) scope (entry :: entries) = do
      let value ← evaluateEntry config budget scope entry
      let rest ← evalEntries config (callClosure config budget) scope entries
      return (entry.key, value) :: rest := by
  obtain ⟨key, _ | node⟩ := entry <;> rfl

/-- Entries end with values just if they yield them one after the other. -/
theorem evalEntries_eq_ok {entries : List (Entry Node)} {pairs : List (String × Value)} :
    evalEntries config (callClosure config budget) scope entries s = some (.ok pairs, s') ↔
      ∃ values, EntriesYield config budget scope entries s values s' ∧
        pairs = (entries.map (·.key)).zip values := by
  induction entries generalizing s pairs with
  | nil =>
      constructor
      · rintro ⟨⟩
        exact ⟨[], .nil s', rfl⟩
      · rintro ⟨_, ⟨⟩, rfl⟩
        rfl
  | cons entry entries ih =>
      rw [evalEntries_cons, Run.bind_eq_some]
      constructor
      · rintro (⟨_, _, ⟨⟩⟩ | ⟨value, s₁, hvalue, hrest⟩)
        rcases Run.bind_eq_some.mp hrest with ⟨_, _, ⟨⟩⟩ | ⟨rest, s₂, hrest, ⟨⟩⟩
        obtain ⟨values, hyield, rfl⟩ := ih.mp hrest
        exact ⟨value :: values, .cons hvalue hyield, rfl⟩
      · rintro ⟨_, hyield, rfl⟩
        cases hyield with
        | cons hvalue hyield =>
            refine .inr ⟨_, _, hvalue, Run.bind_eq_some.mpr (.inr ⟨_, _, ?_, rfl⟩)⟩
            exact ih.mpr ⟨_, hyield, rfl⟩

/-- Entries fail with the first that fails, after the others before it. -/
theorem evalEntries_eq_failure {entries : List (Entry Node)} {failure : Failure} :
    evalEntries config (callClosure config budget) scope entries s = some (.error failure, s') ↔
      ∃ before entry after values s₁, entries = before ++ entry :: after ∧
        EntriesYield config budget scope before s values s₁ ∧
        evaluateEntry config budget scope entry s₁ = some (.error failure, s') := by
  have single : ∀ (entry : Entry Node) (s₁ : State),
      evalEntries config (callClosure config budget) scope [entry] s₁ = some (.error failure, s') ↔
        evaluateEntry config budget scope entry s₁ = some (.error failure, s') := by
    intro entry s₁
    simp [evalEntries_cons, evalEntries, Run.map_eq_error]
  simp only [evalEntries_eq_error, single]
  constructor
  · rintro ⟨before, entry, after, pairs, s₁, hsplit, hbefore, hentry⟩
    obtain ⟨values, hyield, -⟩ := evalEntries_eq_ok.mp hbefore
    exact ⟨before, entry, after, values, s₁, hsplit, hyield, hentry⟩
  · rintro ⟨before, entry, after, values, s₁, hsplit, hyield, hentry⟩
    exact ⟨before, entry, after, _, s₁, hsplit, evalEntries_eq_ok.mpr ⟨values, hyield, rfl⟩, hentry⟩

/-- A sequence does not end if its first part does not, or else its second. -/
theorem Run.bind_eq_none {α β : Type} {x : Run α} {f : α → Run β} {s : State} :
    (x >>= f) s = none ↔ x s = none ∨ ∃ a s₁, x s = some (.ok a, s₁) ∧ f a s₁ = none := by
  show Run.bind x f s = none ↔ _
  simp only [Run.bind]
  rcases x s with _ | ⟨_ | a, s₁⟩ <;> simp

/-- Entries do not end if one does not, after the others before it. -/
theorem evalEntries_eq_none {entries : List (Entry Node)} :
    evalEntries config (callClosure config budget) scope entries s = none ↔
      ∃ before entry after values s₁, entries = before ++ entry :: after ∧
        EntriesYield config budget scope before s values s₁ ∧
        evaluateEntry config budget scope entry s₁ = none := by
  induction entries generalizing s with
  | nil => simp [evalEntries, Pure.pure, Run.pure]
  | cons first entries ih =>
      rw [evalEntries_cons, Run.bind_eq_none]
      constructor
      · rintro (hfirst | ⟨value, s₁, hvalue, hrest⟩)
        · exact ⟨[], first, entries, [], s, rfl, .nil s, hfirst⟩
        · rcases Run.bind_eq_none.mp hrest with hrest | ⟨_, _, _, ⟨⟩⟩
          obtain ⟨before, entry, after, values, s₂, rfl, hyield, hentry⟩ := ih.mp hrest
          exact ⟨first :: before, entry, after, value :: values, s₂, rfl, .cons hvalue hyield,
            hentry⟩
      · rintro ⟨before, entry, after, values, s₁, hsplit, hyield, hentry⟩
        cases hyield with
        | nil =>
            cases hsplit
            exact .inl hentry
        | cons hvalue hyield =>
            cases hsplit
            refine .inr ⟨_, _, hvalue, Run.bind_eq_none.mpr (.inl ?_)⟩
            exact ih.mpr ⟨_, entry, after, _, s₁, rfl, hyield, hentry⟩

/-- Values of a list of entries are values of its pieces. -/
theorem EntriesYield.split {before after : List (Entry Node)} {entry : Entry Node}
    {values : List Value}
    (h : EntriesYield config budget scope (before ++ entry :: after) s values s') :
    ∃ values₁ s₁ value s₂ values₂, values = values₁ ++ value :: values₂ ∧
      EntriesYield config budget scope before s values₁ s₁ ∧
      evaluateEntry config budget scope entry s₁ = some (.ok value, s₂) ∧
      EntriesYield config budget scope after s₂ values₂ s' := by
  induction before generalizing s values with
  | nil =>
      cases h with
      | cons hvalue hafter => exact ⟨[], s, _, _, _, rfl, .nil s, hvalue, hafter⟩
  | cons first before ih =>
      cases h with
      | cons hfirst hrest =>
          obtain ⟨values₁, s₁, value, s₂, values₂, rfl, hbefore, hvalue, hafter⟩ := ih hrest
          exact ⟨_ :: values₁, s₁, value, s₂, values₂, rfl, .cons hfirst hbefore, hvalue, hafter⟩

/-- An object literal ends with a value just if its entries yield values, and these make up the
object. -/
theorem evaluateWithin_object_eq_ok {entries : List (Entry Node)} {span : Span} {v : Value} :
    evaluateWithin config budget scope (.object entries span) s = some (.ok v, s') ↔
      ∃ values, EntriesYield config budget scope entries s values s' ∧
        v = .ofEntries ((entries.map (·.key)).zip values) := by
  simp only [evaluateWithin, evalNode, Run.located_eq_some, Run.bind_eq_some]
  constructor
  · rintro (⟨_, _, ⟨⟩⟩ | ⟨_, ⟨_, _, ⟨⟩⟩ | ⟨pairs, s₁, hpairs, ⟨⟩⟩, ⟨⟩⟩)
    obtain ⟨values, hyield, rfl⟩ := evalEntries_eq_ok.mp hpairs
    exact ⟨values, hyield, rfl⟩
  · rintro ⟨values, hyield, rfl⟩
    exact .inr ⟨_, .inr ⟨_, s', evalEntries_eq_ok.mpr ⟨values, hyield, rfl⟩, rfl⟩, rfl⟩

theorem evaluateWithin_object_eq_error {entries : List (Entry Node)} {span : Span}
    {failure : Failure} :
    evaluateWithin config budget scope (.object entries span) s = some (.error failure, s') ↔
      ∃ raised, evalEntries config (callClosure config budget) scope entries s =
        some (.error raised, s') ∧ failure = raised.orSpan span := by
  simp only [evaluateWithin, evalNode, Run.located_eq_some, Run.bind_eq_some]
  constructor
  · rintro (⟨raised, ⟨_, h, ⟨⟩⟩ | ⟨_, _, _, ⟨⟩⟩, ⟨⟩⟩ | ⟨_, _, ⟨⟩⟩)
    exact ⟨raised, h, rfl⟩
  · rintro ⟨raised, h, rfl⟩
    exact .inl ⟨raised, .inl ⟨raised, h, rfl⟩, rfl⟩

theorem evaluateWithin_object_eq_none {entries : List (Entry Node)} {span : Span} :
    evaluateWithin config budget scope (.object entries span) s = none ↔
      evalEntries config (callClosure config budget) scope entries s = none := by
  have hlocated : ∀ x : Run Value, Run.located span x s = none ↔ x s = none := by
    intro x
    rw [Run.located]
    rcases x s with _ | ⟨_ | _, _⟩ <;> simp
  simp only [evaluateWithin, evalNode, hlocated, Run.bind_eq_none]
  constructor
  · rintro (h | ⟨_, _, _, ⟨⟩⟩)
    exact h
  · exact .inl

theorem EntriesYield.length_eq {entries : List (Entry Node)} {values : List Value}
    (h : EntriesYield config budget scope entries s values s') :
    values.length = entries.length := by
  induction h with
  | nil => rfl
  | cons _ _ ih => simp [ih]

end

/-- **Object literals are exact.**  However its keys repeat, an object literal

* fails with the failure of the first entry that fails, located at the literal unless it is located
  already, in the state that this entry leaves, the entries before it having been evaluated in
  order;
* does not end if an entry does not, the entries before it having been evaluated in order;
* ends with a value if all entries, evaluated in order, have values, and in the state that the last
  of them leaves.

The value is an object.  Its keys are the distinct keys of the entries in the order of their first
appearance, so it has as many properties as there are distinct keys.  Reading a key succeeds just if
an entry has the key, and gives the value that the last such entry had in its turn. -/
theorem object_literal_exact (config : Config) (budget : Nat) (scope : ScopeId)
    (entries : List (Entry Node)) (span : Span) (s : State) :
    (∀ failure s', evaluateWithin config budget scope (.object entries span) s =
        some (.error failure, s') ↔
      ∃ before entry after values s₁ raised, entries = before ++ entry :: after ∧
        EntriesYield config budget scope before s values s₁ ∧
        evaluateEntry config budget scope entry s₁ = some (.error raised, s') ∧
        failure = raised.orSpan span) ∧
    (evaluateWithin config budget scope (.object entries span) s = none ↔
      ∃ before entry after values s₁, entries = before ++ entry :: after ∧
        EntriesYield config budget scope before s values s₁ ∧
        evaluateEntry config budget scope entry s₁ = none) ∧
    (∀ s', (∃ v, evaluateWithin config budget scope (.object entries span) s = some (.ok v, s')) ↔
      ∃ values, EntriesYield config budget scope entries s values s') ∧
    ∀ v s', evaluateWithin config budget scope (.object entries span) s = some (.ok v, s') →
      (∃ properties, v = .object properties ∧
        properties.map (·.1) = (entries.map (·.key)).eraseDups ∧
        properties.length = (entries.map (·.key)).toFinset.card) ∧
      (∀ key, (∃ value, v.member key = .ok value) ↔ key ∈ entries.map (·.key)) ∧
      ∀ before entry after, entries = before ++ entry :: after →
        (∀ later ∈ after, later.key ≠ entry.key) →
        ∃ values₁ s₁ value s₂ values₂, EntriesYield config budget scope before s values₁ s₁ ∧
          evaluateEntry config budget scope entry s₁ = some (.ok value, s₂) ∧
          EntriesYield config budget scope after s₂ values₂ s' ∧
          v.member entry.key = .ok value := by
  refine ⟨fun failure s' => ?_, ?_, fun s' => ?_, fun v s' hrun => ?_⟩
  · rw [evaluateWithin_object_eq_error]
    constructor
    · rintro ⟨raised, h, rfl⟩
      obtain ⟨before, entry, after, values, s₁, hsplit, hyield, hentry⟩ :=
        evalEntries_eq_failure.mp h
      exact ⟨before, entry, after, values, s₁, raised, hsplit, hyield, hentry, rfl⟩
    · rintro ⟨before, entry, after, values, s₁, raised, hsplit, hyield, hentry, rfl⟩
      exact ⟨raised, evalEntries_eq_failure.mpr
        ⟨before, entry, after, values, s₁, hsplit, hyield, hentry⟩, rfl⟩
  · rw [evaluateWithin_object_eq_none, evalEntries_eq_none]
  · simp only [evaluateWithin_object_eq_ok]
    constructor
    · rintro ⟨_, values, hyield, -⟩
      exact ⟨values, hyield⟩
    · rintro ⟨values, hyield⟩
      exact ⟨_, values, hyield, rfl⟩
  · obtain ⟨values, hyield, rfl⟩ := evaluateWithin_object_eq_ok.mp hrun
    have hkeys : ((entries.map (·.key)).zip values).map (·.1) = entries.map (·.key) :=
      List.map_fst_zip (by simp [hyield.length_eq])
    refine ⟨⟨_, rfl, ?_, ?_⟩, fun key => ?_, fun before entry after hsplit hlast => ?_⟩
    · rw [Value.keys_propertiesOf, hkeys]
    · rw [Value.length_propertiesOf, hkeys]
    · rw [Value.member_ofEntries_isOk, hkeys]
    · subst hsplit
      obtain ⟨values₁, s₁, value, s₂, values₂, rfl, hbefore, hvalue, hafter⟩ := hyield.split
      refine ⟨values₁, s₁, value, s₂, values₂, hbefore, hvalue, hafter, ?_⟩
      have hpairs : ((before ++ entry :: after).map (·.key)).zip (values₁ ++ value :: values₂) =
          (before.map (·.key)).zip values₁ ++
            (entry.key, value) :: (after.map (·.key)).zip values₂ := by
        rw [List.map_append, List.map_cons, List.zip_append (by simp [hbefore.length_eq]),
          List.zip_cons_cons]
      rw [hpairs]
      refine Value.member_ofEntries ?_
      rw [List.map_fst_zip (by simp [hafter.length_eq])]
      simpa using hlast

/-- The entries of `{ x, y: x = "new", x }`. -/
def repeatedEntries : List (Entry Node) :=
  [⟨"x", none⟩,
    ⟨"y", some (.assignment (.identifier "x" .dummy) (.string "new" .dummy) .dummy)⟩,
    ⟨"x", none⟩]

/-- The key `x` keeps the place of its first entry, but has the value of its last one, which was
evaluated after the assignment. -/
theorem object_literal_exact_repeated :
    ∃ s' values₁ s₁ s₂,
      evaluateWithin ⟨.default, .empty⟩ 0 1 (.object repeatedEntries .dummy) familyState =
        some (.ok (.object [("x", .string "new"), ("y", .string "new")]), s') ∧
      ["x", "y"] = ["x", "y", "x"].eraseDups ∧ 2 = ["x", "y", "x"].toFinset.card ∧
      EntriesYield ⟨.default, .empty⟩ 0 1 (repeatedEntries.take 2) familyState values₁ s₁ ∧
      evaluateEntry ⟨.default, .empty⟩ 0 1 ⟨"x", none⟩ s₁ = some (.ok (.string "new"), s₂) := by
  have hrun : (evaluateWithin ⟨.default, .empty⟩ 0 1 (.object repeatedEntries .dummy)
      familyState).map (fun p => p.1) =
        some (.ok (.object [("x", .string "new"), ("y", .string "new")])) := by
    cbv
  obtain ⟨⟨r, s'⟩, hrun, rfl⟩ := Option.map_eq_some_iff.mp hrun
  obtain ⟨-, -, -, hvalue⟩ :=
    object_literal_exact ⟨.default, .empty⟩ 0 1 repeatedEntries .dummy familyState
  obtain ⟨⟨properties, heq, hkeys, hlength⟩, -, hlast⟩ := hvalue _ s' hrun
  cases heq
  obtain ⟨values₁, s₁, value, s₂, values₂, hbefore, hentry, -, hmember⟩ :=
    hlast (repeatedEntries.take 2) ⟨"x", none⟩ [] rfl (by simp)
  cases hmember
  exact ⟨s', values₁, s₁, s₂, hrun, hkeys, hlength, hbefore, hentry⟩

end TreeScript
