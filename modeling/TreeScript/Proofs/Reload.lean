import TreeScript.Proofs.Rounding
import TreeScript.Proofs.Spelling

/-!
# Proofs — what loads can be saved and loaded again

A tree that was loaded has only finite numbers, since no other number is read, and what it is saved
as nests at most one level deeper than what it was loaded from: whatever spelling a part had, its
saved form stands at the same depth, and the span that each node is saved with is the only thing
that may be new (`Node.Resaves`).  So it loads again, if what it was loaded from was one level below
the limit (`Node.reload_of_depth_le`).
-/

namespace TreeScript

namespace Node

/-! ### Nesting of what is saved -/

@[simp] theorem depth_text (s : String) : (Json.text s).depth = 0 := rfl

@[simp] theorem depth_bool (b : Bool) : (Json.bool b).depth = 0 := rfl

/-- A double is saved as a number or as null, and neither nests. -/
@[simp] theorem depth_float (x : Float) : (Json.float x).depth = 0 := by
  unfold Json.float
  split <;> rfl

/-- A record nests one level deeper than the deepest of its fields. -/
theorem depth_record_le {fields : List (String × Json)} {d : Nat}
    (h : ∀ field ∈ fields, field.2.depth ≤ d) : (Json.record fields).depth ≤ d + 1 := by
  refine Nat.succ_le_succ (Json.membersDepth_le.mpr fun member hmember => ?_)
  obtain ⟨field, hfield, rfl⟩ := List.mem_map.mp hmember
  exact h field hfield

/-- A node is saved one level above its fields and its span. -/
theorem depth_encodeAs_le {kind : Kind} {fields : List (String × Json)} {span : Span} {d : Nat}
    (h : ∀ field ∈ fields, field.2.depth ≤ d + 1) : (encodeAs kind fields span).depth ≤ d + 2 := by
  refine depth_record_le fun field hfield => ?_
  simp only [List.mem_append, List.mem_singleton] at hfield
  rcases hfield with (rfl | hfield) | rfl
  · exact Nat.zero_le _
  · exact h field hfield
  · exact Nat.succ_le_succ (Nat.zero_le d)

/-! ### Reading and writing again -/

/-- What `decode` reads satisfies `P`, and is written by `encode` at most one level deeper. -/
def Resaves {α : Type} (decode : Json → Option α) (encode : α → Json) (P : α → Prop) : Prop :=
  ∀ j a, decode j = some a → P a ∧ (encode a).depth ≤ j.depth + 1

section

variable {α : Type} {decode : Json → Option α} {encode : α → Json} {P : α → Prop}

/-- Whatever is in a list that was read item by item was read from an item. -/
theorem mem_of_mapM {items : List Json} {as : List α} (h : items.mapM decode = some as) :
    ∀ a ∈ as, ∃ item ∈ items, decode item = some a := by
  induction items generalizing as with
  | nil =>
      cases h
      nofun
  | cons item items ih =>
      simp only [List.mapM_cons, Option.bind_eq_bind, Option.bind_eq_some_iff, Option.pure_def,
        Option.some.injEq] at h
      obtain ⟨first, hfirst, rest, hrest, rfl⟩ := h
      rw [List.forall_mem_cons]
      refine ⟨⟨item, List.mem_cons_self, hfirst⟩, fun a ha => ?_⟩
      obtain ⟨found, hfound, hread⟩ := ih hrest a ha
      exact ⟨found, List.mem_cons_of_mem _ hfound, hread⟩

/-- Lists are saved as they were read if their items are. -/
theorem Resaves.list (h : Resaves decode encode P) :
    Resaves (decodeList decode) (fun as => .array (as.map encode)) fun as => ∀ a ∈ as, P a := by
  intro j as hread
  cases j with
  | array items =>
      have hall := mem_of_mapM hread
      refine ⟨fun a ha => ?_, ?_⟩
      · obtain ⟨item, -, hitem⟩ := hall a ha
        exact (h item a hitem).1
      · refine Nat.succ_le_succ (Json.itemsDepth_le.mpr fun j hj => ?_)
        obtain ⟨a, ha, rfl⟩ := List.mem_map.mp hj
        obtain ⟨item, hmem, hitem⟩ := hall a ha
        have hdepth := (h item a hitem).2
        have hlt := Json.depth_lt_array hmem
        omega
  | _ => cases hread

/-- What may be null is saved as it was read if what is not null is. -/
theorem Resaves.nullable (h : Resaves decode encode P) {j : Json} {o : Option α}
    (hread : nullable decode j = some o) : ∀ a ∈ o, P a ∧ (encode a).depth ≤ j.depth + 1 := by
  rintro a rfl
  refine h j a ?_
  cases j <;> simp_all [Node.nullable]

theorem resaves_text : Resaves decodeText .text fun _ => True :=
  fun _ _ _ => ⟨trivial, Nat.zero_le _⟩

/-- What is read as a number is finite. -/
theorem resaves_float : Resaves decodeFloat .float fun x => x.isFinite := by
  intro j x hread
  cases j with
  | number n => exact ⟨Json.Number.isFinite_of_toFloat? hread, by simp⟩
  | _ => cases hread

end

/-! ### Fields -/

section

variable {members : Members} {α : Type} {decode : Json → Option α} {encode : α → Json}
  {P : α → Prop}

/-- What is found in an object nests less deep than it. -/
theorem depth_of_find {names : List String} {value : Json}
    (h : members.find names = some (some value)) : value.depth ≤ Json.membersDepth members := by
  rw [Members.find_eq_only] at h
  generalize hnamed : members.named names = found at h
  match found, h with
  | [(name, value)], rfl =>
      have hmem : (name, value) ∈ members.named names := hnamed ▸ List.mem_singleton_self _
      have hmem : (name, value) ∈ members := List.mem_of_mem_filter hmem
      exact Json.membersDepth_le.mp (Nat.le_refl _) _ hmem

/-- A field that has to be there was read from a member, which nests less deep than the object. -/
theorem Resaves.required (h : Resaves decode encode P) {names : List String} {a : α}
    {value : Json} (hvalue : members.required names = some value) (ha : decode value = some a) :
    P a ∧ (encode a).depth ≤ Json.membersDepth members + 1 := by
  obtain ⟨found, hfound, rfl⟩ := Option.bind_eq_some_iff.mp hvalue
  have hdepth := depth_of_find hfound
  obtain ⟨hP, hle⟩ := h value a ha
  exact ⟨hP, by omega⟩

/-- So was one that is there. -/
theorem Resaves.optional (h : Resaves decode encode P) {name : String} {o : Option α}
    (hread : members.optional name decode = some o) :
    ∀ a ∈ o, P a ∧ (encode a).depth ≤ Json.membersDepth members + 1 := by
  rw [optional_eq] at hread
  obtain ⟨found, hfound, hread⟩ := Option.bind_eq_some_iff.mp hread
  cases found with
  | none =>
      cases hread
      nofun
  | some value =>
      intro a ha
      have hdepth := depth_of_find hfound
      obtain ⟨hP, hle⟩ := h.nullable hread a ha
      exact ⟨hP, by omega⟩

end

/-! ### Nodes -/

section

variable {child : Json → Option Node}

/-- An entry is saved one level above its value. -/
theorem depth_encodeEntry_le {entry : Entry Node} {d : Nat}
    (h : ∀ v ∈ entry.value, v.encode.depth ≤ d) : (encodeEntry entry).depth ≤ d + 1 :=
  depth_record_le (by simpa [-Prod.forall] using h)

/-- An entry is saved as deep as it was read, whether from an object or from a list. -/
theorem Resaves.entry (h : Resaves child encode Finite) :
    Resaves (decodeEntry child) encodeEntry fun entry => ∀ v ∈ entry.value, v.Finite := by
  intro j entry hread
  have hvalue : ∀ v ∈ entry.value, v.Finite ∧ v.encode.depth ≤ j.depth := by
    match j, hread with
    | .object members, hread =>
        simp only [decodeEntry, Option.bind_eq_bind, Option.bind_eq_some_iff, Option.pure_def,
          Option.some.injEq] at hread
        obtain ⟨_, -, key, -, value, hvalue, rfl⟩ := hread
        exact h.optional hvalue
    | .array [key], hread =>
        obtain ⟨key, -, ⟨⟩⟩ := Option.bind_eq_some_iff.mp hread
        rintro v ⟨⟩
    | .array [first, second], hread =>
        rw [decodeEntry_pair] at hread
        obtain ⟨key, -, hread⟩ := Option.bind_eq_some_iff.mp hread
        obtain ⟨value, hvalue, ⟨⟩⟩ := Option.bind_eq_some_iff.mp hread
        intro v hv
        have hlt : second.depth < (Json.array [first, second]).depth :=
          Json.depth_lt_array (by simp)
        obtain ⟨hfinite, hdepth⟩ := h.nullable hvalue v hv
        exact ⟨hfinite, by omega⟩
    | .array (_ :: _ :: _ :: _), hread =>
        rw [decodeEntry_of_lt_length _ (by simp)] at hread
        cases hread
  exact ⟨fun v hv => (hvalue v hv).1, depth_encodeEntry_le fun v hv => (hvalue v hv).2⟩

/-- **A node is saved at most one level deeper than it was read**, if its parts are. -/
theorem Resaves.fields (h : Resaves child encode Finite) {members : Members} {span : Span}
    {kind : Kind} {node : Node} (hread : decodeFields child members span kind = some node) :
    node.Finite ∧ node.encode.depth ≤ Json.membersDepth members + 2 := by
  rw [finite_iff]
  cases kind <;> simp only [decodeFields, decodeEntry, Members.node, Members.nodes,
    Option.bind_eq_bind, Option.bind_eq_some_iff, Option.pure_def, Option.some.injEq] at hread
  case program =>
    obtain ⟨body, ⟨v, hv, hbody⟩, rfl⟩ := hread
    obtain ⟨hfinite, hdepth⟩ := h.list.required hv hbody
    rw [encode]
    exact ⟨⟨by simp, hfinite⟩, depth_encodeAs_le (by simpa using hdepth)⟩
  case declaration =>
    obtain ⟨_, -, constant, -, name, -, value, hvalue, rfl⟩ := hread
    have hvalue := h.optional hvalue
    rw [encode]
    refine ⟨⟨by simp, ?_⟩, depth_encodeAs_le ?_⟩
    · simpa [parts] using fun v hv => (hvalue v hv).1
    · simpa [-Prod.forall] using fun v hv => (hvalue v hv).2
  case function =>
    obtain ⟨ps, hps, parameters, hparameters, name, -, body, ⟨v, hv, hbody⟩, rfl⟩ := hread
    obtain ⟨-, hparameters⟩ := resaves_text.list.required hps hparameters
    obtain ⟨hfinite, hdepth⟩ := h.list.required hv hbody
    rw [encode]
    refine ⟨⟨by simp, hfinite⟩, depth_encodeAs_le ?_⟩
    simpa using ⟨hparameters, hdepth⟩
  case assignment =>
    obtain ⟨l, hl, left, hleft, right, ⟨r, hr, hright⟩, rfl⟩ := hread
    have hleft := h.required hl hleft
    have hright := h.required hr hright
    rw [encode]
    refine ⟨⟨by simp, ?_⟩, depth_encodeAs_le ?_⟩
    · simpa [parts] using ⟨hleft.1, hright.1⟩
    · simpa using ⟨hleft.2, hright.2⟩
  case binary | comparison =>
    obtain ⟨_, -, _, -, op, -, left, ⟨l, hl, hleft⟩, right, ⟨r, hr, hright⟩, rfl⟩ := hread
    have hleft := h.required hl hleft
    have hright := h.required hr hright
    rw [encode]
    refine ⟨⟨by simp, ?_⟩, depth_encodeAs_le ?_⟩
    · simpa [parts] using ⟨hleft.1, hright.1⟩
    · simpa using ⟨hleft.2, hright.2⟩
  case call =>
    obtain ⟨callee, ⟨c, hc, hcallee⟩, arguments, ⟨v, hv, harguments⟩, rfl⟩ := hread
    have hcallee := h.required hc hcallee
    have harguments := h.list.required hv harguments
    rw [encode]
    refine ⟨⟨by simp, ?_⟩, depth_encodeAs_le ?_⟩
    · simpa [parts] using ⟨hcallee.1, harguments.1⟩
    · simpa using ⟨hcallee.2, harguments.2⟩
  case member =>
    obtain ⟨subject, ⟨v, hv, hsubject⟩, key, -, rfl⟩ := hread
    have hsubject := h.required hv hsubject
    rw [encode]
    refine ⟨⟨by simp, ?_⟩, depth_encodeAs_le ?_⟩
    · simpa [parts] using hsubject.1
    · simpa using hsubject.2
  case conditional =>
    obtain ⟨alternative, halternative, condition, ⟨c, hc, hcondition⟩, consequent,
      ⟨t, ht, hconsequent⟩, rfl⟩ := hread
    have halternative := h.list.optional halternative
    have hcondition := h.required hc hcondition
    have hconsequent := h.list.required ht hconsequent
    rw [encode]
    refine ⟨⟨by simp, ?_⟩, depth_encodeAs_le ?_⟩
    · cases alternative with
      | none => simpa [parts] using ⟨hcondition.1, hconsequent.1⟩
      | some body =>
          have hbody := halternative body rfl
          simpa [parts, or_imp, forall_and] using ⟨hcondition.1, hconsequent.1, hbody.1⟩
    · have hbranch := fun body hbody => (halternative body hbody).2
      simpa [-Prod.forall] using ⟨hcondition.2, hconsequent.2, hbranch⟩
  case identifier | string =>
    obtain ⟨name, -, rfl⟩ := hread
    rw [encode]
    exact ⟨⟨by simp, by simp [parts]⟩, depth_encodeAs_le (by simp)⟩
  case number =>
    obtain ⟨v, hv, x, hx, rfl⟩ := hread
    have hx := resaves_float.required hv hx
    rw [encode]
    refine ⟨⟨?_, by simp [parts]⟩, depth_encodeAs_le ?_⟩
    · rintro _ _ ⟨⟩
      exact hx.1
    · simp
  case object =>
    obtain ⟨v, hv, entries, hentries, rfl⟩ := hread
    have hentries := h.entry.list.required hv hentries
    rw [encode]
    refine ⟨⟨by simp, ?_⟩, depth_encodeAs_le (by simpa using hentries.2)⟩
    exact List.forall_mem_filterMap.mpr hentries.1
  case property =>
    obtain ⟨_, ⟨_, -, key, -, value, hvalue, rfl⟩, rfl⟩ := hread
    have hvalue := h.optional hvalue
    rw [encode]
    refine ⟨⟨by simp, ?_⟩, depth_encodeAs_le ?_⟩
    · simpa [parts] using fun v hv => (hvalue v hv).1
    · simpa [-Prod.forall] using fun v hv => (hvalue v hv).2

end

/-- **Nodes are saved as they were read**, at most one level deeper, and with finite numbers only.
-/
theorem resaves_decode (d : Nat) : Resaves (decode d) encode Finite := by
  induction d with
  | zero =>
      intro j node hread
      cases hread
  | succ d ih =>
      intro j node hread
      cases j with
      | object members =>
          rw [decode, decodeMembers_eq] at hread
          obtain ⟨span, -, hread⟩ := Option.bind_eq_some_iff.mp hread
          obtain ⟨kind, -, hread⟩ := Option.bind_eq_some_iff.mp hread
          exact ih.fields hread
      | _ => cases hread

/-! ### Texts -/

/-- The text that is saved for the tree that a text loads as. -/
def resave? (s : String) : Option String := (ofText? s).map toText

/-- A text that loads is read within the limit on nesting. -/
theorem decode_of_ofText? {s : String} {j : Json} {node : Node} (hs : Json.read? s = some j)
    (h : ofText? s = some node) : decode maxDepth j = some node := by
  simp only [ofText?, hs, Option.bind_eq_bind, Option.bind_some, ofJson?] at h
  exact (Option.ite_none_right_eq_some.mp h).2

/-- **What loads can be saved and loaded again.**  If a text loads that nests at most 126 arrays and
objects, then the tree that it loads as has only finite numbers and is saved at most one level
deeper; so the saved text loads as the same tree, and saving it once more changes nothing. -/
theorem reload_of_depth_le (s : String) (j : Json) (node : Node) (hs : Json.read? s = some j)
    (hdepth : j.depth ≤ 126) (h : ofText? s = some node)
    (hread : ∀ x, node.HasNumber x → x.isFinite → ReadsBack x) :
    node.Finite ∧ node.encode.depth ≤ j.depth + 1 ∧ ofText? node.toText = some node ∧
    resave? s = some node.toText ∧ resave? node.toText = some node.toText := by
  obtain ⟨hfinite, hle⟩ := resaves_decode maxDepth j node (decode_of_ofText? hs h)
  have hlimit : node.encode.depth ≤ maxDepth := Nat.le_trans hle (Nat.succ_le_succ hdepth)
  have hagain : ofText? node.toText = some node :=
    (ofText?_toText hread node).mpr ⟨⟨hfinite, hlimit⟩, rfl⟩
  exact ⟨hfinite, hle, hagain, by rw [resave?, h, Option.map_some],
    by rw [resave?, hagain, Option.map_some]⟩

/-- Members of members of negative zero, with its exponent and without spans. -/
def spelledMembers : Nat → Json
  | 0 => .record [("value", .number ⟨true, 0, [], some 5⟩), ("kind", .text "NumericLiteral")]
  | k + 1 =>
    .record [("object", spelledMembers k), ("property", .text "p"), ("kind", .text "MemberExpr")]

/-- The tree that they spell. -/
def nestedMembers : Nat → Node
  | 0 => .number (-0.0) .dummy
  | k + 1 => .member (nestedMembers k) "p" .dummy

/-- A reader accepts what is spelled. -/
theorem legible_spelledMembers (k : Nat) : (spelledMembers k).Legible := by
  induction k with
  | zero =>
      have hzero : (Json.number ⟨true, 0, [], some 5⟩).Legible := .number ⟨nofun, by decide +kernel⟩
      simpa [spelledMembers] using hzero
  | succ k ih => simpa [spelledMembers] using ih

/-- Each member takes up one level of it. -/
theorem depth_spelledMembers (k : Nat) : (spelledMembers k).depth = k + 1 := by
  induction k with
  | zero => rfl
  | succ k ih => simp [spelledMembers, Json.record, Json.depth, Json.membersDepth, Json.text, ih]

/-- Saved, the tree nests one level deeper, for the spans that were left out. -/
theorem depth_nestedMembers (k : Nat) : (nestedMembers k).encode.depth = k + 2 := by
  induction k with
  | zero => decide +kernel
  | succ k ih =>
      simp [nestedMembers, encode, encodeAs, encodeSpan, Json.record, Json.text, Json.nat,
        Json.depth, Json.membersDepth, ih]

theorem hasNumber_nestedMembers {k : Nat} : ∀ x, (nestedMembers k).HasNumber x → x = -0.0 := by
  induction k with
  | zero => simp [nestedMembers, forall_hasNumber (.number _ _), parts]
  | succ k ih => simpa [nestedMembers, forall_hasNumber (.member _ _ _), parts] using ih

/-- What is spelled is read as the tree, unless it nests too deep. -/
theorem decode_spelledMembers {k d : Nat} (h : k < d) :
    decode d (spelledMembers k) = some (nestedMembers k) := by
  induction k generalizing d with
  | zero =>
      obtain ⟨d, rfl⟩ := Nat.exists_eq_succ_of_ne_zero (Nat.ne_zero_of_lt h)
      have hzero : Json.Number.toFloat? ⟨true, 0, [], some 5⟩ = some (-0.0) := by decide +kernel
      have hkind : decodeKind (.text "NumericLiteral") = some .number := decodeKind_text .number
      simp [spelledMembers, Json.record, decode, decodeMembers, Members.find, Members.required,
        hkind, decodeFields, decodeFloat, hzero, nestedMembers]
  | succ k ih =>
      obtain ⟨d, rfl⟩ := Nat.exists_eq_succ_of_ne_zero (Nat.ne_zero_of_lt h)
      have hkind : decodeKind (.text "MemberExpr") = some .member := decodeKind_text .member
      simp [spelledMembers, Json.record, decode, decodeMembers, Members.find, Members.required,
        Members.node, Members.text, hkind, decodeFields, ih (Nat.lt_of_succ_lt_succ h),
        nestedMembers]

theorem ofText?_spelledMembers {k : Nat} (h : k < maxDepth) :
    ofText? (spelledMembers k).render = some (nestedMembers k) := by
  have hlegible := legible_spelledMembers k
  have hlimits : withinLimits (spelledMembers k) := by
    rw [withinLimits_iff (by rw [depth_spelledMembers]; exact h)]
    have hsound : Sound (spelledMembers k) := hlegible.mono (fun _ hn => hn.2) fun _ hs => hs
    cases k <;> exact fun pair hpair _ => sound_object.mp hsound pair hpair
  simp [ofText?, hlegible.read?_render, ofJson?, hlimits, decode_spelledMembers h]

/-- The bound is exact: members of members that nest 126 objects load and load again, and one level
more still loads, but is saved as a text that does not. -/
theorem reload_of_depth_le_limit :
    (spelledMembers 125).depth = 126 ∧
    ofText? (spelledMembers 125).render = some (nestedMembers 125) ∧
    ofText? (nestedMembers 125).toText = some (nestedMembers 125) ∧
    (spelledMembers 126).depth = 127 ∧
    ofText? (spelledMembers 126).render = some (nestedMembers 126) ∧
    ofText? (nestedMembers 126).toText = none := by
  have hread : ∀ k x, (nestedMembers k).HasNumber x → x.isFinite → ReadsBack x := by
    intro k x hx _
    rw [hasNumber_nestedMembers x hx]
    exact readsBack_negativeZero
  have hload : ∀ k < maxDepth, ofText? (spelledMembers k).render = some (nestedMembers k) :=
    fun k => ofText?_spelledMembers
  have hagain := reload_of_depth_le _ _ _ (legible_spelledMembers 125).read?_render
    (depth_spelledMembers 125).le (hload 125 (by decide)) (hread 125)
  refine ⟨depth_spelledMembers 125, hload 125 (by decide), hagain.2.2.1, depth_spelledMembers 126,
    hload 126 (by decide), ?_⟩
  cases hm : ofText? (nestedMembers 126).toText with
  | none => rfl
  | some m =>
      have hlimit := ((ofText?_toText (hread 126) m).mp hm).1.2
      rw [depth_nestedMembers] at hlimit
      cases Nat.not_le_of_lt (by decide) hlimit

end Node

end TreeScript
