import TreeScript.Node.Decode
import TreeScript.Node.Encode
import TreeScript.Proofs.Legible
import TreeScript.Proofs.Parts

/-!
# Proofs — a saved tree loads back

The text that a tree is saved as loads as the tree, exactly when all its numbers are finite and the
text nests at most 127 arrays and objects; otherwise it does not load (`Node.text_roundTrip`).  This
rests on one thing about doubles, that the texts of the finite ones in the tree read back
(`Node.ReadsBack`): numbers are read with rounding errors of a few units in the last place, and so
some doubles do not.

The encoding of a tree is legible (`Node.encode_legible`), so its text reads back as the encoding.
The encoding of a node nests deeper than those of its parts (`Node.depth_encode_part`), so a node
loads from its members, once its parts load with one level less (`Node.loads_succ`).
-/

namespace TreeScript

namespace Node

/-! ### Numbers in a tree -/

/-- The number stands in the tree, also in the body of a function. -/
inductive HasNumber : Node → Float → Prop where
  | here (x : Float) (span : Span) : HasNumber (.number x span) x
  | inside {node part : Node} {x : Float} :
      part ∈ node.parts → HasNumber part x → HasNumber node x

/-- All numbers of the tree satisfy `P` if those of its parts do, and its own. -/
theorem forall_hasNumber (node : Node) {P : Float → Prop} :
    (∀ x, node.HasNumber x → P x) ↔ (∀ x span, node = .number x span → P x) ∧
      ∀ part ∈ node.parts, ∀ x, part.HasNumber x → P x := by
  constructor
  · intro h
    refine ⟨?_, fun part hpart x hx => h x (.inside hpart hx)⟩
    rintro x span rfl
    exact h x (.here x span)
  · rintro ⟨hown, hparts⟩ x hx
    cases hx with
    | here _ span => exact hown x span rfl
    | inside hpart hx => exact hparts _ hpart x hx

/-- All numbers of the tree are finite. -/
def Finite (node : Node) : Prop := ∀ x, node.HasNumber x → x.isFinite

/-- A tree is finite if all numbers in it are. -/
theorem finite_iff {node : Node} :
    node.Finite ↔ (∀ x span, node = .number x span → x.isFinite) ∧
      ∀ part ∈ node.parts, part.Finite :=
  forall_hasNumber node

/-- The text that is written for the double reads back. -/
def ReadsBack (x : Float) : Prop :=
  (Json.read? (Json.float x).render).bind decodeFloat = some x

/-! ### The encoding -/

@[simp] theorem encodeAll_eq_map (nodes : List Node) : encodeAll nodes = nodes.map encode := by
  induction nodes with
  | nil => rfl
  | cons node nodes ih => rw [encodeAll, ih, List.map_cons]

@[simp] theorem encode?_eq_map (value : Option Node) : encode? value = value.map encode := by
  cases value <;> rfl

@[simp] theorem encodeBranch?_eq_map (branch : Option (List Node)) :
    encodeBranch? branch = branch.map fun body => .array (body.map encode) := by
  cases branch with
  | none => rfl
  | some body => rw [encodeBranch?, encodeAll_eq_map, Option.map_some]

@[simp] theorem forall_mem_encodeOptional {P : String × Json → Prop} {name : String}
    {value : Option Json} :
    (∀ field ∈ encodeOptional name value, P field) ↔ ∀ j ∈ value, P (name, j) := by
  cases value <;> simp [encodeOptional]

/-- An entry of an object literal as an object. -/
def encodeEntry (entry : Entry Node) : Json :=
  .record ([("key", .text entry.key)] ++ encodeOptional "value" (entry.value.map encode))

@[simp] theorem encodeEntries_eq_map (entries : List (Entry Node)) :
    encodeEntries entries = entries.map encodeEntry := by
  induction entries with
  | nil => rfl
  | cons entry entries ih =>
      rw [encodeEntries, ih, encode?_eq_map, List.map_cons]
      rfl

/-- A tree is saved as its kind, its fields and its span, and no field is named like the others. -/
theorem encode_eq_encodeAs (node : Node) :
    ∃ fields, node.encode = encodeAs node.kind fields node.span ∧
      ∀ field ∈ fields, field.1 ≠ "kind" ∧ field.1 ≠ "span" := by
  cases node with
  | declaration constant name value span =>
      exact ⟨_, rfl, by cases value <;> simp [encodeOptional, encode?]⟩
  | conditional condition consequent alternative span =>
      exact ⟨_, rfl, by cases alternative <;> simp [encodeOptional, encodeBranch?]⟩
  | property entry span =>
      obtain ⟨key, value⟩ := entry
      exact ⟨_, rfl, by cases value <;> simp [encodeOptional, encode?]⟩
  | _ => exact ⟨_, rfl, by simp⟩

/-! ### The encoding is legible -/

/-- A reader accepts a saved node if it accepts its fields. -/
@[simp] theorem legible_encodeAs {kind : Kind} {fields : List (String × Json)} {span : Span} :
    (encodeAs kind fields span).Legible ↔ ∀ field ∈ fields, field.2.Legible := by
  have hspan : (encodeSpan span).Legible := by simp [encodeSpan]
  simp [encodeAs, hspan, or_imp, forall_and]

/-- A double that reads back is spelled by digits that denote it. -/
theorem ReadsBack.number {x : Float} (h : x.isFinite → ReadsBack x) :
    (x.isFinite = true ∧ ∃ n, Json.float x = .number n ∧ n.Spelled ∧ n.toFloat? = some x) ∨
      (x.isFinite = false ∧ Json.float x = .null) := by
  rcases Json.Number.ofFloat?_cases x with ⟨hfinite, n, hn, hspelled⟩ | ⟨hfinite, hn⟩
  · refine .inl ⟨hfinite, n, by simp [Json.float, hn], hspelled, ?_⟩
    have hread := h hfinite
    simpa [ReadsBack, Json.float, hn, Json.read?_render (.number hspelled), decodeFloat] using hread
  · exact .inr ⟨hfinite, by simp [Json.float, hn]⟩

/-- A reader accepts a saved double, if that reads back. -/
theorem legible_float {x : Float} (h : x.isFinite → ReadsBack x) : (Json.float x).Legible := by
  rcases ReadsBack.number h with ⟨-, n, hn, hspelled, hx⟩ | ⟨-, hn⟩
  · rw [hn]
    exact .number ⟨hspelled, by rw [hx]; rfl⟩
  · rw [hn]
    exact .null

/-- The encoding of a tree is legible, if its finite numbers read back. -/
theorem encode_legible (node : Node) :
    (∀ x, node.HasNumber x → x.isFinite → ReadsBack x) → node.encode.Legible := by
  induction node using induction_parts with
  | step node ih =>
    intro h
    obtain ⟨hown, hnumbers⟩ := (forall_hasNumber node).mp h
    have hparts : ∀ part ∈ node.parts, part.encode.Legible :=
      fun part hpart => ih part hpart (hnumbers part hpart)
    cases node with
    | number value span => simpa [encode] using legible_float (hown value span rfl)
    | conditional condition consequent alternative span =>
        obtain ⟨hcondition, hbranches⟩ := List.forall_mem_cons.mp hparts
        obtain ⟨hconsequent, halternative⟩ := List.forall_mem_append.mp hbranches
        have hbranch : ∀ body ∈ alternative, ∀ part ∈ body, part.encode.Legible := by
          rintro body rfl
          exact halternative
        simpa [encode, -Prod.forall, hcondition] using ⟨hconsequent, hbranch⟩
    | object entries span =>
        have hentries : ∀ entry ∈ entries, ∀ value ∈ entry.value, value.encode.Legible :=
          fun entry hentry value hvalue =>
            hparts value (List.mem_filterMap.mpr ⟨entry, hentry, hvalue⟩)
        simpa [encode, encodeEntry, -Prod.forall] using hentries
    | identifier | string => simp [encode]
    | _ => simpa [encode, parts, -Prod.forall] using hparts

/-! ### The encoding is deeper than its parts -/

section

variable {kind : Kind} {fields : List (String × Json)} {span : Span} {part : Node}

/-- A saved field nests less deep than the node. -/
theorem depth_lt_field (name : String) {value : Json} (h : (name, value) ∈ fields) :
    value.depth < (encodeAs kind fields span).depth :=
  Json.depth_lt_record name (List.mem_append_left _ (List.mem_append_right _ h))

/-- So does each node of a field that is a list of nodes. -/
theorem depth_lt_nodes (name : String) {nodes : List Node} (hpart : part ∈ nodes)
    (h : (name, .array (nodes.map encode)) ∈ fields) :
    part.encode.depth < (encodeAs kind fields span).depth :=
  Nat.lt_trans (Json.depth_lt_array (List.mem_map_of_mem hpart)) (depth_lt_field name h)

end

/-- **The encoding of a node nests deeper than that of each part.** -/
theorem depth_encode_part {node part : Node} (h : part ∈ node.parts) :
    part.encode.depth < node.encode.depth := by
  cases node with
  | program body span => exact depth_lt_nodes "body" h (by simp [parts])
  | declaration constant name value span =>
      obtain rfl := Option.mem_toList.mp h
      exact depth_lt_field "value" (by simp [encodeOptional])
  | function name parameters body span => exact depth_lt_nodes "body" h (by simp [parts])
  | assignment target value span =>
      rcases List.mem_pair.mp h with rfl | rfl
      · exact depth_lt_field "assignee" (by simp)
      · exact depth_lt_field "value" (by simp)
  | binary left right op span =>
      rcases List.mem_pair.mp h with rfl | rfl
      · exact depth_lt_field "left" (by simp)
      · exact depth_lt_field "right" (by simp)
  | comparison left right op span =>
      rcases List.mem_pair.mp h with rfl | rfl
      · exact depth_lt_field "left" (by simp)
      · exact depth_lt_field "right" (by simp)
  | call callee arguments span =>
      rcases List.mem_cons.mp h with rfl | h
      · exact depth_lt_field "caller" (by simp)
      · exact depth_lt_nodes "args" h (by simp)
  | member subject key span =>
      obtain rfl := List.mem_singleton.mp h
      exact depth_lt_field "object" (by simp)
  | conditional condition consequent alternative span =>
      rcases List.mem_cons.mp h with rfl | h
      · exact depth_lt_field "condition" (by simp)
      rcases List.mem_append.mp h with h | h
      · exact depth_lt_nodes "then" h (by simp)
      · cases alternative with
        | none => cases h
        | some body => exact depth_lt_nodes "otherwise" h (by simp [encodeOptional])
  | identifier name span => cases h
  | number value span => cases h
  | string value span => cases h
  | object entries span =>
      obtain ⟨entry, hentry, hvalue⟩ := List.mem_filterMap.mp h
      have hinner : part.encode.depth < (encodeEntry entry).depth :=
        Json.depth_lt_record "value" (by simp [hvalue, encodeOptional])
      have houter : (encodeEntry entry).depth < (Json.array (entries.map encodeEntry)).depth :=
        Json.depth_lt_array (List.mem_map_of_mem hentry)
      exact Nat.lt_trans (Nat.lt_trans hinner houter) (depth_lt_field "properties" (by simp))
  | property entry span =>
      obtain ⟨key, value⟩ := entry
      obtain rfl := Option.mem_toList.mp h
      exact depth_lt_field "value" (by simp [encodeOptional])

/-! ### Loading what was saved -/

@[simp] theorem decodeText_text (s : String) : decodeText (.text s) = some s := rfl

@[simp] theorem decodeBool_bool (b : Bool) : decodeBool (.bool b) = some b := rfl

@[simp] theorem decodeSymbol_text (s : String) : decodeSymbol (.text s) = some s := rfl

@[simp] theorem decodeKind_text (kind : Kind) : decodeKind (.text kind.name) = some kind :=
  Kind.ofName?_name kind

@[simp] theorem decodeSpan_encodeSpan (span : Span) : decodeSpan (encodeSpan span) = some span := by
  have hoffset : ∀ n : UInt32, decodeOffset (.nat n.toNat) = some n := fun n => by
    simp [decodeOffset, Json.nat, Json.Number.toNat?, Json.Number.ofNat, n.toNat_lt]
  simp [decodeSpan, encodeSpan, Json.record, Members.required, Members.find, hoffset]

/-- A double loads as itself if it is finite, and does not load otherwise. -/
theorem decodeFloat_float {x : Float} (h : x.isFinite → ReadsBack x) (y : Float) :
    decodeFloat (.float x) = some y ↔ x.isFinite ∧ x = y := by
  rcases ReadsBack.number h with ⟨hfinite, n, hn, -, hx⟩ | ⟨hfinite, hn⟩
  · simp [hn, decodeFloat, hx, hfinite]
  · simp [hn, decodeFloat, hfinite]

/-- `child` loads what was saved for the node as the node, if its numbers are finite, and not
otherwise. -/
def Loads (child : Json → Option Node) (node : Node) : Prop :=
  ∀ m, child node.encode = some m ↔ node.Finite ∧ node = m

/-- A list loads as itself, if its items do. -/
theorem decodeList_map {α : Type} {decode : Json → Option α} {encode : α → Json} {P : α → Prop}
    {values : List α} (h : ∀ v ∈ values, ∀ m, decode (encode v) = some m ↔ P v ∧ v = m) :
    ∀ ms, decodeList decode (.array (values.map encode)) = some ms ↔
      (∀ v ∈ values, P v) ∧ values = ms := by
  show ∀ ms, (values.map encode).mapM decode = some ms ↔ _
  induction values with
  | nil => simp [List.mapM_nil]
  | cons v values ih =>
      intro ms
      have hv := h v List.mem_cons_self
      have hvalues := ih fun n hn => h n (List.mem_cons_of_mem _ hn)
      simp only [List.map_cons, List.mapM_cons, Option.bind_eq_bind, Option.bind_eq_some_iff,
        hv, hvalues, Option.pure_def, Option.some.injEq, List.forall_mem_cons]
      constructor
      · rintro ⟨_, ⟨hx, rfl⟩, _, ⟨hxs, rfl⟩, rfl⟩
        exact ⟨⟨hx, hxs⟩, rfl⟩
      · rintro ⟨⟨hx, hxs⟩, rfl⟩
        exact ⟨_, ⟨hx, rfl⟩, _, ⟨hxs, rfl⟩, rfl⟩

/-- Reads a value that may be null. -/
def nullable {α : Type} (decode : Json → Option α) : Json → Option (Option α)
  | .null => some none
  | value => (decode value).map some

/-- A field may be left out, or be null. -/
theorem optional_eq {α : Type} (members : Members) (name : String) (decode : Json → Option α) :
    members.optional name decode =
      (members.find [name]).bind fun value => value.elim (some none) (nullable decode) := by
  rcases hfind : members.find [name] with _ | _ | _ | _ | _ | _ | _ | _ <;>
    simp [Members.optional, hfind, nullable, Option.map_eq_bind]

/-- No node is saved as null. -/
@[simp] theorem nullable_encode {α : Type} (decode : Json → Option α) (node : Node) :
    nullable decode node.encode = (decode node.encode).map some := by
  obtain ⟨fields, hfields, -⟩ := node.encode_eq_encodeAs
  rw [hfields]
  rfl

@[simp] theorem nullable_array {α : Type} (decode : Json → Option α) (items : List Json) :
    nullable decode (.array items) = (decode (.array items)).map some := rfl

/-- The members that `encodeAs` writes. -/
def savedMembers (kind : Kind) (fields : List (String × Json)) (span : Span) : Members :=
  (some "kind", .text kind.name) :: (fields.map fun (name, value) => (some name, value)) ++
    [(some "span", encodeSpan span)]

theorem encodeAs_eq_object (kind : Kind) (fields : List (String × Json)) (span : Span) :
    encodeAs kind fields span = .object (savedMembers kind fields span) := by
  simp [encodeAs, Json.record, savedMembers]

/-- What was saved as a node of a kind is loaded as one, field by field. -/
theorem decode_encodeAs {d : Nat} {kind : Kind} {fields : List (String × Json)} {span : Span}
    (h : ∀ field ∈ fields, field.1 ≠ "kind" ∧ field.1 ≠ "span") :
    decode (d + 1) (encodeAs kind fields span) =
      decodeFields (decode d) (savedMembers kind fields span) span kind := by
  have hfilter : ∀ name, (∀ field ∈ fields, field.1 ≠ name) →
      (fields.map fun field => (some field.1, field.2)).filter
        (fun member => member.1.any [name].contains) = ([] : Members) := by
    intro name hname
    rw [List.filter_eq_nil_iff]
    intro member hmember
    obtain ⟨field, hfield, rfl⟩ := List.mem_map.mp hmember
    simpa using hname field hfield
  have hspan : (savedMembers kind fields span).find ["span"] = some (some (encodeSpan span)) := by
    simp [savedMembers, Members.find, hfilter "span" fun field hfield => (h field hfield).2]
  have hkind : (savedMembers kind fields span).find ["kind"] = some (some (.text kind.name)) := by
    simp [savedMembers, Members.find, hfilter "kind" fun field hfield => (h field hfield).1]
  simp [encodeAs_eq_object, decode, decodeMembers, Members.required, hspan, hkind]

section

-- what looks a field up among the members that were saved
attribute [local simp] savedMembers decodeFields encodeOptional optional_eq Members.find
  Members.required Members.text Members.node Members.nodes Option.bind_eq_some_iff and_assoc

/-- An entry loads as itself. -/
theorem decodeEntry_encodeEntry {child : Json → Option Node} {entry : Entry Node}
    (h : ∀ v ∈ entry.value, Loads child v) :
    ∀ e, decodeEntry child (encodeEntry entry) = some e ↔
      (∀ v ∈ entry.value, v.Finite) ∧ entry = e := by
  intro e
  obtain ⟨key, value⟩ := entry
  cases value with
  | none => simp [decodeEntry, encodeEntry, Json.record]
  | some v => simp [decodeEntry, encodeEntry, Json.record, h v rfl _]

/-- **One level of nodes loads as it was saved**, if the level below it does. -/
theorem loads_succ {node : Node} {d : Nat}
    (hown : ∀ x span, node = .number x span → x.isFinite → ReadsBack x)
    (hparts : ∀ part ∈ node.parts, Loads (decode d) part) : Loads (decode (d + 1)) node := by
  intro m
  rw [finite_iff]
  cases node with
  | program body span =>
      have hbody : ∀ ms, decodeList (decode d) (.array (body.map encode)) = some ms ↔ _ :=
        decodeList_map hparts
      rw [encode, decode_encodeAs (by simp)]
      simp [parts, hbody]
  | declaration constant name value span =>
      have hvalue : ∀ v ∈ value, Loads (decode d) v := by simpa [parts] using hparts
      rw [encode, decode_encodeAs (by cases value <;> simp)]
      cases value with
      | none => simp [parts]
      | some v => simp [parts, hvalue v rfl _]
  | function name parameters body span =>
      have hbody : ∀ ms, decodeList (decode d) (.array (body.map encode)) = some ms ↔ _ :=
        decodeList_map hparts
      have hparameters :
          ∀ ms, decodeList decodeText (.array (parameters.map .text)) = some ms ↔ _ :=
        decodeList_map (P := fun _ => True) fun v _ => by simp
      rw [encode, decode_encodeAs (by simp)]
      simp [parts, hparameters, hbody]
  | assignment left right span | binary left right op span | comparison left right op span =>
      obtain ⟨hl, hr⟩ : Loads (decode d) left ∧ Loads (decode d) right := by
        simpa [parts] using hparts
      rw [encode, decode_encodeAs (by simp)]
      simp [parts, hl _, hr _]
  | call callee arguments span =>
      obtain ⟨hcallee, harguments⟩ := List.forall_mem_cons.mp hparts
      rw [encode, decode_encodeAs (by simp)]
      simp [parts, hcallee _, decodeList_map harguments]
  | member subject key span =>
      have hsubject : Loads (decode d) subject := by simpa [parts] using hparts
      rw [encode, decode_encodeAs (by simp)]
      simp [parts, hsubject _]
  | conditional condition consequent alternative span =>
      obtain ⟨hcondition, hbranches⟩ := List.forall_mem_cons.mp hparts
      obtain ⟨hconsequent, halternative⟩ := List.forall_mem_append.mp hbranches
      rw [encode, decode_encodeAs (by cases alternative <;> simp)]
      cases alternative with
      | none => simp [parts, hcondition _, decodeList_map hconsequent]
      | some body =>
          have hbody : ∀ part ∈ body, Loads (decode d) part := halternative
          simp [parts, hcondition _, decodeList_map hconsequent, decodeList_map hbody, or_imp,
            forall_and, and_left_comm]
  | identifier name span | string name span =>
      rw [encode, decode_encodeAs (by simp)]
      simp [parts]
  | number value span =>
      rw [encode, decode_encodeAs (by simp)]
      simp [parts, decodeFloat_float (hown value span rfl)]
  | object entries span =>
      have hentry : ∀ entry ∈ entries, ∀ v ∈ entry.value, Loads (decode d) v :=
        fun entry hentry v hv => hparts v (List.mem_filterMap.mpr ⟨entry, hentry, hv⟩)
      have hentries := decodeList_map fun entry h => decodeEntry_encodeEntry (hentry entry h)
      have hfinite : (∀ part ∈ (object entries span).parts, part.Finite) ↔
          ∀ entry ∈ entries, ∀ v ∈ entry.value, v.Finite := List.forall_mem_filterMap
      rw [encode, decode_encodeAs (by simp), hfinite]
      simp [hentries]
  | property entry span =>
      obtain ⟨key, value⟩ := entry
      have hvalue : ∀ v ∈ value, Loads (decode d) v := by simpa [parts] using hparts
      rw [encode, decode_encodeAs (by cases value <;> simp)]
      cases value with
      | none => simp [decodeEntry, parts]
      | some v => simp [decodeEntry, parts, hvalue v rfl _]

end

theorem loads_decode (node : Node) : ∀ d, node.encode.depth ≤ d →
    (∀ x, node.HasNumber x → x.isFinite → ReadsBack x) → Loads (decode d) node := by
  induction node using induction_parts with
  | step node ih =>
      intro d hdepth h
      obtain ⟨hown, hnumbers⟩ := (forall_hasNumber node).mp h
      cases d with
      | zero =>
          obtain ⟨fields, hfields, -⟩ := node.encode_eq_encodeAs
          rw [hfields] at hdepth
          cases hdepth
      | succ d =>
          refine loads_succ hown fun part hpart => ih part hpart d ?_ (hnumbers part hpart)
          have := depth_encode_part hpart
          omega

/-- What was saved stays within the limits if it does not nest too deep. -/
theorem withinLimits_encode {node : Node} (h : node.encode.Legible) :
    withinLimits node.encode ↔ node.encode.depth ≤ maxDepth := by
  obtain ⟨fields, hfields, hnames⟩ := node.encode_eq_encodeAs
  rw [hfields, encodeAs_eq_object] at h ⊢
  obtain ⟨hsome, hlegible⟩ := Json.legible_object.mp h
  have hdepth : (Json.object (savedMembers node.kind fields node.span)).depth ≤ maxDepth ↔
      ∀ member ∈ savedMembers node.kind fields node.span, member.2.depth ≤ maxDepth - 1 := by
    rw [← Json.membersDepth_le, Json.depth]
    simp only [maxDepth]
    omega
  rw [withinLimits, Json.membersFit_iff, hdepth]
  constructor
  · intro hfits member hmember
    by_cases hspan : member.1 = some "span"
    · -- the span is not looked at, and nests no deeper than a span does
      have heq : member = (some "span", encodeSpan node.span) := by
        simp only [savedMembers, List.mem_append, List.mem_cons, List.mem_map, List.not_mem_nil,
          or_false] at hmember
        rcases hmember with (rfl | ⟨field, hfield, rfl⟩) | rfl
        · simp at hspan
        · exact absurd (Option.some.inj hspan) (hnames field hfield).2
        · rfl
      rw [heq]
      show 1 ≤ 126
      decide
    · have hin := hfits member (List.mem_filter.mpr ⟨hmember, by simpa using hspan⟩)
      exact ((hlegible member hmember).fits_iff _).mp hin.2
  · intro hdepth member hin
    have hmember := (List.mem_filter.mp hin).1
    exact ⟨hsome member hmember,
      ((hlegible member hmember).fits_iff _).mpr (hdepth member hmember)⟩

/-- What a saved tree loads as. -/
theorem ofText?_toText {node : Node} (hread : ∀ x, node.HasNumber x → x.isFinite → ReadsBack x)
    (m : Node) :
    ofText? node.toText = some m ↔ (node.Finite ∧ node.encode.depth ≤ maxDepth) ∧ node = m := by
  have hlegible : node.encode.Legible := encode_legible node hread
  simp only [ofText?, toText, hlegible.read?_render, Option.bind_eq_bind, Option.bind_some, ofJson?,
    withinLimits_encode hlegible]
  by_cases hdepth : node.encode.depth ≤ maxDepth
  · rw [if_pos hdepth, loads_decode node _ hdepth hread m]
    exact and_congr_left' (and_iff_left hdepth).symm
  · rw [if_neg hdepth]
    exact iff_of_false nofun fun h => hdepth h.1.2

/-- **A saved tree loads back**, if the texts of its finite doubles read back.  It loads as itself,
to the bits of its numbers, exactly when all its numbers are finite and its text nests at most 127
arrays and objects; and otherwise it does not load at all. -/
theorem text_roundTrip (node : Node) (hread : ∀ x, node.HasNumber x → x.isFinite → ReadsBack x) :
    (ofText? node.toText = some node ↔ node.Finite ∧ node.encode.depth ≤ 127) ∧
    (¬ (node.Finite ∧ node.encode.depth ≤ 127) → ofText? node.toText = none) := by
  refine ⟨(ofText?_toText hread node).trans (and_iff_left rfl), fun h => ?_⟩
  cases hm : ofText? node.toText with
  | none => rfl
  | some m => exact absurd ((ofText?_toText hread m).mp hm).1 h

/-- A constant whose name needs escapes, bound to negative zero, and an entry on its own. -/
def mixedTree : Node :=
  .program
    [.declaration true "\"ü\"\n" (some (.number (-0.0) ⟨1, 2⟩)) .dummy,
      .property ⟨"k", none⟩ .dummy] ⟨0, 4294967295⟩

/-- The only number in it is negative zero. -/
theorem hasNumber_mixedTree : ∀ x, mixedTree.HasNumber x → x = -0.0 := by
  simp [mixedTree, forall_hasNumber (.program _ _), forall_hasNumber (.declaration _ _ _ _),
    forall_hasNumber (.property _ _), forall_hasNumber (.number _ _), parts]

/-- Negative zero reads back. -/
theorem readsBack_negativeZero : ReadsBack (-0.0) := by
  have hfloat : Json.float (-0.0) = .number ⟨true, 0, ['0'], none⟩ := rfl
  have hspelled : (⟨true, 0, ['0'], none⟩ : Json.Number).Spelled := by simp [Json.Number.Spelled]
  rw [ReadsBack, hfloat, Json.read?_render (.number hspelled)]
  show Json.Number.toFloat? ⟨true, 0, ['0'], none⟩ = some (-0.0)
  decide +kernel

/-- Programs inside programs. -/
def nestedPrograms : Nat → Node
  | 0 => .program [] .dummy
  | k + 1 => .program [nestedPrograms k] .dummy

theorem not_hasNumber_nestedPrograms {k : Nat} {x : Float} : ¬ (nestedPrograms k).HasNumber x := by
  induction k with
  | zero =>
      intro h
      cases h with
      | inside hpart => cases hpart
  | succ k ih =>
      intro h
      cases h with
      | inside hpart hx =>
          cases List.mem_singleton.mp hpart
          exact ih hx

/-- Each program takes up two levels: one for itself and one for its body. -/
theorem depth_nestedPrograms (k : Nat) : (nestedPrograms k).encode.depth = 2 * k + 2 := by
  induction k with
  | zero => decide
  | succ k ih =>
      simp only [nestedPrograms, encode, encodeAll, encodeAs, encodeSpan, Json.record, Json.text,
        Json.nat, Json.depth, Json.membersDepth, Json.itemsDepth, List.cons_append, List.nil_append,
        List.map_cons, List.map_nil, ih]
      omega

/-- Negative zero and escaped characters load back, a number that is not one does not load, and
sixty-three programs inside each other do, but not sixty-four. -/
theorem text_roundTrip_limits :
    ReadsBack (-0.0) ∧ ofText? mixedTree.toText = some mixedTree ∧
    ofText? (number Double.nan .dummy).toText = none ∧
    ofText? (nestedPrograms 62).toText = some (nestedPrograms 62) ∧
    ofText? (nestedPrograms 63).toText = none := by
  have hzero := readsBack_negativeZero
  have hnan : Double.nan.isFinite = false := by decide
  refine ⟨hzero, ?_, ?_, ?_, ?_⟩
  · refine (text_roundTrip mixedTree fun x hx _ => ?_).1.mpr ⟨fun x hx => ?_, by decide +kernel⟩
    · rw [hasNumber_mixedTree x hx]
      exact hzero
    · rw [hasNumber_mixedTree x hx]
      decide
  · refine (text_roundTrip (number Double.nan .dummy) fun x hx hfinite => ?_).2 fun h => ?_
    · cases hx with
      | here => simp [hnan] at hfinite
      | inside hpart => cases hpart
    · have hfinite := h.1 _ (.here Double.nan .dummy)
      simp [hnan] at hfinite
  · refine (text_roundTrip (nestedPrograms 62) fun x hx => ?_).1.mpr ⟨fun x hx => ?_, ?_⟩
    · exact absurd hx not_hasNumber_nestedPrograms
    · exact absurd hx not_hasNumber_nestedPrograms
    · rw [depth_nestedPrograms]
      decide
  · refine (text_roundTrip (nestedPrograms 63) fun x hx => ?_).2 fun h => ?_
    · exact absurd hx not_hasNumber_nestedPrograms
    · have hdepth := h.2
      rw [depth_nestedPrograms] at hdepth
      omega

end Node

end TreeScript
