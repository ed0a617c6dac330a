import TreeScript.Proofs.Respelling

/-!
# Proofs — what an object is read for

Everything that is read of an object is read through `Members.find`, which does not depend on the
order of the members.  If what is found of each field reads the same in two objects (`Field.Alike`),
then whatever is made of the fields is the same (`Role.Same.of_fields`).
-/

namespace TreeScript.Node

/-! ### Finding members -/

namespace Members

/-- The members of the given names. -/
def named (members : Members) (names : List String) : Members :=
  members.filter fun (name, _) => name.any names.contains

/-- The value of the only member, if there is one. -/
def only : Members → Option (Option Json)
  | [] => some none
  | [(_, value)] => some (some value)
  | _ => none

/-- What is found under some names is the only member of one of them. -/
theorem find_eq_only (members : Members) (names : List String) :
    members.find names = only (members.named names) := rfl

theorem named_cons_of_mem {name : String} {names : List String} (h : name ∈ names) (value : Json)
    (members : Members) :
    named ((some name, value) :: members) names = (some name, value) :: members.named names := by
  simp [named, h]

theorem named_cons_of_ne {name : Json.Literal} {names : List String}
    (h : ∀ known ∈ names, name ≠ some known) (value : Json) (members : Members) :
    named ((name, value) :: members) names = members.named names := by
  cases name with
  | none => simp [named]
  | some name =>
      have hnot : name ∉ names := fun hmem => h name hmem rfl
      simp [named, hnot]

/-- The only one of a list does not depend on the order. -/
theorem only_perm {members members' : Members} (h : members.Perm members') :
    only members = only members' := by
  match members, members', h with
  | [], members', h => rw [List.nil_perm.mp h]
  | [_], members', h => rw [List.singleton_perm.mp h]
  | _ :: _ :: _, [], h => cases List.perm_nil.mp h
  | _ :: _ :: _, [_], h => cases List.perm_singleton.mp h
  | _ :: _ :: _, _ :: _ :: _, _ => rfl

/-- Members are found in whatever order they come. -/
theorem find_perm {members members' : Members} (h : members.Perm members') (names : List String) :
    members.find names = members'.find names :=
  only_perm (h.filter _)

/-- A member of another name is not found. -/
theorem find_cons_of_ne {name : Json.Literal} {names : List String}
    (h : ∀ known ∈ names, name ≠ some known) (value : Json) (members : Members) :
    find ((name, value) :: members) names = members.find names := by
  rw [find_eq_only, named_cons_of_ne h, find_eq_only]

/-- A member of another name is not in the way. -/
theorem find_cons_of_not_mem {name : String} {names : List String} (h : name ∉ names)
    (value : Json) (members : Members) :
    find ((some name, value) :: members) names = members.find names := by
  refine find_cons_of_ne ?_ value members
  rintro known hknown ⟨⟩
  exact h hknown

/-- A member of one of the names is found, unless there are more. -/
theorem find_cons_of_mem {name : String} {names : List String} (h : name ∈ names) (value : Json)
    (members : Members) :
    find ((some name, value) :: members) names =
      if (members.named names).isEmpty then some (some value) else none := by
  rw [find_eq_only, named_cons_of_mem h]
  cases members.named names <;> rfl

end Members

/-! ### What reads the same -/

/-- Whether a value holds nothing. -/
def isUnit : Json → Bool
  | .null | .object [] => true
  | _ => false

/-- The two values read the same at a place of the role. -/
def Role.Same : Role → Json → Json → Prop
  | .node, a, b => ∀ d, decode d a = decode d b
  | .nodes, a, b => ∀ d, decodeList (decode d) a = decodeList (decode d) b
  | .entry, a, b => ∀ d, decodeEntry (decode d) a = decodeEntry (decode d) b
  | .entries, a, b =>
    ∀ d, decodeList (decodeEntry (decode d)) a = decodeList (decodeEntry (decode d)) b
  | .span, a, b => decodeSpan a = decodeSpan b
  | .offset, a, b => decodeOffset a = decodeOffset b
  | .kind, a, b => decodeKind a = decodeKind b
  | .operator, a, b => decodeSymbol a = decodeSymbol b
  | .text, a, b => decodeText a = decodeText b
  | .texts, a, b => decodeList decodeText a = decodeList decodeText b
  | .bool, a, b => decodeBool a = decodeBool b
  | .float, a, b => decodeFloat a = decodeFloat b
  | .other, a, b => isUnit a = isUnit b

/-- The two values read the same, keep the same limits, nesting apart, and both are null or
neither. -/
structure Role.Agrees (role : Role) (a b : Json) : Prop where
  same : role.Same a b
  sound : Sound a ↔ Sound b
  null : a = .null ↔ b = .null

theorem Role.Same.refl (role : Role) (a : Json) : role.Same a a := by
  cases role <;> simp [Role.Same]

theorem Role.Agrees.refl (role : Role) (a : Json) : role.Agrees a a := ⟨.refl role a, .rfl, .rfl⟩

/-- What is found of a field twice: nothing, values that agree, or first nothing and then the
default. -/
inductive Field.Alike (field : Field) : Option Json → Option Json → Prop where
  | absent : Alike field none none
  | present {a b : Json} : field.role.Agrees a b → Alike field (some a) (some b)
  | default {value : Json} : field.default = some value → Alike field none (some value)

/-- Members in which a field is found alike. -/
def Field.AlikeIn (field : Field) (members members' : Members) : Prop :=
  Option.Rel field.Alike (members.find field.names) (members'.find field.names)

/-- What is found alike is alike. -/
theorem Field.AlikeIn.of_find_eq {field : Field} {members members' : Members}
    (h : members.find field.names = members'.find field.names) :
    field.AlikeIn members members' := by
  rw [Field.AlikeIn, h]
  cases members'.find field.names with
  | none => exact .none
  | some value =>
      cases value with
      | none => exact .some .absent
      | some value => exact .some (.present (.refl _ value))

/-! ### Reading fields -/

section

variable {members members' : Members}

/-- A field that has to be there reads the same. -/
theorem required_congr {names : List String} {role : Role} {α : Type} {decode : Json → Option α}
    (h : Field.AlikeIn ⟨names, role, none⟩ members members')
    (hdecode : ∀ a b, role.Same a b → decode a = decode b) :
    (members.required names).bind decode = (members'.required names).bind decode := by
  simp only [Field.AlikeIn] at h
  simp only [Members.required]
  generalize members.find names = x at h ⊢
  generalize members'.find names = y at h ⊢
  match x, y, h with
  | none, none, .none => rfl
  | some none, some none, .some .absent => rfl
  | some (some a), some (some b), .some (.present hab) => exact hdecode a b hab.same

/-- What may be null reads the same if it is null alike, and reads the same otherwise. -/
theorem nullable_congr {α : Type} {decode : Json → Option α} {a b : Json}
    (hnull : a = .null ↔ b = .null) (h : decode a = decode b) :
    nullable decode a = nullable decode b := by
  have present : ∀ c : Json, c ≠ .null → nullable decode c = (decode c).map some := by
    intro c hc
    cases c with
    | null => exact absurd rfl hc
    | _ => rfl
  by_cases ha : a = .null
  · rw [ha, hnull.mp ha]
  · rw [present a ha, present b (ha ∘ hnull.mpr), h]

/-- A field that may be left out or be null reads the same. -/
theorem optional_congr {name : String} {role : Role} {α : Type} {decode : Json → Option α}
    (h : Field.AlikeIn ⟨[name], role, some .null⟩ members members')
    (hdecode : ∀ a b, role.Same a b → decode a = decode b) :
    members.optional name decode = members'.optional name decode := by
  simp only [Field.AlikeIn] at h
  simp only [optional_eq]
  generalize members.find [name] = x at h ⊢
  generalize members'.find [name] = y at h ⊢
  match x, y, h with
  | none, none, .none => rfl
  | some none, some none, .some .absent => rfl
  | some none, some (some _), .some (.default rfl) => rfl
  | some (some a), some (some b), .some (.present hab) =>
      exact nullable_congr hab.null (hdecode a b hab.same)

variable {d : Nat}

theorem text_congr {name : String} (h : Field.AlikeIn ⟨[name], .text, none⟩ members members') :
    members.text name = members'.text name :=
  required_congr h fun _ _ hab => hab

theorem node_congr {name : String} (h : Field.AlikeIn ⟨[name], .node, none⟩ members members') :
    members.node (decode d) name = members'.node (decode d) name :=
  required_congr h fun _ _ hab => hab d

theorem nodes_congr {name : String} (h : Field.AlikeIn ⟨[name], .nodes, none⟩ members members') :
    members.nodes (decode d) name = members'.nodes (decode d) name :=
  required_congr h fun _ _ hab => hab d

/-- The fields of an entry are all that is read for it. -/
theorem decodeEntry_congr
    (hkey : Field.AlikeIn ⟨["key"], .text, none⟩ members members')
    (hvalue : Field.AlikeIn ⟨["value"], .node, some .null⟩ members members') :
    decodeEntry (decode d) (.object members) = decodeEntry (decode d) (.object members') := by
  have hkey := required_congr hkey fun _ _ hab => hab
  have hvalue := optional_congr hvalue fun _ _ hab => hab d
  simp only [decodeEntry, Option.bind_eq_bind, ← Option.bind_assoc, hkey, hvalue]

/-- The fields of a kind are all that is read for it. -/
theorem decodeFields_congr {kind : Kind} {span : Span}
    (h : ∀ field ∈ kind.fields, field.AlikeIn members members') :
    decodeFields (decode d) members span kind = decodeFields (decode d) members' span kind := by
  cases kind with
  | program =>
      simp only [Kind.fields, List.forall_mem_singleton] at h
      simp only [decodeFields, nodes_congr h]
  | declaration =>
      simp only [Kind.fields, List.forall_mem_cons] at h
      obtain ⟨hconstant, hname, hvalue, -⟩ := h
      have hconstant := required_congr hconstant fun _ _ hab => hab
      have hvalue := optional_congr hvalue fun _ _ hab => hab d
      simp only [decodeFields, Option.bind_eq_bind, ← Option.bind_assoc, hconstant,
        text_congr hname, hvalue]
  | function =>
      simp only [Kind.fields, List.forall_mem_cons] at h
      obtain ⟨hname, hparameters, hbody, -⟩ := h
      have hparameters := required_congr hparameters fun _ _ hab => hab
      simp only [decodeFields, Option.bind_eq_bind, ← Option.bind_assoc, hparameters,
        text_congr hname, nodes_congr hbody]
  | assignment =>
      simp only [Kind.fields, List.forall_mem_cons] at h
      obtain ⟨htarget, hvalue, -⟩ := h
      have htarget := required_congr htarget fun _ _ hab => hab d
      simp only [decodeFields, Option.bind_eq_bind, ← Option.bind_assoc, htarget, node_congr hvalue]
  | binary | comparison =>
      simp only [Kind.fields, List.forall_mem_cons] at h
      obtain ⟨hleft, hright, hop, -⟩ := h
      have hop := required_congr hop fun _ _ hab => hab
      simp only [decodeFields, Option.bind_eq_bind, ← Option.bind_assoc, hop, node_congr hleft,
        node_congr hright]
  | call =>
      simp only [Kind.fields, List.forall_mem_cons] at h
      obtain ⟨hcallee, harguments, -⟩ := h
      simp only [decodeFields, node_congr hcallee, nodes_congr harguments]
  | member =>
      simp only [Kind.fields, List.forall_mem_cons] at h
      obtain ⟨hsubject, hkey, -⟩ := h
      simp only [decodeFields, node_congr hsubject, text_congr hkey]
  | conditional =>
      simp only [Kind.fields, List.forall_mem_cons] at h
      obtain ⟨hcondition, hconsequent, halternative, -⟩ := h
      have halternative := optional_congr halternative fun _ _ hab => hab d
      simp only [decodeFields, halternative, node_congr hcondition, nodes_congr hconsequent]
  | identifier | string =>
      simp only [Kind.fields, List.forall_mem_singleton] at h
      simp only [decodeFields, text_congr h]
  | number =>
      simp only [Kind.fields, List.forall_mem_singleton] at h
      have hvalue := required_congr h fun _ _ hab => hab
      simp only [decodeFields, Option.bind_eq_bind, ← Option.bind_assoc, hvalue]
  | object =>
      simp only [Kind.fields, List.forall_mem_singleton] at h
      have hentries := required_congr h fun _ _ hab => hab d
      simp only [decodeFields, Option.bind_eq_bind, ← Option.bind_assoc, hentries]
  | property =>
      simp only [Kind.fields, List.forall_mem_cons] at h
      obtain ⟨hkey, hvalue, -⟩ := h
      simp only [decodeFields, decodeEntry_congr hkey hvalue]

/-- An object is read by its span, then by its kind, and then by the fields of that kind. -/
theorem decodeMembers_eq (child : Json → Option Node) (members : Members) :
    decodeMembers child members =
      ((members.find ["span"]).bind fun span => span.elim (some .dummy) decodeSpan).bind fun span =>
        members.kind?.bind fun kind => decodeFields child members span kind := by
  simp only [decodeMembers, Members.kind?, Option.bind_eq_bind, Option.bind_assoc]
  rcases members.find ["span"] with _ | _ | span <;> rfl

theorem kind?_congr (h : Field.AlikeIn ⟨["kind"], .kind, none⟩ members members') :
    members.kind? = members'.kind? :=
  required_congr h fun _ _ hab => hab

/-- A node is read from its kind, its span and the fields of its kind. -/
theorem decodeMembers_congr
    (h : ∀ field ∈ Role.node.fields members, field.AlikeIn members members') :
    decodeMembers (decode d) members = decodeMembers (decode d) members' := by
  simp only [Role.fields, List.forall_mem_cons] at h
  obtain ⟨hkind, hspan, hfields⟩ := h
  have hspan : (members.find ["span"]).bind (fun span => span.elim (some .dummy) decodeSpan) =
      (members'.find ["span"]).bind fun span => span.elim (some .dummy) decodeSpan := by
    simp only [Field.AlikeIn] at hspan
    generalize members.find ["span"] = x at hspan ⊢
    generalize members'.find ["span"] = y at hspan ⊢
    match x, y, hspan with
    | none, none, .none => rfl
    | some none, some none, .some .absent => rfl
    | some none, some (some _), .some (.default hdefault) =>
        obtain rfl := Option.some.inj hdefault
        exact (decodeSpan_encodeSpan .dummy).symm
    | some (some a), some (some b), .some (.present hab) => exact hab.same
  rw [decodeMembers_eq, decodeMembers_eq, hspan, ← kind?_congr hkind]
  refine Option.bind_congr fun span _ => Option.bind_congr fun kind hkind => ?_
  rw [hkind] at hfields
  exact decodeFields_congr hfields

/-- An object reads the same at a place of a role with fields, if the fields are found alike. -/
theorem Role.Same.of_fields {role : Role} (hrole : role.isRecord)
    (hnames : (∀ pair ∈ members, pair.1.isSome) ↔ ∀ pair ∈ members', pair.1.isSome)
    (h : ∀ field ∈ role.fields members, field.AlikeIn members members') :
    role.Same (.object members) (.object members') := by
  cases role with
  | node =>
      intro d
      cases d with
      | zero => rfl
      | succ d => exact decodeMembers_congr h
  | entry =>
      simp only [Role.fields, List.forall_mem_cons] at h
      exact fun d => decodeEntry_congr h.1 h.2.1
  | span =>
      simp only [Role.fields, List.forall_mem_cons] at h
      obtain ⟨hstart, hstop, -⟩ := h
      have hstart := required_congr hstart fun _ _ hab => hab
      have hstop := required_congr hstop fun _ _ hab => hab
      have hall : members.all (fun (name, _) => name.isSome) =
          members'.all fun (name, _) => name.isSome := by
        rw [Bool.eq_iff_iff]
        simpa using hnames
      simp only [Role.Same, decodeSpan, hall, Option.bind_eq_bind, ← Option.bind_assoc, hstart,
        hstop]
  | _ => cases hrole

end

end TreeScript.Node
