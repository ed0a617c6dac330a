import Mathlib.Data.List.Pairwise
import TreeScript.Proofs.Fields

/-!
# Proofs — all spellings of a tree load alike

Two texts whose values differ only by spellings load as the same tree, or neither loads, as long as
both keep the limit on nesting (`spellings_load_alike`).

A change of spelling leaves what is found under the names of a field as it is, or replaces it by
something that reads the same (`alikeIn_change`), or by the default where there was nothing
(`alikeIn_default`), since no two fields share a name.  So both values read the same, and they keep
the same limits, nesting apart (`Respells.agrees`).
-/

namespace TreeScript.Node

/-! ### Values within the limits -/

/-- An array is sound if its items are. -/
theorem sound_array {items : List Json} : Sound (.array items) ↔ ∀ item ∈ items, Sound item :=
  ⟨fun h => by cases h with | array h => exact h, .array⟩

/-- An object is sound if its names denote texts and its values are sound. -/
theorem sound_object {members : Members} :
    Sound (.object members) ↔ ∀ member ∈ members, member.1.isSome ∧ Sound member.2 := by
  constructor
  · intro h member hmember
    cases h with
    | object hnames h => exact ⟨hnames member hmember, h member hmember⟩
  · intro h
    exact .object (fun member hmember => (h member hmember).1) fun member hmember =>
      (h member hmember).2

/-- A number is sound if it denotes a double. -/
theorem sound_number {n : Json.Number} : Sound (.number n) ↔ n.toFloat?.isSome :=
  ⟨fun h => by cases h with | number h => exact h, fun h => .number h⟩

theorem sound_string {s : Json.Literal} : Sound (.string s) ↔ s.isSome :=
  ⟨fun h => by cases h with | string h => exact h, fun h => .string h⟩

/-- A value fits if it is sound and does not nest too deep. -/
theorem fits_iff : ∀ (d : Nat) (j : Json), j.fits d ↔ Sound j ∧ j.depth ≤ d
  | _, .null => by simpa [Json.fits, Json.depth] using Json.Each.null
  | _, .bool b => by simpa [Json.fits, Json.depth] using Json.Each.bool b
  | _, .number n => by simp [Json.fits, Json.depth, sound_number]
  | _, .string s => by simp [Json.fits, Json.depth, sound_string]
  | 0, .array items => by simp [Json.fits, Json.depth]
  | 0, .object members => by simp [Json.fits, Json.depth]
  | d + 1, .array items => by
      rw [Json.fits, Json.itemsFit_iff, sound_array, Json.depth, Nat.add_le_add_iff_right,
        Json.itemsDepth_le, ← forall₂_and]
      exact forall₂_congr fun item _ => fits_iff d item
  | d + 1, .object members => by
      rw [Json.fits, Json.membersFit_iff, sound_object, Json.depth, Nat.add_le_add_iff_right,
        Json.membersDepth_le, ← forall₂_and]
      refine forall₂_congr fun member _ => ?_
      rw [fits_iff d member.2, and_assoc]

/-- The default of a field keeps the limits. -/
theorem Role.sound_default {role : Role} {members : Members} :
    ∀ field ∈ role.fields members, ∀ value ∈ field.default, Sound value := by
  have hnull : Sound .null := .null
  have hspan : Sound (encodeSpan .dummy) := by
    have hlegible : (encodeSpan .dummy).Legible := by simp [encodeSpan]
    exact hlegible.mono (fun _ hn => hn.2) fun _ hs => hs
  cases role with
  | node =>
      cases hkind : members.kind? with
      | none => simp [Role.fields, hkind, hspan]
      | some kind => cases kind <;> simp [Role.fields, hkind, Kind.fields, hspan, hnull]
  | entry | span => simp [Role.fields, hnull]
  | _ => simp [Role.fields]

/-! ### Changes of members -/

/-- No two fields of an object share a name. -/
theorem Role.field_unique {role : Role} {members : Members} {f g : Field} {name : String}
    (hf : f ∈ role.fields members) (hg : g ∈ role.fields members) (hfname : name ∈ f.names)
    (hgname : name ∈ g.names) : f = g := by
  have apart : (role.fields members).Pairwise fun f g => ∀ name ∈ f.names, name ∉ g.names := by
    cases role with
    | node =>
        simp only [Role.fields]
        cases members.kind? with
        | none => decide
        | some kind => cases kind <;> simp [Kind.fields]
    | entry | span => simp [Role.fields]
    | _ => exact .nil
  have : Std.Symm fun f g : Field => ∀ name ∈ f.names, name ∉ g.names :=
    ⟨fun _ _ h name hg hf => h name hf hg⟩
  by_contra hne
  exact apart.forall hf hg hne name hfname hgname

section

variable {role : Role} {field : Field} {name name' : String} {members : Members} {a b : Json}

/-- A change inside a field keeps all fields alike. -/
theorem alikeIn_change (hfield : field ∈ role.fields ((some name, a) :: members))
    (hname : name ∈ field.names) (hab : field.role.Agrees a b) :
    ∀ other ∈ role.fields ((some name, a) :: members),
      other.AlikeIn ((some name, a) :: members) ((some name, b) :: members) := by
  intro other hother
  by_cases hmem : name ∈ other.names
  · obtain rfl := Role.field_unique hfield hother hname hmem
    rw [Field.AlikeIn, Members.find_cons_of_mem hname, Members.find_cons_of_mem hname]
    split
    · exact .some (.present hab)
    · exact .none
  · refine .of_find_eq ?_
    rw [Members.find_cons_of_not_mem hmem, Members.find_cons_of_not_mem hmem]

/-- Writing down the default of a field that was left out keeps all fields alike. -/
theorem alikeIn_default (hfield : field ∈ role.fields members) (hname : name ∈ field.names)
    (hdefault : field.default = some a)
    (habsent : ∀ pair ∈ members, ∀ known ∈ field.names, pair.1 ≠ some known) :
    ∀ other ∈ role.fields members, other.AlikeIn members ((some name, a) :: members) := by
  intro other hother
  by_cases hmem : name ∈ other.names
  · obtain rfl := Role.field_unique hfield hother hname hmem
    have hnone : members.named field.names = [] := by
      refine List.filter_eq_nil_iff.mpr ?_
      rintro ⟨_ | known, value⟩ hpair hnamed
      · cases hnamed
      · exact habsent _ hpair known (by simpa using hnamed) rfl
    rw [Field.AlikeIn, Members.find_cons_of_mem hname, Members.find_eq_only, hnone]
    exact .some (.default hdefault)
  · exact .of_find_eq (Members.find_cons_of_not_mem hmem a members).symm

/-- Another name for a field keeps all fields alike. -/
theorem alikeIn_rename (hfield : field ∈ role.fields ((some name, a) :: members))
    (hname : name ∈ field.names) (hname' : name' ∈ field.names) :
    ∀ other ∈ role.fields ((some name, a) :: members),
      other.AlikeIn ((some name, a) :: members) ((some name', a) :: members) := by
  intro other hother
  refine .of_find_eq ?_
  by_cases hsame : field = other
  · obtain rfl := hsame
    rw [Members.find_cons_of_mem hname, Members.find_cons_of_mem hname']
  · have apart : ∀ known ∈ field.names, known ∉ other.names :=
      fun known hknown hmem => hsame (Role.field_unique hfield hother hknown hmem)
    rw [Members.find_cons_of_not_mem (apart name hname),
      Members.find_cons_of_not_mem (apart name' hname')]

end

/-! ### Objects that have no fields -/

/-- An object of one member stands for the name of that, if the value says nothing. -/
theorem decodeSymbol_singleton (name : Json.Literal) (value : Json) :
    decodeSymbol (.object [(name, value)]) = if isUnit value then name else none := by
  rcases value with _ | _ | _ | _ | _ | _ | _ <;> rfl

/-- No other object stands for a symbol. -/
theorem decodeSymbol_of_length_ne {members : Members} (h : members.length ≠ 1) :
    decodeSymbol (.object members) = none := by
  match members, h with
  | [], _ => rfl
  | (_, value) :: _ :: _, _ => rcases value with _ | _ | _ | _ | _ | _ | _ <;> rfl

theorem isUnit_object (members : Members) : isUnit (.object members) = members.isEmpty := by
  cases members <;> rfl

/-- Where an object stands for no record, it matters only as a symbol. -/
theorem Role.Same.of_symbol {role : Role} {members members' : Members} (hrole : ¬ role.isRecord)
    (hsymbol : decodeSymbol (.object members) = decodeSymbol (.object members'))
    (hunit : members.isEmpty = members'.isEmpty) :
    role.Same (.object members) (.object members') := by
  cases role with
  | node | entry | span => exact absurd rfl hrole
  | nodes | entries => exact fun _ => rfl
  | operator => exact hsymbol
  | other => exact (isUnit_object members).trans (hunit.trans (isUnit_object members').symm)
  | _ => rfl

/-- The order of members does not matter to that. -/
theorem decodeSymbol_perm {members members' : Members} (h : members.Perm members') :
    decodeSymbol (.object members) = decodeSymbol (.object members') := by
  by_cases hlength : members.length = 1
  · obtain ⟨pair, rfl⟩ := List.length_eq_one_iff.mp hlength
    rw [List.singleton_perm.mp h]
  · rw [decodeSymbol_of_length_ne hlength, decodeSymbol_of_length_ne (h.length_eq ▸ hlength)]

/-- Of the value of a member it matters only whether it says anything. -/
theorem decodeSymbol_cons {name : Json.Literal} {members : Members} {a b : Json}
    (h : isUnit a = isUnit b) :
    decodeSymbol (.object ((name, a) :: members)) =
      decodeSymbol (.object ((name, b) :: members)) := by
  cases members with
  | nil => rw [decodeSymbol_singleton, decodeSymbol_singleton, h]
  | cons => rw [decodeSymbol_of_length_ne (by simp), decodeSymbol_of_length_ne (by simp)]

/-! ### Lists -/

section

variable {before after : List Json} {a b : Json}

/-- A list reads the same if an item is replaced by one that reads the same. -/
theorem decodeList_item {α : Type} {decode : Json → Option α} (h : decode a = decode b) :
    decodeList decode (.array (before ++ a :: after)) =
      decodeList decode (.array (before ++ b :: after)) := by
  simp only [decodeList, List.mapM_append, List.mapM_cons, h]

/-- So does a span that is written as a list. -/
theorem decodeSpan_item (h : decodeOffset a = decodeOffset b) :
    decodeSpan (.array (before ++ a :: after)) = decodeSpan (.array (before ++ b :: after)) := by
  match before, after with
  | [], [stop] => simp only [List.nil_append, decodeSpan, h]
  | [start], [] => simp only [List.cons_append, List.nil_append, decodeSpan, h]
  | [], [] | [], _ :: _ :: _ | [_], _ :: _ | [_, _], _ | _ :: _ :: _ :: _, _ => rfl

/-- A list of two spells an entry with a value, which may be null. -/
theorem decodeEntry_pair (child : Json → Option Node) (key value : Json) :
    decodeEntry child (.array [key, value]) =
      (decodeText key).bind fun key =>
        (nullable child value).bind fun value => some ⟨key, value⟩ := by
  cases value <;> simp [decodeEntry, nullable, Option.map_eq_bind, Option.bind_assoc]

/-- A longer list spells none. -/
theorem decodeEntry_of_lt_length (child : Json → Option Node) {items : List Json}
    (h : 2 < items.length) : decodeEntry child (.array items) = none := by
  match items, h with
  | _ :: value :: _ :: _, _ => cases value <;> rfl

/-- An entry that is written as a list reads the same if an item is replaced by one that agrees with
it. -/
theorem decodeEntry_item {d : Nat} (h : (Role.entry.item before).Agrees a b) :
    decodeEntry (decode d) (.array (before ++ a :: after)) =
      decodeEntry (decode d) (.array (before ++ b :: after)) := by
  match before, after, h with
  | [], [], h =>
      have hkey : decodeText a = decodeText b := h.same
      simp only [List.nil_append, decodeEntry, hkey]
  | [], [value], h =>
      have hkey : decodeText a = decodeText b := h.same
      simp only [List.nil_append, decodeEntry_pair, hkey]
  | [key], [], h =>
      simp only [List.cons_append, List.nil_append, decodeEntry_pair,
        nullable_congr h.null (h.same d)]
  | [], _ :: _ :: _, _ | [_], _ :: _, _ | _ :: _ :: _, _, _ =>
      rw [decodeEntry_of_lt_length _ (by grind), decodeEntry_of_lt_length _ (by grind)]

/-- A list reads the same if an item is replaced by one that agrees with it. -/
theorem Role.Same.item {role : Role} (h : (role.item before).Agrees a b) :
    role.Same (.array (before ++ a :: after)) (.array (before ++ b :: after)) := by
  cases role with
  | node =>
      intro d
      cases d <;> rfl
  | nodes | entries => exact fun d => decodeList_item (h.same d)
  | texts => exact decodeList_item h.same
  | entry => exact fun d => decodeEntry_item h
  | span => exact decodeSpan_item h.same
  | _ => rfl

end

/-! ### What a change keeps -/

/-- What has fields is a record. -/
theorem Role.isRecord_of_mem {role : Role} {members : Members} {field : Field}
    (h : field ∈ role.fields members) : role.isRecord := by
  cases role with
  | node | entry | span => rfl
  | _ => cases h

/-- Two objects agree if they read the same and are sound alike, for neither is null. -/
theorem Role.Agrees.object {role : Role} {members members' : Members}
    (hsame : role.Same (.object members) (.object members'))
    (hsound : (∀ pair ∈ members, pair.1.isSome ∧ Sound pair.2) ↔
      ∀ pair ∈ members', pair.1.isSome ∧ Sound pair.2) :
    role.Agrees (.object members) (.object members') :=
  ⟨hsame, sound_object.trans (hsound.trans sound_object.symm), iff_of_false nofun nofun⟩

/-- **A change of spelling reads the same**, and it keeps the limits, nesting apart. -/
theorem Respells.agrees {role : Role} {a b : Json} (h : Respells role a b) : role.Agrees a b := by
  induction h with
  | @permute role members members' hperm =>
      have hall : ∀ P : Json.Literal × Json → Prop,
          (∀ pair ∈ members, P pair) ↔ ∀ pair ∈ members', P pair :=
        fun P => forall_congr' fun pair => by rw [hperm.mem_iff]
      refine .object ?_ (hall _)
      by_cases hrole : role.isRecord
      · exact .of_fields hrole (hall _) fun field _ => .of_find_eq (Members.find_perm hperm _)
      · exact .of_symbol hrole (decodeSymbol_perm hperm) hperm.isEmpty_eq
  | field hfield hname _ ih =>
      refine .object ?_ (by simp [ih.sound])
      exact .of_fields (Role.isRecord_of_mem hfield) (by simp) (alikeIn_change hfield hname ih)
  | @unknown role name members a b hname _ ih =>
      refine .object ?_ (by simp [ih.sound])
      by_cases hrole : role.isRecord
      · refine .of_fields hrole (by simp) fun field hfield => .of_find_eq ?_
        rw [Members.find_cons_of_ne (hname field hfield),
          Members.find_cons_of_ne (hname field hfield)]
      · exact .of_symbol hrole (decodeSymbol_cons ih.same) rfl
  | item _ ih =>
      refine ⟨.item ih, ?_, by simp⟩
      simp only [sound_array, List.forall_mem_append, List.forall_mem_cons, ih.sound]
  | extra hrole hname hvalue =>
      refine .object ?_ (by simp [hvalue])
      refine .of_fields hrole (by simp) fun field hfield => .of_find_eq ?_
      rw [Members.find_cons_of_not_mem (hname field hfield)]
  | default hfield hname hdefault habsent =>
      refine .object ?_ (by simp [Role.sound_default _ hfield _ hdefault])
      exact .of_fields (Role.isRecord_of_mem hfield) (by simp)
        (alikeIn_default hfield hname hdefault habsent)
  | rename hfield hname hname' =>
      refine .object ?_ (by simp)
      exact .of_fields (Role.isRecord_of_mem hfield) (by simp) (alikeIn_rename hfield hname hname')
  | spanPair start stop =>
      refine ⟨?_, by simp [sound_object, sound_array], by simp⟩
      simp [Role.Same, decodeSpan, Members.required, Members.find]
  | entryPair key value =>
      refine ⟨fun d => ?_, by simp [sound_object, sound_array], by simp⟩
      rw [decodeEntry_pair]
      simp [decodeEntry, optional_eq, Members.required, Members.find]
  | entryKey key =>
      refine ⟨fun d => ?_, by simp [sound_object, sound_array], by simp⟩
      simp [decodeEntry, optional_eq, Members.required, Members.find]
  | symbol symbol =>
      have hnull : Sound .null := .null
      exact ⟨rfl, by simp [sound_string, sound_object, hnull], by simp⟩
  | @kindNumber kind index hkind =>
      have hlt : index < Json.Number.significandLimit :=
        Nat.lt_trans (List.getElem?_eq_some_iff.mp hkind).1 (by decide)
      refine ⟨?_, ?_, by simp [Json.text, Json.nat]⟩
      · exact (decodeKind_text kind).trans hkind.symm
      · refine iff_of_true (.string rfl) (sound_number.mpr ?_)
        rw [Json.Number.toFloat?_ofNat hlt]
        rfl

/-! ### The outermost node -/

/-- The value stays within the limits, apart from nesting and from the span of the outermost
node. -/
def RootSound : Json → Prop
  | .object members => ∀ pair ∈ members, pair.1 ≠ some "span" → pair.1.isSome ∧ Sound pair.2
  | _ => False

/-- A value that does not nest too deep is within the limits if it is sound, the span of the
outermost node apart. -/
theorem withinLimits_iff {j : Json} (h : j.depth ≤ maxDepth) : withinLimits j ↔ RootSound j := by
  cases j with
  | object members =>
      have hdepth : ∀ pair ∈ members, pair.2.depth ≤ maxDepth - 1 :=
        Json.membersDepth_le.mp (Nat.le_sub_of_add_le h)
      rw [withinLimits, Json.membersFit_iff]
      simp only [List.mem_filter, bne_iff_ne, and_imp]
      refine forall₂_congr fun pair hpair => imp_congr_right fun _ => ?_
      rw [fits_iff, and_iff_left (hdepth pair hpair)]
  | _ => simp [withinLimits, RootSound]

/-- A change of spelling keeps the limits that the outermost node has to keep. -/
theorem Respells.rootSound {a b : Json} (h : Respells .node a b) : RootSound a ↔ RootSound b := by
  cases h with
  | permute hperm => exact forall_congr' fun pair => by rw [hperm.mem_iff]
  | field _ _ hab => simp [RootSound, hab.agrees.sound]
  | unknown _ hab => simp [RootSound, hab.agrees.sound]
  | item => exact .rfl
  | extra _ _ hvalue => simp [RootSound, hvalue]
  | default hfield _ hdefault _ =>
      simp [RootSound, Role.sound_default _ hfield _ hdefault]
  | @rename _ field name name' value members hfield hname hname' =>
      -- the span goes by no other name
      have hspan : "span" ∈ field.names → field.names = ["span"] := fun hmem => by
        rw [Role.field_unique hfield (List.mem_cons_of_mem _ List.mem_cons_self) hmem
          (List.mem_singleton_self _)]
      have hiff : name = "span" ↔ name' = "span" := by
        constructor
        · rintro rfl
          exact List.mem_singleton.mp (hspan hname ▸ hname')
        · rintro rfl
          exact List.mem_singleton.mp (hspan hname' ▸ hname)
      simp [RootSound, hiff]

/-- Changes of spelling, back and forth, read the same and keep the limits. -/
theorem same_of_eqvGen {j k : Json} (h : Relation.EqvGen (Respells .node) j k) :
    Role.node.Same j k ∧ (RootSound j ↔ RootSound k) := by
  induction h with
  | rel _ _ h => exact ⟨h.agrees.same, h.rootSound⟩
  | refl j => exact ⟨.refl _ j, .rfl⟩
  | symm _ _ _ ih => exact ⟨fun d => (ih.1 d).symm, ih.2.symm⟩
  | trans _ _ _ _ _ ih₁ ih₂ => exact ⟨fun d => (ih₁.1 d).trans (ih₂.1 d), ih₁.2.trans ih₂.2⟩

/-- **All spellings of a tree load alike.**  Two texts that nest at most 127 arrays and objects and
differ only by changes of spelling load as the same tree, or neither loads. -/
theorem spellings_load_alike (s t : String) (j k : Json) (hs : Json.read? s = some j)
    (ht : Json.read? t = some k) (hj : j.depth ≤ 127) (hk : k.depth ≤ 127)
    (h : Relation.EqvGen (Respells .node) j k) : ofText? s = ofText? t := by
  obtain ⟨hsame, hroot⟩ := same_of_eqvGen h
  have hlimits : withinLimits j = withinLimits k := by
    rw [Bool.eq_iff_iff, withinLimits_iff hj, withinLimits_iff hk, hroot]
  simp only [ofText?, hs, ht, Option.bind_eq_bind, Option.bind_some, ofJson?, hlimits,
    hsame maxDepth]

/-- An assignment of an object literal to a variable. -/
def plainAssignment : Json :=
  .object [(some "value", .object [(some "properties", .array [.object [(some "key", .text "k")]]),
      (some "kind", .text "ObjectLiteral")]),
    (some "assignee", .object [(some "kind", .text "Identifier"), (some "symbol", .text "x")]),
    (some "kind", .text "AssignmentExpr")]

/-- The same assignment with its members in another order, lists for its span and its entry, a
number for a kind, the other name of its target, and a note. -/
def respelledAssignment : Json :=
  .object [(some "kind", .text "AssignmentExpr"),
    (some "value", .object [(some "properties", .array [.array [.text "k"]]),
      (some "kind", .text "ObjectLiteral")]),
    (some "assigne", .object [(some "kind", .nat 9), (some "symbol", .text "x")]),
    (some "span", .array [.nat 0, .nat 0]), (some "note", .array [.object [], .null])]

/-- The fields of a kind are fields of its nodes. -/
theorem mem_fields_of_kind {members : Members} {kind : Kind} {field : Field}
    (hkind : members.kind? = some kind) (h : field ∈ kind.fields) :
    field ∈ Role.node.fields members := by
  simp [Role.fields, hkind, h]

/-- One gets from the first to the second by changes of spelling. -/
theorem respells_assignment :
    Relation.EqvGen (Respells .node) plainAssignment respelledAssignment := by
  have step {a b c : Json} (h : Respells .node a b) (hrest : Relation.EqvGen (Respells .node) b c) :
      Relation.EqvGen (Respells .node) a c :=
    .trans _ _ _ (.rel _ _ h) hrest
  have hvalue : ⟨["value"], .node, none⟩ ∈ Kind.assignment.fields := by simp [Kind.fields]
  have htarget : ⟨["assignee", "assigne"], .node, none⟩ ∈ Kind.assignment.fields := by
    simp [Kind.fields]
  have hproperties : ⟨["properties"], .entries, none⟩ ∈ Kind.object.fields := by simp [Kind.fields]
  have hkind (members : Members) : ⟨["kind"], .kind, none⟩ ∈ Role.node.fields members := by
    simp [Role.fields]
  have hspan (members : Members) :
      ⟨["span"], .span, some (encodeSpan .dummy)⟩ ∈ Role.node.fields members := by
    simp [Role.fields]
  have hnine : Kind.ofIndex? 9 = some .identifier := rfl
  have hother : "assigne" ∈ ["assignee", "assigne"] := by simp
  have hnew {members : Members} (h : members.kind? = some .assignment) :
      ∀ field ∈ Role.node.fields members, "note" ∉ field.names := by
    simp [Role.fields, h, Kind.fields]
  have hnote : Sound (.array [.object [], .null]) := by
    have hnull : Sound .null := .null
    simp [sound_array, sound_object, hnull]
  -- the entry of the value becomes a list
  refine step (.field (mem_fields_of_kind rfl hvalue) (by simp)
    (.field (mem_fields_of_kind rfl hproperties) (by simp)
      (@Respells.item _ [] _ _ _ (.entryKey _)))) ?_
  -- the target takes its other name, and its kind becomes a number
  refine step (.permute (.swap _ _ _)) ?_
  refine step (.rename (mem_fields_of_kind rfl htarget) (by simp) hother) ?_
  refine step (.field (mem_fields_of_kind rfl htarget) hother
    (.field (hkind _) (by simp) (.kindNumber hnine))) ?_
  -- the span is written down, and becomes a list
  refine step (.default (hspan _) (List.mem_singleton_self _) rfl (by simp)) ?_
  refine step (.field (hspan _) (by simp) (.spanPair _ _)) ?_
  refine step (.extra rfl (hnew rfl) hnote) ?_
  exact .rel _ _ (.permute (List.reverse_perm _).symm)

/-- Both spellings of the assignment load, and as the same tree. -/
theorem spellings_load_alike_assignment :
    ofText? plainAssignment.render = ofText? respelledAssignment.render ∧
    ofText? plainAssignment.render =
      some (.assignment (.identifier "x" .dummy) (.object [⟨"k", none⟩] .dummy) .dummy) := by
  have hplain : plainAssignment.Legible := by
    simp [plainAssignment, Json.legible_object]
  have hrespelled : respelledAssignment.Legible := by
    have hnine : (Json.nat 9).Legible := Json.legible_nat 9
    have hzero : (Json.nat 0).Legible := Json.legible_nat 0
    have hnull : Json.null.Legible := .null
    simp [respelledAssignment, Json.legible_object, hnine, hzero, hnull]
  refine ⟨?_, ?_⟩
  · exact spellings_load_alike _ _ _ _ hplain.read?_render hrespelled.read?_render (by decide)
      (by decide) respells_assignment
  · rw [ofText?, hplain.read?_render]
    rfl

end TreeScript.Node
