import TreeScript.Proofs.Display
import TreeScript.Proofs.Properties
import TreeScript.Value.Equality

/-!
# Proofs — equality of values

The host's equality of values is symmetric and transitive, does not see the order of properties, and
relates a value to itself unless a double in it is not a number; and where scripts can compare two
values at all, their comparison gives the host's answer (`equality_lawful`).

Objects are compared by lookups: each property of the one is looked up in the other, which has as
many (`Value.Same`, `Value.equal_iff`).  As no key comes twice in an object (`Value.Proper`), the
keys of two equal objects are the same up to order, and the comparison can be turned round
(`Value.exists_of_same_object`).
-/

namespace TreeScript

/-! ### Doubles -/

namespace Double

/-- Equality of doubles is symmetric. -/
theorem beq_symm {x y : Float} (h : (x == y) = true) : (y == x) = true := by
  rw [beq_iff] at h ⊢
  obtain ⟨hnan, hmagnitude, hsign⟩ := h
  rw [← hmagnitude]
  exact ⟨hnan, rfl, hsign.imp_left Eq.symm⟩

theorem beq_comm (x y : Float) : (x == y) = (y == x) :=
  Bool.eq_iff_iff.mpr ⟨beq_symm, beq_symm⟩

/-- It is transitive. -/
theorem beq_trans {x y z : Float} (hxy : (x == y) = true) (hyz : (y == z) = true) :
    (x == z) = true := by
  rw [beq_iff] at hxy hyz ⊢
  obtain ⟨hnan, hmagnitude, hsign⟩ := hxy
  obtain ⟨-, hmagnitude', hsign'⟩ := hyz
  refine ⟨hnan, hmagnitude.trans hmagnitude', ?_⟩
  rcases hsign with hsign | hzero
  · rw [hsign, hmagnitude]
    exact hsign'
  · exact .inr hzero

/-- It relates a double to itself unless that is not a number. -/
theorem beq_self_iff (x : Float) : (x == x) = true ↔ ¬ x.isNaN := by
  rw [beq_iff, isNaN_iff]
  simp

end Double

namespace Value

/-! ### Inside a value -/

/-- The value is a double that is not a number, or holds one at some depth. -/
inductive HoldsNaN : Value → Prop where
  | number {x : Float} : x.isNaN → HoldsNaN (.number x)
  | property {v : Value} {p : String × Value} : p ∈ v.properties → HoldsNaN p.2 → HoldsNaN v

/-- The second value is the first with the properties of objects in it, at whatever depth, in
another order. -/
inductive Rearranged : Value → Value → Prop where
  | refl (v : Value) : Rearranged v v
  | reorder {p q : List (String × Value)} : p.Perm q → Rearranged (.object p) (.object q)
  | inside {before after : List (String × Value)} {key : String} {v v' : Value} :
      Rearranged v v' → Rearranged (.object (before ++ (key, v) :: after))
        (.object (before ++ (key, v') :: after))
  | trans {a b c : Value} : Rearranged a b → Rearranged b c → Rearranged a c

/-- What an object holds is smaller than the object. -/
theorem sizeOf_lt_of_mem_properties {v : Value} {p : String × Value} (hp : p ∈ v.properties) :
    sizeOf p.2 < sizeOf v := by
  cases v with
  | object properties =>
      have hlt : sizeOf p < sizeOf properties := List.sizeOf_lt_of_mem hp
      obtain ⟨key, value⟩ := p
      simp only [Prod.mk.sizeOf_spec, object.sizeOf_spec] at hlt ⊢
      omega
  | _ => cases hp

/-- What passes from the values of properties to their object holds of all values. -/
theorem induction_on_properties {motive : Value → Prop}
    (step : ∀ v : Value, (∀ p ∈ v.properties, motive p.2) → motive v) (v : Value) : motive v := by
  induction hsize : sizeOf v using Nat.strong_induction_on generalizing v with
  | _ n ih =>
      subst hsize
      exact step v fun p hp => ih _ (sizeOf_lt_of_mem_properties hp) p.2 rfl

/-- Where no key comes twice, looking a key up finds its property. -/
theorem property?_of_mem {p : List (String × Value)} (hnodup : (p.map (·.1)).Nodup) {key : String}
    {v : Value} (h : (key, v) ∈ p) : property? p key = some v := by
  induction p with
  | nil => cases h
  | cons first p ih =>
      obtain ⟨k, w⟩ := first
      rw [property?_cons]
      obtain ⟨hk, hnodup⟩ := List.nodup_cons.mp hnodup
      rcases List.mem_cons.mp h with heq | h
      · cases heq
        exact if_pos rfl
      · have hne : key ≠ k := fun heq => hk (List.mem_map.mpr ⟨_, h, heq⟩)
        rw [if_neg hne]
        exact ih hnodup h

/-! ### Equality by kinds -/

/-- Properties are looked up one by one. -/
theorem propertiesEqual_iff {p q : List (String × Value)} :
    propertiesEqual p q = true ↔
      ∀ x ∈ p, ∃ w, property? q x.1 = some w ∧ x.2.equal w = true := by
  induction p with
  | nil => simp [propertiesEqual]
  | cons first p ih =>
      obtain ⟨key, v⟩ := first
      rw [propertiesEqual, Bool.and_eq_true, ih, List.forall_mem_cons]
      refine and_congr_left fun _ => ?_
      cases property? q key <;> simp

/-- What makes two values of a kind equal. -/
inductive Same : Value → Value → Prop where
  | number {x y : Float} : (x == y) = true → Same (.number x) (.number y)
  | string (s : String) : Same (.string s) (.string s)
  | bool (b : Bool) : Same (.bool b) (.bool b)
  | null : Same .null .null
  | object {p q : List (String × Value)} : p.length = q.length →
      (∀ x ∈ p, ∃ w, property? q x.1 = some w ∧ x.2.equal w = true) → Same (.object p) (.object q)
  | function {f g : Closure} : f.bodyId = g.bodyId → f.scope = g.scope →
      Same (.function f) (.function g)
  | native {m n : Native} : m.id = n.id → Same (.native m) (.native n)

/-- **Values are equal** if they are of one kind and what makes two values of that kind equal holds
of them. -/
theorem equal_iff {a b : Value} : a.equal b = true ↔ Same a b := by
  constructor
  · intro h
    cases a <;> cases b <;> try cases h
    case number.number => exact .number h
    case string.string x y => exact eq_of_beq h ▸ .string x
    case bool.bool x y => exact eq_of_beq (show (x == y) = true from h) ▸ .bool x
    case null.null.refl => exact .null
    case object.object p q =>
      rw [equal, Bool.and_eq_true, beq_iff_eq, propertiesEqual_iff] at h
      exact .object h.1 h.2
    case function.function f g =>
      rw [equal, Bool.and_eq_true, beq_iff_eq, beq_iff_eq] at h
      exact .function h.1 h.2
    case native.native => exact .native (eq_of_beq h)
  · rintro (h | _ | _ | _ | ⟨hlength, heach⟩ | ⟨hbody, hscope⟩ | hid)
    · exact h
    · exact beq_self_eq_true _
    · exact beq_self_eq_true _
    · rfl
    · rw [equal, propertiesEqual_iff.mpr heach, hlength, beq_self_eq_true, Bool.and_self]
    · rw [equal, hbody, hscope, beq_self_eq_true, beq_self_eq_true, Bool.and_self]
    · rw [equal, hid, beq_self_eq_true]

/-- Functions are equal if they have one body, declared in one scope. -/
theorem equal_function_iff {f g : Closure} :
    (Value.function f).equal (.function g) = true ↔ f.bodyId = g.bodyId ∧ f.scope = g.scope := by
  rw [equal_iff]
  constructor
  · intro h
    cases h with
    | function hbody hscope => exact ⟨hbody, hscope⟩
  · rintro ⟨hbody, hscope⟩
    exact .function hbody hscope

/-- Natives are equal if they are one function of the host. -/
theorem equal_native_iff {m n : Native} :
    (Value.native m).equal (.native n) = true ↔ m.id = n.id := by
  rw [equal_iff]
  constructor
  · intro h
    cases h with
    | native hid => exact hid
  · exact .native

/-- Each property of an equal object is found in the first one, too. -/
theorem exists_of_same_object {p q : List (String × Value)} (hp : (p.map (·.1)).Nodup)
    (hq : (q.map (·.1)).Nodup) (hlength : p.length = q.length)
    (heach : ∀ x ∈ p, ∃ w, property? q x.1 = some w ∧ x.2.equal w = true) {y : String × Value}
    (hy : y ∈ q) : ∃ v, (y.1, v) ∈ p ∧ v.equal y.2 = true := by
  have hsubset : p.map (·.1) ⊆ q.map (·.1) := by
    intro key hkey
    obtain ⟨x, hx, rfl⟩ := List.mem_map.mp hkey
    obtain ⟨w, hw, -⟩ := heach x hx
    exact List.mem_map.mpr ⟨_, mem_of_property? hw, rfl⟩
  -- as many keys, and none twice: all keys of `q` are keys of `p`
  have hperm : (p.map (·.1)).Perm (q.map (·.1)) :=
    (List.subperm_of_subset hp hsubset).perm_of_length_le (by simp [hlength])
  obtain ⟨⟨key, v⟩, hx, hkey⟩ := List.mem_map.mp (hperm.mem_iff.mpr (List.mem_map_of_mem hy))
  obtain ⟨w, hw, hequal⟩ := heach _ hx
  obtain rfl : key = y.1 := hkey
  rw [property?_of_mem hq hy] at hw
  cases hw
  exact ⟨v, hx, hequal⟩

/-! ### Laws of equality -/

/-- **Equality is symmetric.** -/
theorem equal_symm {a b : Value} (ha : a.Proper) (hb : b.Proper) (h : a.equal b = true) :
    b.equal a = true := by
  induction ha generalizing b with
  | @intro a hnodup _ ih =>
      rw [equal_iff] at h ⊢
      cases h with
      | number h => exact .number (Double.beq_symm h)
      | string s => exact .string s
      | bool b => exact .bool b
      | null => exact .null
      | object hlength heach =>
          obtain ⟨hnodup', hq⟩ := hb
          refine .object hlength.symm fun y hy => ?_
          obtain ⟨v, hv, hequal⟩ := exists_of_same_object hnodup hnodup' hlength heach hy
          exact ⟨v, property?_of_mem hnodup hv, ih _ hv (hq y hy) hequal⟩
      | function hbody hscope => exact .function hbody.symm hscope.symm
      | native hid => exact .native hid.symm

theorem equal_comm {a b : Value} (ha : a.Proper) (hb : b.Proper) : a.equal b = b.equal a :=
  Bool.eq_iff_iff.mpr ⟨equal_symm ha hb, equal_symm hb ha⟩

/-- **Equality is transitive.** -/
theorem equal_trans {a b c : Value} (hab : a.equal b = true) (hbc : b.equal c = true) :
    a.equal c = true := by
  induction a using induction_on_properties generalizing b c with
  | step a ih =>
      rw [equal_iff] at hab hbc ⊢
      cases hab with
      | number h =>
          cases hbc with
          | number h' => exact .number (Double.beq_trans h h')
      | string | bool | null => exact hbc
      | object hlength heach =>
          cases hbc with
          | object hlength' heach' =>
              refine .object (hlength.trans hlength') fun x hx => ?_
              obtain ⟨v, hv, hxv⟩ := heach x hx
              obtain ⟨w, hw, hvw⟩ := heach' _ (mem_of_property? hv)
              exact ⟨w, hw, ih x hx hxv hvw⟩
      | function hbody hscope =>
          cases hbc with
          | function hbody' hscope' => exact .function (hbody.trans hbody') (hscope.trans hscope')
      | native hid =>
          cases hbc with
          | native hid' => exact .native (hid.trans hid')

/-- **A value is equal to itself** unless a double in it is not a number. -/
theorem equal_self_iff {a : Value} (ha : a.Proper) : a.equal a = true ↔ ¬ a.HoldsNaN := by
  induction ha with
  | @intro a hnodup _ ih =>
      rw [equal_iff]
      constructor
      · intro hsame hnan
        cases hnan with
        | number hx =>
            cases hsame with
            | number h => exact (Double.beq_self_iff _).mp h hx
        | @property _ x hx hnan =>
            refine (ih x hx).mp ?_ hnan
            cases hsame with
            | object _ heach =>
                obtain ⟨w, hw, hequal⟩ := heach x hx
                have hfound := (property?_of_mem hnodup hx).symm.trans hw
                cases hfound
                exact hequal
            | _ => cases hx
      · intro hnone
        cases a with
        | number x => exact .number ((Double.beq_self_iff x).mpr fun hx => hnone (.number hx))
        | string s => exact .string s
        | bool b => exact .bool b
        | null => exact .null
        | object p =>
            refine .object rfl fun x hx => ⟨x.2, property?_of_mem hnodup hx, ?_⟩
            exact (ih x hx).mpr fun hnan => hnone (.property hx hnan)
        | function => exact .function rfl rfl
        | native => exact .native rfl

/-! ### The order of properties -/

/-- A proper value stays proper when its properties are put in another order. -/
theorem Rearranged.proper {a b : Value} (h : a.Rearranged b) (ha : a.Proper) : b.Proper := by
  induction h with
  | refl => exact ha
  | reorder hperm =>
      obtain ⟨hnodup, heach⟩ := ha
      exact ⟨(hperm.map _).nodup_iff.mp hnodup, fun x hx => heach x (hperm.mem_iff.mpr hx)⟩
  | @inside before after key v v' _ ih =>
      obtain ⟨hnodup, heach⟩ := ha
      refine ⟨by simpa [properties] using hnodup, fun x hx => ?_⟩
      rcases List.mem_append.mp hx with hx | hx
      · exact heach x (List.mem_append_left _ hx)
      rcases List.mem_cons.mp hx with rfl | hx
      · exact ih (heach (key, v) (by simp [properties]))
      · exact heach x (List.mem_append_right _ (List.mem_cons_of_mem _ hx))
  | trans _ _ ihab ihbc => exact ihbc (ihab ha)

/-- It stays equal to the same values. -/
theorem Rearranged.equal_left {a b : Value} (h : a.Rearranged b) (c : Value) :
    a.equal c = b.equal c := by
  induction h generalizing c with
  | refl => rfl
  | @reorder p q hperm =>
      cases c with
      | object r =>
          rw [equal, equal, hperm.length_eq, Bool.eq_iff_iff]
          simp only [Bool.and_eq_true, propertiesEqual_iff, hperm.mem_iff]
      | _ => rfl
  | @inside before after key v v' _ ih =>
      cases c with
      | object r =>
          rw [equal, equal, Bool.eq_iff_iff]
          simp only [Bool.and_eq_true, propertiesEqual_iff, List.forall_mem_append,
            List.forall_mem_cons, ih, List.length_append, List.length_cons]
      | _ => rfl
  | trans _ _ ihab ihbc => exact (ihab c).trans (ihbc c)

/-- **The order of properties does not count**, at whatever depth. -/
theorem equal_rearranged {a a' b b' : Value} (ha : a.Proper) (hb : b.Proper)
    (haa : a.Rearranged a') (hbb : b.Rearranged b') : a'.equal b' = a.equal b := by
  have ha' := haa.proper ha
  have hb' := hbb.proper hb
  calc a'.equal b' = a.equal b' := (haa.equal_left b').symm
    _ = b'.equal a := equal_comm ha hb'
    _ = b.equal a := (hbb.equal_left a).symm
    _ = a.equal b := equal_comm hb ha

/-! ### Comparison in scripts -/

/-- The kinds that scripts cannot compare. -/
def uncomparable : List String := ["null", "object", "function", "native-function"]

/-- **What scripts can compare**: two numbers, two truth values or two strings. -/
theorem compare_cases (a b : Value) :
    (∃ x y, a = .number x ∧ b = .number y) ∨ (∃ x y, a = .bool x ∧ b = .bool y) ∨
      (∃ x y, a = .string x ∧ b = .string y) ∨
      ((a.typeName ≠ b.typeName ∨ a.typeName ∈ uncomparable) ∧
        ∃ fault, a.compare b = .error fault) := by
  fun_cases Value.compare a b with
  | case1 x y => exact .inl ⟨x, y, rfl, rfl⟩
  | case2 x y => exact .inr (.inl ⟨x, y, rfl, rfl⟩)
  | case3 x y => exact .inr (.inr (.inl ⟨x, y, rfl, rfl⟩))
  | case4 _ _ _ _ _ hkinds => exact .inr (.inr (.inr ⟨.inl hkinds, _, rfl⟩))
  | case5 =>
      refine .inr (.inr (.inr ⟨.inr ?_, _, rfl⟩))
      cases a <;> cases b <;> simp_all [typeName, uncomparable]

/-- Where two values can be compared, either way round, the answer is the host's. -/
theorem compare_eq_ok {a b : Value} {e : Bool} (h : a.compare b = .ok e) :
    e = a.equal b ∧ b.compare a = .ok e := by
  rcases compare_cases a b with
    ⟨x, y, rfl, rfl⟩ | ⟨x, y, rfl, rfl⟩ | ⟨x, y, rfl, rfl⟩ | ⟨-, fault, hfault⟩
  · cases h
    exact ⟨rfl, congrArg Except.ok (Double.beq_comm y x)⟩
  · cases h
    exact ⟨rfl, congrArg Except.ok BEq.comm⟩
  · cases h
    exact ⟨rfl, congrArg Except.ok BEq.comm⟩
  · cases h.symm.trans hfault

/-- Comparing fails if the kinds differ, or if theirs cannot be compared. -/
theorem compare_eq_error_iff {a b : Value} : (∃ fault, a.compare b = .error fault) ↔
    a.typeName ≠ b.typeName ∨ a.typeName ∈ uncomparable := by
  rcases compare_cases a b with
    ⟨x, y, rfl, rfl⟩ | ⟨x, y, rfl, rfl⟩ | ⟨x, y, rfl, rfl⟩ | ⟨hkinds, hfault⟩
  · simp [Value.compare, typeName, uncomparable]
  · simp [Value.compare, typeName, uncomparable]
  · simp [Value.compare, typeName, uncomparable]
  · exact iff_of_true hfault hkinds

end Value

namespace ComparisonOp

theorem apply_eq_ok_iff {op : ComparisonOp} {a b v : Value} :
    op.apply a b = .ok v ↔ ∃ e, a.compare b = .ok e ∧ v = .bool (op.holds e) := by
  rw [apply]
  cases a.compare b <;> simp [Except.map, eq_comm]

theorem apply_eq_error_iff {op : ComparisonOp} {a b : Value} {fault : Fault} :
    op.apply a b = .error fault ↔ a.compare b = .error fault := by
  rw [apply]
  cases a.compare b <;> simp [Except.map]

/-- The answer of a comparison depends on the host's equality alone. -/
theorem apply_eq_ok {op : ComparisonOp} {a b v : Value} (h : op.apply a b = .ok v) :
    v = .bool (op.holds (a.equal b)) ∧ op.apply b a = .ok v := by
  obtain ⟨e, he, rfl⟩ := apply_eq_ok_iff.mp h
  obtain ⟨rfl, hswap⟩ := Value.compare_eq_ok he
  exact ⟨rfl, apply_eq_ok_iff.mpr ⟨_, hswap, rfl⟩⟩

end ComparisonOp

/-! ### The laws together -/

/-- **The host's equality is lawful, and scripts compare by it.**  It is symmetric, transitive,
blind to the order of properties at whatever depth, and reflexive except where a double in the value
is not a number.  A comparison in a script that gives an answer gives the host's, with either
operand first; and it gives none, whichever the operator, just if the kinds of the operands differ
or theirs is one that cannot be compared.  Functions are equal by identity: if they have one body
and one scope of declaration, whatever their names, and natives if they are one function of the
host.

The values are those that a run can get hold of: no key comes twice in their objects
(`evaluateWithin_proper`). -/
theorem equality_lawful {a b : Value} (ha : a.Proper) (hb : b.Proper) :
    a.equal b = b.equal a ∧
    (∀ c : Value, a.equal b = true → b.equal c = true → a.equal c = true) ∧
    (∀ a' b' : Value, a.Rearranged a' → b.Rearranged b' → a'.equal b' = a.equal b) ∧
    (a.equal a = true ↔ ¬ a.HoldsNaN) ∧
    (∀ v, ComparisonOp.eq.apply a b = .ok v → v = .bool (a.equal b)) ∧
    (∀ v, ComparisonOp.ne.apply a b = .ok v → v = .bool (!a.equal b)) ∧
    (∀ (op : ComparisonOp) (v : Value), op.apply a b = .ok v ↔ op.apply b a = .ok v) ∧
    (∀ op : ComparisonOp, (∃ fault, op.apply a b = .error fault) ↔
      a.typeName ≠ b.typeName ∨
        a.typeName ∈ ["null", "object", "function", "native-function"]) ∧
    (∀ f g : Closure, a = .function f → b = .function g →
      (a.equal b = true ↔ f.bodyId = g.bodyId ∧ f.scope = g.scope)) ∧
    ∀ m n : Native, a = .native m → b = .native n → (a.equal b = true ↔ m.id = n.id) := by
  refine ⟨Value.equal_comm ha hb, fun c => Value.equal_trans,
    fun a' b' => Value.equal_rearranged ha hb, Value.equal_self_iff ha,
    fun v h => (ComparisonOp.apply_eq_ok h).1, fun v h => (ComparisonOp.apply_eq_ok h).1,
    fun op v => ⟨fun h => (ComparisonOp.apply_eq_ok h).2, fun h => (ComparisonOp.apply_eq_ok h).2⟩,
    fun op => ?_, ?_, ?_⟩
  · simp only [ComparisonOp.apply_eq_error_iff]
    exact Value.compare_eq_error_iff
  · rintro f g rfl rfl
    exact Value.equal_function_iff
  · rintro m n rfl rfl
    exact Value.equal_native_iff

/-- `{ x: 1, y: { p: "s", q: v } }`. -/
def nestedObject (v : Value) : Value :=
  .ofEntries [("x", .number 1), ("y", .ofEntries [("p", .string "s"), ("q", v)])]

/-- `{ y: { q: v, p: "s" }, x: 1 }`. -/
def reorderedObject (v : Value) : Value :=
  .ofEntries [("y", .ofEntries [("q", v), ("p", .string "s")]), ("x", .number 1)]

theorem nestedObject_proper {v : Value} (hv : v.Proper) : (nestedObject v).Proper := by
  refine Value.ofEntries_proper ?_
  have hscalar : (Value.number 1).Proper ∧ (Value.string "s").Proper :=
    ⟨.of_properties_eq_nil rfl, .of_properties_eq_nil rfl⟩
  have hinner : (Value.ofEntries [("p", .string "s"), ("q", v)]).Proper :=
    Value.ofEntries_proper (by simp [hscalar, hv])
  simp [hscalar, hinner]

/-- A function without statements, with the body of the declaration of `declared` in the first
scope. -/
def emptyFunction (name declared : String) : Value :=
  .function ⟨name, [], [], ⟨0, declared⟩, 0⟩

/-- An object with its properties in another order, inside and out, is equal to itself, if what it
holds is; with a double that is not a number in it, it is not.  Functions that share a body are
equal under other names, and functions that share a name are not. -/
theorem equality_lawful_reordered :
    (nestedObject .null).Proper ∧ (nestedObject (.number (0 / 0))).Proper ∧
    (reorderedObject .null).equal (nestedObject .null) = true ∧
    (nestedObject (.number (0 / 0))).HoldsNaN ∧
    (emptyFunction "f" "f").equal (emptyFunction "g" "f") = true ∧
    (emptyFunction "f" "f").equal (emptyFunction "f" "g") ≠ true := by
  have hnull : (nestedObject .null).Proper := nestedObject_proper (.of_properties_eq_nil rfl)
  have hnan : (nestedObject (.number (0 / 0))).Proper :=
    nestedObject_proper (.of_properties_eq_nil rfl)
  have hreordered : (nestedObject .null).Rearranged (reorderedObject .null) := by
    refine .trans (.reorder (.swap _ _ [])) ?_
    exact @Value.Rearranged.inside [] _ _ _ _ (.reorder (.swap _ _ []))
  obtain ⟨-, -, horder, -⟩ := equality_lawful hnull hnull
  obtain ⟨-, -, -, hself, -⟩ := equality_lawful hnan hnan
  have hfunction (name declared : String) : (emptyFunction name declared).Proper :=
    .of_properties_eq_nil rfl
  obtain ⟨-, -, -, -, -, -, -, -, hshared, -⟩ :=
    equality_lawful (hfunction "f" "f") (hfunction "g" "f")
  obtain ⟨-, -, -, -, -, -, -, -, hapart, -⟩ :=
    equality_lawful (hfunction "f" "f") (hfunction "f" "g")
  refine ⟨hnull, hnan, ?_, ?_, (hshared _ _ rfl rfl).mpr ⟨rfl, rfl⟩, ?_⟩
  · rw [horder _ _ hreordered (.refl _)]
    decide
  · by_contra hno
    have hequal := hself.mpr hno
    revert hequal
    decide
  · intro hequal
    obtain ⟨hbody, -⟩ := (hapart _ _ rfl rfl).mp hequal
    revert hbody
    decide

end TreeScript
