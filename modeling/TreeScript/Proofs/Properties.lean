import TreeScript.Proofs.Accord
import TreeScript.Proofs.Literals
import TreeScript.Proofs.Steps

/-!
# Proofs — no key comes twice in an object

Scripts make objects from literals, in which a later entry of a key takes the place of an earlier
one; so no key comes twice in any object that a run gets hold of, at whatever depth it lies in
others (`Value.Proper`).  A run that starts with such values bound in its scopes yields such a value
and leaves such values bound (`evaluateWithin_proper`), if the functions of the host do not bring in
others (`HostFunction.Proper`); `print` and `time` do not (`runProgram_proper`).

The statement is an invariant of one run, and is proved as two equal runs that follow each other
from stores that satisfy it (`Run.Follows`).
-/

namespace TreeScript

/-! ### Proper values -/

namespace Value

/-- What an object holds; any other value holds nothing. -/
def properties : Value → List (String × Value)
  | object properties => properties
  | _ => []

/-- In no object of the value, at whatever depth, does a key come twice. -/
inductive Proper : Value → Prop where
  | intro {v : Value} : (v.properties.map (·.1)).Nodup → (∀ p ∈ v.properties, Proper p.2) → Proper v

/-- Only objects can be other than proper. -/
theorem Proper.of_properties_eq_nil {v : Value} (h : v.properties = []) : v.Proper := by
  refine ⟨?_, ?_⟩ <;> rw [h]
  · exact List.nodup_nil
  · nofun

/-- An object that is built of entries is proper if their values are, also where keys come twice. -/
theorem ofEntries_proper {entries : List (String × Value)} (h : ∀ entry ∈ entries, entry.2.Proper) :
    (ofEntries entries).Proper :=
  ⟨nodup_keys_propertiesOf entries, fun p hp => h p (mem_propertiesOf hp)⟩

/-- A property that is found is one of the object. -/
theorem mem_of_property? {p : List (String × Value)} {key : String} {v : Value}
    (h : property? p key = some v) : (key, v) ∈ p := by
  obtain ⟨before, after, rfl, -⟩ := List.lookup_eq_some_iff.mp h
  simp

/-- What a proper object holds is proper. -/
theorem Proper.member {subject v : Value} {key : String} (hsubject : subject.Proper)
    (h : subject.member key = .ok v) : v.Proper := by
  obtain ⟨-, heach⟩ := hsubject
  simp only [Value.member] at h
  split at h
  · split at h <;> cases h
    rename_i p _ hv
    exact heach (key, v) (mem_of_property? hv)
  · cases h

/-- The operators make no objects. -/
theorem proper_apply {op : BinaryOp} {policy : Policy} {left right v : Value}
    (h : op.apply policy left right = .ok v) : v.Proper := by
  refine .of_properties_eq_nil ?_
  simp only [BinaryOp.apply] at h
  split at h
  · cases hn : op.onNumbers policy.zeroDivision _ _ <;> rw [hn] at h <;> cases h
    rfl
  · cases hs : op.onStrings _ _ <;> rw [hs] at h <;> cases h
    rfl
  · split at h <;> cases h
    rfl

/-- Comparisons make none either. -/
theorem proper_compare {op : ComparisonOp} {left right v : Value}
    (h : op.apply left right = .ok v) : v.Proper := by
  refine .of_properties_eq_nil ?_
  simp only [ComparisonOp.apply] at h
  cases hc : left.compare right <;> rw [hc] at h <;> cases h
  rfl

end Value

/-! ### Proper stores -/

namespace Store

/-- Every value bound in the store is proper. -/
def Proper (store : Store) : Prop :=
  ∀ id scope binding, store.scope? id = some scope → binding ∈ scope.bindings → binding.value.Proper

namespace Proper

variable {store store' : Store} {id : ScopeId} {name : String} {v : Value}

/-- Names of a proper store mean proper values. -/
theorem lookup (h : store.Proper) (hv : store.lookup id name = .ok v) : v.Proper := by
  simp only [Store.lookup] at hv
  split at hv <;> cases hv
  rename_i b hb
  obtain ⟨owner, -, hb⟩ := Option.bind_eq_some_iff.mp hb
  obtain ⟨scope, hscope, hfind⟩ := Option.bind_eq_some_iff.mp hb
  exact h owner scope b hscope (List.mem_of_find?_eq_some hfind)

/-- A change of one scope that binds only proper values. -/
theorem modify (h : store.Proper) (f : Scope → Scope)
    (hbindings : ∀ scope, ∀ b ∈ (f scope).bindings, b ∈ scope.bindings ∨ b.value.Proper) :
    (Store.mk (store.scopes.modify id f)).Proper := by
  intro k scope b hscope hb
  rw [scope?_modify] at hscope
  split at hscope
  · obtain ⟨inner, hinner, rfl⟩ := Option.map_eq_some_iff.mp hscope
    rcases hbindings inner b hb with hb | hproper
    · exact h k inner b hinner hb
    · exact hproper
  · exact h k scope b hscope hb

/-- Declaring a proper value keeps the store proper. -/
theorem declare (h : store.Proper) (hv : v.Proper) {mutability : Mutability}
    (hd : store.declare id name v mutability = .ok store') : store'.Proper := by
  obtain ⟨-, rfl⟩ := declare_eq_ok hd
  refine h.modify _ fun scope b hb => ?_
  rcases List.mem_append.mp hb with hb | hb
  · exact .inl hb
  · rw [List.mem_singleton.mp hb]
    exact .inr hv

/-- So does assigning one. -/
theorem assign (h : store.Proper) (hv : v.Proper) (ha : store.assign id name v = .ok store') :
    store'.Proper := by
  obtain ⟨owner, _, _, -, -, -, -, rfl⟩ := assign_eq_ok ha
  refine h.modify _ fun scope b hb => ?_
  obtain ⟨old, hold, rfl⟩ := List.mem_map.mp hb
  split
  · exact .inr hv
  · exact .inl hold

/-- A new scope binds nothing. -/
theorem push (h : store.Proper) (parent : Option ScopeId) :
    (Store.mk (store.scopes.push ⟨[], parent⟩)).Proper := by
  intro k scope b hscope hb
  rw [scope?_push] at hscope
  split at hscope
  · cases hscope
    cases hb
  · exact h k scope b hscope hb

end Proper

end Store

/-! ### Functions of the host -/

/-- The function brings in no value that is not proper. -/
def HostFunction.Proper (function : HostFunction) : Prop :=
  ∀ values scope world, world.store.Proper → (∀ v ∈ values, v.Proper) →
    (function values scope world).2.store.Proper ∧
      ∀ v, (function values scope world).1 = .ok v → v.Proper

/-- No function of the host brings in a value that is not proper. -/
def Host.Proper (host : Host) : Prop := ∀ function ∈ host.functions, function.Proper

theorem Host.Proper.call {host : Host} (h : host.Proper) (native : Native) :
    HostFunction.Proper (host.call native) := by
  intro values scope world hstore hvalues
  simp only [Host.call]
  split
  · exact h _ (Array.mem_of_getElem? ‹_›) values scope world hstore hvalues
  · refine ⟨hstore, ?_⟩
    rintro v ⟨⟩
    exact .of_properties_eq_nil rfl

/-- Printing yields null. -/
theorem HostFunction.print_proper (sink : Sink) : (print sink).Proper := by
  refine fun _ _ _ hstore _ => ⟨hstore, ?_⟩
  rintro v ⟨⟩
  exact .of_properties_eq_nil rfl

/-- The time is a number. -/
theorem HostFunction.time_proper : time.Proper := by
  refine fun _ _ _ hstore _ => ⟨hstore, ?_⟩
  rintro v ⟨⟩
  exact .of_properties_eq_nil rfl

/-! ### The invariant of a run -/

/-- Lists whose members are one and the same, each with the property, are one list. -/
theorem eq_and_forall_of_forall₂ {α : Type} {P : α → Prop} {l l' : List α}
    (h : List.Forall₂ (fun a b => a = b ∧ P a) l l') : l = l' ∧ ∀ a ∈ l, P a := by
  induction h with
  | nil => simp
  | cons hab _ ih =>
      obtain ⟨rfl, ha⟩ := hab
      obtain ⟨rfl, ih⟩ := ih
      exact ⟨rfl, List.forall_mem_cons.mpr ⟨ha, ih⟩⟩

/-- The two values are one, and it is proper. -/
def Value.SameProper (v v' : Value) : Prop := v = v' ∧ v.Proper

namespace Run

/-- From one state in which every value bound is proper, `x` and `y` come to one such state, and to
one failure or values that `R` relates. -/
abbrev FollowsProper (α : Type) (R : α → α → Prop) (x y : Run α) : Prop :=
  Follows (fun _ _ : Unit => True) (fun _ s t => s = t ∧ s.world.store.Proper) α () (fun _ => R) x y

theorem FollowsProper.bind {α β : Type} {R : α → α → Prop} {Q : β → β → Prop} {x y : Run α}
    {f g : α → Run β} (hx : FollowsProper α R x y)
    (hf : ∀ a b, R a b → FollowsProper β Q (f a) (g b)) :
    FollowsProper β Q (x >>= f) (y >>= g) :=
  Follows.bind (fun _ _ _ _ _ => trivial) hx fun _ a b _ => hf a b

/-- A change that binds only proper values. -/
theorem followsProper_update {change : Store → Except Fault Store}
    (hchange : ∀ store store', store.Proper → change store = .ok store' → store'.Proper) :
    FollowsProper Unit (fun _ _ => True) (Run.update change) (Run.update change) := by
  refine .update trivial ?_
  rintro s _ ⟨rfl, hs⟩
  cases hstore : change s.world.store with
  | error fault => exact .inl ⟨fault, rfl, rfl⟩
  | ok store => exact .inr ⟨(), store, store, trivial, rfl, rfl, rfl, hchange _ _ hs hstore⟩

/-- A run keeps to proper values when it declares one. -/
theorem followsProper_declare {scope : ScopeId} {name : String} {v : Value} (hv : v.Proper)
    (mutability : Mutability) :
    FollowsProper Value Value.SameProper (declareIn scope name v mutability)
      (declareIn scope name v mutability) :=
  .bind (followsProper_update fun _ _ hstore => hstore.declare hv) fun _ _ _ =>
    .pure trivial ⟨rfl, hv⟩

/-- So it does when it assigns one. -/
theorem followsProper_assign {scope : ScopeId} {name : String} {v : Value} (hv : v.Proper) :
    FollowsProper Value Value.SameProper (assignIn scope name v) (assignIn scope name v) :=
  .bind (followsProper_update fun _ _ hstore => hstore.assign hv) fun _ _ _ =>
    .pure trivial ⟨rfl, hv⟩

/-- So it does when it looks a name up. -/
theorem followsProper_lookup (scope : ScopeId) (name : String) :
    FollowsProper Value Value.SameProper (Run.query fun store => store.lookup scope name)
      (Run.query fun store => store.lookup scope name) := by
  refine .query trivial ?_
  rintro s _ ⟨rfl, hs⟩
  exact ⟨rfl, fun v hv => ⟨rfl, hs.lookup hv⟩⟩

theorem followsProper_newScope (parent : Option ScopeId) :
    FollowsProper ScopeId Eq (Run.newScope parent) (Run.newScope parent) := by
  rintro s _ ⟨rfl, hs⟩ r s' ⟨⟩
  exact ⟨(), _, _, trivial, rfl, ⟨rfl, hs.push parent⟩, .ok rfl⟩

end Run

section Evaluation

variable {config : Config}

/-- Calls with proper arguments keep to proper values. -/
def Caller.Proper (call : Caller) : Prop :=
  ∀ closure values span, (∀ v ∈ values, v.Proper) →
    Run.FollowsProper Value Value.SameProper (call closure values span) (call closure values span)

/-- Calls of any value keep to proper values, if those of closures do. -/
theorem applyValue_followsProper (hhost : config.host.Proper) {call : Caller}
    (hcall : Caller.Proper call) (scope : ScopeId) (f : Value) {values : List Value}
    (hvalues : ∀ v ∈ values, v.Proper) (span : Span) :
    Run.FollowsProper Value Value.SameProper (applyValue config call scope f values span)
      (applyValue config call scope f values span) := by
  cases f with
  | native native =>
      show Run.FollowsProper Value _ (Run.act (config.host.call native values scope)) _
      refine .act ?_
      rintro s _ ⟨rfl, hs⟩
      obtain ⟨hstore, hv⟩ := hhost.call native values scope s.world hs hvalues
      exact ⟨(), trivial, rfl, ⟨rfl, hstore⟩, fun v h => ⟨rfl, hv v h⟩⟩
  | function closure => exact hcall closure values span hvalues
  | number | string | bool | null | object =>
      show Run.FollowsProper Value _ (Run.ofExcept (.error (.notCallable _))) _
      exact .ofExcept trivial (by rintro _ ⟨⟩)

/-- **All nodes keep to proper values**, if the calls in them do. -/
theorem corresponds_proper (hhost : config.host.Proper) {call : Caller}
    (hcall : Caller.Proper call) (scope : ScopeId) :
    Corresponds (W := Unit) (fun _ _ => True) config config call call scope scope Eq
      (fun _ => Value.SameProper) (fun α _ R x y => Run.FollowsProper α (R ()) x y) where
  alike := by
    rintro n _ rfl
    exact .refl (fun _ => rfl) n
  mono _ hv := hv
  pure hab := .pure trivial hab
  bind hx hf := .bind hx fun a b => hf () a b trivial
  located := by
    rintro α w R n _ s s' x y rfl rfl rfl hx
    exact .located _ hx
  null _ := ⟨rfl, .of_properties_eq_nil rfl⟩
  number _ _ := ⟨rfl, .of_properties_eq_nil rfl⟩
  string _ _ := ⟨rfl, .of_properties_eq_nil rfl⟩
  object := by
    intro w entries entries' hentries
    have hpairs : List.Forall₂ (fun a b => a = b ∧ a.2.Proper) entries entries' :=
      hentries.imp fun a b ⟨hkey, hvalue, hproper⟩ => ⟨Prod.ext hkey hvalue, hproper⟩
    obtain ⟨rfl, hproper⟩ := eq_and_forall_of_forall₂ hpairs
    exact ⟨rfl, Value.ofEntries_proper hproper⟩
  identifier _ _ := Run.followsProper_lookup _ _
  short _ _ _ := Run.followsProper_lookup _ _
  declaration := by
    rintro constant name n n' s s' w v _ - ⟨rfl, hv⟩
    exact Run.followsProper_declare hv _
  function := by
    rintro name parameters body body' s s' w heq
    cases heq
    exact Run.followsProper_declare (.of_properties_eq_nil rfl) _
  target := by
    rintro target target' n n' s s' w heq
    cases heq
    exact .located _ (.ofExcept trivial fun name hname => ⟨hname, hname⟩)
  assignment := by
    rintro target target' n n' s s' name name' w v _ heq ht ht' ⟨rfl, hv⟩
    cases heq
    cases ht.symm.trans ht'
    exact Run.followsProper_assign hv
  binary := by
    rintro op w l _ r _ ⟨rfl, -⟩ ⟨rfl, -⟩
    exact .ofExcept trivial fun v hv => ⟨rfl, Value.proper_apply hv⟩
  comparison := by
    rintro op w l _ r _ ⟨rfl, -⟩ ⟨rfl, -⟩
    exact .ofExcept trivial fun v hv => ⟨rfl, Value.proper_compare hv⟩
  member := by
    rintro key w v _ ⟨rfl, hv⟩
    exact .ofExcept trivial fun _ h => ⟨rfl, hv.member h⟩
  condition := by
    rintro w v _ ⟨rfl, -⟩
    exact .ofExcept trivial fun _ _ => rfl
  apply := by
    rintro n n' ns ns' s s' w f _ as as' heq ⟨rfl, -⟩ has
    cases heq
    obtain ⟨rfl, hproper⟩ := eq_and_forall_of_forall₂ has
    exact applyValue_followsProper hhost hcall scope f hproper s
  property := by
    rintro entry entry' s s' w heq
    cases heq
    rw [evalNode]
    exact .located _ (.ofExcept trivial (by rintro _ ⟨⟩))

/-- Parameters are bound to proper values: to the arguments, or to null. -/
theorem bindParameters_followsProper (scope : ScopeId) :
    ∀ (names : List String) (values : List Value), (∀ v ∈ values, v.Proper) →
      Run.FollowsProper Unit (fun _ _ => True) (bindParameters scope names values)
        (bindParameters scope names values)
  | [], _, _ => .pure trivial trivial
  | _ :: names, [], h =>
      .bind (Run.followsProper_declare (.of_properties_eq_nil rfl) _) fun _ _ _ =>
        bindParameters_followsProper scope names [] h
  | _ :: names, v :: values, h => by
      obtain ⟨hv, hvalues⟩ := List.forall_mem_cons.mp h
      exact .bind (Run.followsProper_declare hv _) fun _ _ _ =>
        bindParameters_followsProper scope names values hvalues

/-- **Calls keep to proper values**, whatever their budget. -/
theorem callClosure_followsProper (hhost : config.host.Proper) (budget : Nat) :
    Caller.Proper (callClosure config budget) := by
  induction budget with
  | zero => rintro closure values span - s t - r s' ⟨⟩
  | succ budget ih =>
      intro closure values span hvalues
      simp only [callClosure, enterClosure]
      split
      · exact .ofExcept trivial (by rintro _ ⟨⟩)
      · refine .bind (Run.followsProper_newScope _) ?_
        rintro scope _ rfl
        refine .bind (bindParameters_followsProper scope closure.parameters values hvalues)
          fun _ _ _ => .pushFrame_framed trivial ?_ ?_ _ _ _ ?_
        · rintro _ s _ ⟨rfl, -⟩
          rfl
        · rintro _ s _ stack ⟨rfl, hs⟩
          exact ⟨rfl, hs⟩
        · rw [Run.spread_eq]
          exact (corresponds_proper hhost ih scope).evalBlock _ _ () _ _
            (List.forall₂_same.mpr fun _ _ => rfl) ⟨rfl, .of_properties_eq_nil rfl⟩

/-- **No key comes twice in an object of a run.**  If the values bound at its start are proper, and
the host brings in no others, then so are its value and the values bound at its end. -/
theorem evaluateWithin_proper (hhost : config.host.Proper) (budget : Nat) (scope : ScopeId)
    (node : Node) {s s' : State} {r : Except Failure Value} (hs : s.world.store.Proper)
    (h : evaluateWithin config budget scope node s = some (r, s')) :
    s'.world.store.Proper ∧ ∀ v, r = .ok v → v.Proper := by
  have hcall := callClosure_followsProper hhost budget
  have hfollows := (corresponds_proper hhost hcall scope).evalNode node node () rfl
  obtain ⟨_, r', _, -, -, ⟨rfl, hs'⟩, hr⟩ := hfollows s s ⟨rfl, hs⟩ r s' h
  refine ⟨hs', ?_⟩
  rintro v rfl
  cases hr with
  | ok hv => exact hv.2

end Evaluation

/-! ### Programs -/

/-- A global scope binds no objects. -/
theorem newGlobals_proper (policy : Policy) (sink : Sink) (clock : Clock) :
    ((Session.start policy sink clock).newGlobals sink).2.store.Proper := by
  intro id scope b hscope hb
  obtain ⟨hlt, hscope⟩ := Array.getElem?_eq_some_iff.mp hscope
  obtain rfl : id = 0 := Nat.lt_one_iff.mp hlt
  subst hscope
  change b ∈ Session.globalBindings ⟨"print", 0⟩ ⟨"time", 1⟩ at hb
  simp only [Session.globalBindings, List.mem_cons, List.not_mem_nil, or_false] at hb
  rcases hb with rfl | rfl | rfl | rfl | rfl <;> exact .of_properties_eq_nil rfl

/-- So the value of a program is proper, whatever the program. -/
theorem runProgram_proper {policy : Policy} {sink : Sink} {clock : Clock} {program : Node}
    {r : Except Failure Value} {session : Session}
    (h : runProgram policy sink clock program = some (r, session)) :
    session.store.Proper ∧ ∀ v, r = .ok v → v.Proper := by
  obtain ⟨s', hrun, rfl⟩ := Session.perform_eq_some.mp h
  refine evaluateWithin_proper ?_ _ _ _ (newGlobals_proper policy sink clock) hrun
  intro function hfunction
  change function ∈ #[HostFunction.print sink, HostFunction.time] at hfunction
  rcases (by simpa using hfunction : function = .print sink ∨ function = .time) with rfl | rfl
  · exact HostFunction.print_proper sink
  · exact HostFunction.time_proper

end TreeScript
