import TreeScript.Proofs.Simulation
import TreeScript.Proofs.Steps

/-!
# Proofs — one run stops where the other goes on

Two configurations that differ only in what they refuse take the same steps, from one state, until
the stricter one refuses something that the other admits.  There the stricter run fails, since
nothing in a script catches a failure, and the other goes on.  So either both runs end alike, or the
stricter one fails with one of the faults that it alone raises, and what it has printed by then is
at the front of what the other one prints in all.

`Run.Curtails` says this of two computations, for the faults `G`.  A computation that goes on after
the other has stopped must not take back what was printed, so the relation says that of the second
computation as well, as far as the functions of the host only append to the output.
`Config.Curtails` lists the three places where the two configurations may differ, and
`Config.Curtails.evaluateWithin` derives the relation for every node and every budget of nested
calls.
-/

namespace TreeScript

/-! ### What is printed stays -/

/-- What was printed before is at the front of what is printed after. -/
def Output.Precedes (before after : Output) : Prop := ∃ text, after = before.append text

theorem Output.Precedes.refl (output : Output) : output.Precedes output :=
  ⟨.empty, output.append_empty.symm⟩

theorem Output.Precedes.trans {a b c : Output} (h₁ : a.Precedes b) (h₂ : b.Precedes c) :
    a.Precedes c := by
  obtain ⟨text, rfl⟩ := h₁
  obtain ⟨text', rfl⟩ := h₂
  exact ⟨text.append text', a.append_assoc text text'⟩

/-- The function leaves what was printed at the front of what it prints. -/
def HostFunction.Appends (function : HostFunction) : Prop :=
  ∀ (values : List Value) (scope : ScopeId) (world : World),
    world.output.Precedes (function values scope world).2.output

/-- Printing appends to what is printed. -/
theorem HostFunction.print_appends (sink : Sink) : (print sink).Appends := by
  intro values scope world
  refine ⟨Output.empty.write (Value.printLine values ++ "\n") sink, ?_⟩
  cases sink <;> simp [print, Output.write, Output.append, Output.empty]

theorem HostFunction.time_appends : time.Appends := fun _ _ world => .refl world.output

/-- All functions of the host append. -/
def Host.Appends (host : Host) : Prop := ∀ function ∈ host.functions, function.Appends

/-- If the host appends, the output after a computation continues that before it. -/
def Host.Prints (host : Host) (s s' : State) : Prop :=
  host.Appends → s.world.output.Precedes s'.world.output

/-- Every run prints at the end of what is printed. -/
theorem prints_pervade (config : Config) : Pervades config (Run.Keeps config.host.Prints) := by
  refine Run.keeps_pervades (fun _ _ => .refl _) (fun _ _ _ h₁ h₂ h => (h₁ h).trans (h₂ h))
    ?_ ?_ ?_ ?_ ?_
  · exact fun s _ _ _ _ _ _ _ => .refl s.world.output
  · exact fun s _ _ _ _ _ _ => .refl s.world.output
  · intro s native values scope happends
    simp only [Host.call]
    split
    · exact happends _ (Array.mem_of_getElem? ‹_›) values scope s.world
    · exact .refl _
  · exact fun s _ _ => .refl s.world.output
  · exact fun _ _ _ _ _ hs => hs

/-! ### Computations cut short -/

/-- The two results are the same, or the first is a fault of `G`. -/
def Refuses {α : Type} (G : Fault → Prop) (a b : Except Fault α) : Prop :=
  a = b ∨ ∃ fault, a = .error fault ∧ G fault

/-- Wherever `x` ends, `y` ends in the same state, with results that `R` relates; or `x` stops with
a fault of `G`, and if `y` ends as well, it has printed at least as much.  And `y` prints only at
the end of what is printed. -/
structure Run.Curtails (host : Host) (G : Fault → Prop) (α : Type) (R : α → α → Prop)
    (x y : Run α) : Prop where
  ends {s s' : State} {r : Except Failure α} : x s = some (r, s') →
    (∃ r', y s = some (r', s') ∧ Results R r r') ∨
      ∃ failure, r = .error failure ∧ G failure.fault ∧
        ∀ r' t', y s = some (r', t') → host.Prints s' t'
  prints : Run.Keeps host.Prints α (fun b => ∃ a, R a b) y

namespace Run.Curtails

variable {host : Host} {G : Fault → Prop} {α β : Type} {R : α → α → Prop} {Q : β → β → Prop}

/-- A computation that prints at the end is cut short by itself, at its end. -/
theorem refl {P : α → Prop} {x : Run α} (hx : Run.Keeps host.Prints α P x)
    (hR : ∀ a, P a → R a a) : Curtails host G α R x x where
  ends {s s' r} h := by
    refine .inl ⟨r, h, ?_⟩
    cases r with
    | ok a => exact .ok (hR a ((hx _ _ _ h).2 a rfl))
    | error failure => exact .error failure
  prints s r s' h := ⟨(hx s r s' h).1, fun a ha => ⟨a, hR a ((hx s r s' h).2 a ha)⟩⟩

theorem composes : Composes (Run.Keeps host.Prints) :=
  Run.keeps_composes (fun _ _ => .refl _) fun _ _ _ h₁ h₂ h => (h₁ h).trans (h₂ h)

theorem pure {a b : α} (hab : R a b) : Curtails host G α R (Pure.pure a) (Pure.pure b) where
  ends := by rintro s s' r ⟨⟩; exact .inl ⟨.ok b, rfl, .ok hab⟩
  prints := composes.pure ⟨a, hab⟩

theorem bind {x y : Run α} {f g : α → Run β} (hx : Curtails host G α R x y)
    (hf : ∀ a b, R a b → Curtails host G β Q (f a) (g b)) :
    Curtails host G β Q (x >>= f) (y >>= g) where
  ends {s s' r} h := by
    rcases Run.bind_eq_some.mp h with ⟨failure, h₁, rfl⟩ | ⟨a, s₁, h₁, h₂⟩
    · rcases hx.ends h₁ with ⟨r', hy, hr⟩ | ⟨_, ⟨⟩, hG, hy⟩
      · cases hr
        exact .inl ⟨_, Run.bind_eq_some.mpr (.inl ⟨failure, hy, rfl⟩), .error failure⟩
      · refine .inr ⟨failure, rfl, hG, fun r' t' h' => ?_⟩
        -- `x` has stopped, and whatever follows `y` prints after what `y` has printed
        rcases Run.bind_eq_some.mp h' with ⟨_, hy', -⟩ | ⟨b, t₁, hy', hg⟩
        · exact hy _ _ hy'
        · obtain ⟨a, hab⟩ := (hx.prints _ _ _ hy').2 b rfl
          exact fun h => (hy _ _ hy' h).trans (((hf a b hab).prints _ _ _ hg).1 h)
    · rcases hx.ends h₁ with ⟨r', hy, hr⟩ | ⟨_, ⟨⟩, -⟩
      cases hr with
      | @ok _ b hab =>
          rcases (hf a b hab).ends h₂ with ⟨r', hg, hr⟩ | ⟨failure, rfl, hG, hg⟩
          · exact .inl ⟨r', Run.bind_eq_some.mpr (.inr ⟨b, s₁, hy, hg⟩), hr⟩
          · refine .inr ⟨failure, rfl, hG, fun r' t' h' => ?_⟩
            rcases Run.bind_eq_some.mp h' with ⟨_, hy', -⟩ | ⟨b', t₁, hy', hg'⟩
            · rw [hy] at hy'; cases hy'
            · rw [hy] at hy'; cases hy'
              exact hg _ _ hg'
  prints := composes.bind hx.prints fun b ⟨a, hab⟩ => (hf a b hab).prints

theorem located (span : Span) {x y : Run α} (hx : Curtails host G α R x y) :
    Curtails host G α R (Run.located span x) (Run.located span y) where
  ends {s s' r} h := by
    rcases Run.located_eq_some.mp h with ⟨failure, h₁, rfl⟩ | ⟨a, h₁, rfl⟩
    · rcases hx.ends h₁ with ⟨r', hy, hr⟩ | ⟨_, ⟨⟩, hG, hy⟩
      · cases hr
        exact .inl ⟨_, Run.located_eq_some.mpr (.inl ⟨failure, hy, rfl⟩), .error _⟩
      · refine .inr ⟨_, rfl, hG, fun r' t' h' => ?_⟩
        rcases Run.located_eq_some.mp h' with ⟨_, hy', -⟩ | ⟨_, hy', -⟩ <;> exact hy _ _ hy'
    · rcases hx.ends h₁ with ⟨r', hy, hr⟩ | ⟨_, ⟨⟩, -⟩
      cases hr with
      | ok hab => exact .inl ⟨_, Run.located_eq_some.mpr (.inr ⟨_, hy, rfl⟩), .ok hab⟩
  prints := composes.located span hx.prints

/-- A computation that fails with a fault of `G` at once cuts everything short. -/
theorem refused (failure : Failure) (hG : G failure.fault) {x y : Run α} {s : State}
    (hx : x s = some (.error failure, s))
    (hy : Run.Keeps host.Prints α (fun b => ∃ a, R a b) y) {s' : State} {r : Except Failure α}
    (h : x s = some (r, s')) :
    ∃ failure, r = .error failure ∧ G failure.fault ∧
      ∀ r' t', y s = some (r', t') → host.Prints s' t' := by
  rw [hx] at h
  cases h
  exact ⟨failure, rfl, hG, fun r' t' h' => (hy _ _ _ h').1⟩

/-- An answer that is refused cuts a run short, and any other is the same on both sides. -/
theorem ofExcept {a b : Except Fault α} (hab : Refuses G a b)
    (hR : ∀ v, R v v) : Curtails host G α R (Run.ofExcept a) (Run.ofExcept b) := by
  have hb : Run.Keeps host.Prints α (fun b => ∃ a, R a b) (Run.ofExcept b) :=
    composes.ofExcept fun v _ => ⟨v, hR v⟩
  rcases hab with rfl | ⟨fault, rfl, hG⟩
  · exact .refl (composes.ofExcept (P := fun _ => True) fun _ _ => trivial) fun v _ => hR v
  · exact ⟨fun h => .inr (refused { fault := fault } hG rfl hb h), hb⟩

/-- A call runs bodies of which one cuts the other short, or is refused. -/
theorem pushFrame_framed {config : Config} (hhost : config.host = host) {limit : Option Nat}
    {frame : Frame} (span : Span)
    (hpush : ∀ stack : CallStack,
      Refuses G (stack.push limit frame) (stack.push config.policy.maxCallDepth frame))
    {x y : Run Value} (hx : Curtails host G Value Eq x y) :
    Curtails host G Value Eq (do Run.located span (Run.pushFrame limit frame); Run.framed x)
      (do Run.located span (Run.pushFrame config.policy.maxCallDepth frame); Run.framed y) := by
  have hprints : Run.Keeps host.Prints Value (fun b => ∃ a, a = b)
      (do Run.located span (Run.pushFrame config.policy.maxCallDepth frame); Run.framed y) :=
    composes.weaken (fun b _ => ⟨b, rfl⟩)
      ((hhost ▸ prints_pervade config).framed span frame
        (composes.weaken (fun _ _ => trivial) hx.prints))
  refine ⟨fun {s s' r} h => ?_, hprints⟩
  rcases hpush s.stack with hsame | ⟨fault, hfault, hG⟩
  · rw [Run.pushFrame_framed_apply, hsame] at h
    rw [Run.pushFrame_framed_apply]
    cases hp : s.stack.push config.policy.maxCallDepth frame with
    | error fault =>
        simp only [hp] at h
        cases h
        exact .inl ⟨_, rfl, .error _⟩
    | ok pushed =>
        simp only [hp, Run.framed_apply, Option.map_eq_some_iff] at h ⊢
        obtain ⟨⟨r₁, s₁⟩, h₁, h₂⟩ := h
        cases h₂
        rcases hx.ends h₁ with ⟨r', hy, hr⟩ | ⟨failure, rfl, hG, hy⟩
        · -- the bodies end with one stack, so with one backtrace
          refine .inl ⟨_, ⟨(r', s₁), hy, rfl⟩, ?_⟩
          cases hr with
          | ok hab => exact .ok hab
          | error failure => exact .error _
        · refine .inr ⟨_, rfl, ?_, ?_⟩
          · rwa [CallStack.attachBacktrace_fault]
          · rintro _ _ ⟨⟨r', t₁⟩, hy', ⟨⟩⟩
            exact hy r' t₁ hy'
  · refine .inr (refused (Failure.orSpan span { fault := fault }) hG ?_ hprints h)
    rw [Run.pushFrame_framed_apply, hfault]

end Run.Curtails

/-! ### Evaluations cut short -/

/-- The configuration `c` refuses, beyond what `d` refuses, only with faults of `G`: in operators,
in calls with a wrong number of arguments, and in calls on a full stack.  Both have one host. -/
structure Config.Curtails (G : Fault → Prop) (c d : Config) : Prop where
  host : c.host = d.host
  binary (op : BinaryOp) (l r : Value) : Refuses G (op.apply c.policy l r) (op.apply d.policy l r)
  arity : c.policy.arity = d.policy.arity ∨
    c.policy.arity = .strict ∧ ∀ name expected got, G (.arityMismatch name expected got)
  push (stack : CallStack) (frame : Frame) :
    Refuses G (stack.push c.policy.maxCallDepth frame) (stack.push d.policy.maxCallDepth frame)

namespace Config.Curtails

variable {G : Fault → Prop} {c d : Config} {scope : ScopeId}

open Run.Curtails (composes)

/-- Calls are curtailed if those of closures are. -/
theorem applyValue (h : Config.Curtails G c d) {call call' : Caller}
    (hcall : ∀ closure values span,
      Run.Curtails d.host G Value Eq (call closure values span) (call' closure values span))
    (f : Value) (values : List Value) (span : Span) :
    Run.Curtails d.host G Value Eq (TreeScript.applyValue c call scope f values span)
      (TreeScript.applyValue d call' scope f values span) := by
  cases f with
  | native native =>
      simp only [TreeScript.applyValue, h.host]
      exact .refl ((prints_pervade d).native native values scope) fun _ _ => rfl
  | function closure => exact hcall closure values span
  | number | string | bool | null | object =>
      simp only [TreeScript.applyValue]
      exact .ofExcept (.inl rfl) fun _ => rfl

/-- Callers of which one cuts the other short make such evaluations. -/
theorem corresponds (h : Config.Curtails G c d) {call call' : Caller}
    (hcall : ∀ closure values span,
      Run.Curtails d.host G Value Eq (call closure values span) (call' closure values span)) :
    Corresponds (W := Unit) (fun _ _ => True) c d call call' scope scope Eq (fun _ => Eq)
      (fun α _ R => Run.Curtails d.host G α (R ())) where
  alike := by rintro n _ rfl; exact .refl (fun _ => rfl) n
  mono _ hv := hv
  pure hab := .pure hab
  bind hx hf := hx.bind fun a b hab => hf () a b trivial hab
  located := by rintro α w R n _ s s' x y rfl rfl rfl hx; exact hx.located _
  null _ := rfl
  number _ _ := rfl
  string _ _ := rfl
  object := by
    intro w entries entries' hentries
    have heq : entries = entries' := by
      refine List.forall₂_eq_eq_eq ▸ hentries.imp fun a b hab => Prod.ext hab.1 hab.2
    rw [heq]
  identifier _ _ := .refl (composes.query (P := fun _ => True) fun _ _ _ => trivial) fun _ _ => rfl
  short _ _ _ := .refl (composes.query (P := fun _ => True) fun _ _ _ => trivial) fun _ _ => rfl
  declaration := by
    rintro constant name n n' s s' w v _ hn rfl
    exact .refl ((prints_pervade d).declare scope name v _) fun _ _ => rfl
  function := by
    rintro name parameters body body' s s' w hn
    cases hn
    rw [h.host]
    exact .refl ((prints_pervade d).declare scope name _ _) fun _ _ => rfl
  target := by
    rintro target target' n n' s s' w hn
    cases hn
    exact .located _ (.refl (composes.ofExcept fun _ hname => hname) fun _ hname => ⟨hname, hname⟩)
  assignment := by
    rintro target target' n n' s s' name name' w v _ hn ht ht' rfl
    cases hn
    cases ht.symm.trans ht'
    exact .refl ((prints_pervade d).assign scope name v) fun _ _ => rfl
  binary := by
    rintro op w l _ r _ rfl rfl
    exact .ofExcept (h.binary op l r) fun _ => rfl
  comparison := by
    rintro op w l _ r _ rfl rfl
    exact .ofExcept (.inl rfl) fun _ => rfl
  member := by
    rintro key w v _ rfl
    exact .ofExcept (.inl rfl) fun _ => rfl
  condition := by
    rintro w v _ rfl
    exact .ofExcept (.inl rfl) fun _ => rfl
  apply := by
    rintro n n' ns ns' s s' w f _ as as' hn rfl has
    cases hn
    cases List.forall₂_eq_eq_eq ▸ has
    exact h.applyValue hcall f as s
  property := by
    rintro entry entry' s s' w hn
    cases hn
    rw [evalNode, evalNode]
    exact .located _ (.ofExcept (.inl rfl) fun _ => rfl)

/-- A call of `c` cuts that of `d` short, if their bodies do.  Where `c` alone counts the arguments,
it stops there. -/
theorem enterClosure (h : Config.Curtails G c d) (closure : Closure) (values : List Value)
    (span : Span) {body body' : ScopeId → Run Value}
    (hbody : ∀ scope, Run.Curtails d.host G Value Eq (body scope) (body' scope)) :
    Run.Curtails d.host G Value Eq (TreeScript.enterClosure c.policy closure values span body)
      (TreeScript.enterClosure d.policy closure values span body') := by
  have pervades := prints_pervade d
  have entered : Run.Curtails d.host G Value Eq
      (do let scope ← Run.newScope (some closure.scope)
          bindParameters scope closure.parameters values
          Run.located span (Run.pushFrame c.policy.maxCallDepth (Frame.ofCall closure.name span))
          Run.framed (body scope))
      (do let scope ← Run.newScope (some closure.scope)
          bindParameters scope closure.parameters values
          Run.located span (Run.pushFrame d.policy.maxCallDepth (Frame.ofCall closure.name span))
          Run.framed (body' scope)) := by
    refine .bind (.refl (R := Eq) (pervades.newScope _) fun _ _ => rfl) ?_
    rintro scope _ rfl
    refine .bind (.refl (R := Eq) (pervades.bindParameters (pervades.declare scope · · .mutable)
      closure.parameters values) fun _ _ => rfl) fun _ _ _ => ?_
    exact .pushFrame_framed rfl span (fun stack => h.push stack _) (hbody scope)
  have prints : Run.Keeps d.host.Prints Value (fun b => ∃ a, a = b)
      (TreeScript.enterClosure d.policy closure values span body') :=
    composes.weaken (fun b _ => ⟨b, rfl⟩) (pervades.enterClosure (pervades.newScope _)
      (fun scope name value => pervades.declare scope name value .mutable)
      (fun scope => pervades.framed _ _
        (composes.weaken (fun _ _ => trivial) (hbody scope).prints)) values)
  by_cases hcount : closure.parameters.length = values.length
  · simpa [TreeScript.enterClosure, hcount] using entered
  · rcases h.arity with heq | ⟨hstrict, hG⟩
    · simp only [TreeScript.enterClosure, heq]
      split
      · exact .ofExcept (.inl rfl) fun _ => rfl
      · exact entered
    · let fault := Fault.arityMismatch closure.name closure.parameters.length values.length
      refine ⟨fun {s s' r} hrun => .inr ?_, prints⟩
      refine Run.Curtails.refused { fault := fault } (hG _ _ _) ?_ prints hrun
      rw [TreeScript.enterClosure, if_pos ⟨hstrict, hcount⟩]
      rfl

/-- **A call of `c` cuts that of `d` short**, the budget of `d` being no smaller. -/
theorem callClosure (h : Config.Curtails G c d) {budget budget' : Nat} (hb : budget ≤ budget') :
    ∀ closure values span, Run.Curtails d.host G Value Eq
      (TreeScript.callClosure c budget closure values span)
      (TreeScript.callClosure d budget' closure values span) := by
  induction budget generalizing budget' with
  | zero =>
      intro closure values span
      have prints := (prints_pervade d).callClosure budget' closure values span
      exact ⟨by rintro s s' r ⟨⟩, composes.weaken (fun b _ => ⟨b, rfl⟩) prints⟩
  | succ budget ih =>
      intro closure values span
      obtain ⟨budget', rfl⟩ : ∃ n, budget' = n + 1 := ⟨budget' - 1, by omega⟩
      refine h.enterClosure closure values span fun scope => ?_
      rw [Run.spread_eq, Run.spread_eq]
      have all : List.Forall₂ Eq closure.body closure.body := List.forall₂_same.mpr fun _ _ => rfl
      exact (h.corresponds (ih (by omega))).evalBlock _ _ () _ _ all rfl

/-- **An evaluation under `c` cuts that under `d` short**, the budget of `d` being no smaller. -/
theorem evaluateWithin (h : Config.Curtails G c d) {budget budget' : Nat} (hb : budget ≤ budget')
    (scope : ScopeId) (node : Node) :
    Run.Curtails d.host G Value Eq (TreeScript.evaluateWithin c budget scope node)
      (TreeScript.evaluateWithin d budget' scope node) :=
  (h.corresponds (h.callClosure hb)).evalNode node node () rfl

end Config.Curtails

end TreeScript
