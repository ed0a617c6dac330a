import Mathlib.Data.List.Forall2
import TreeScript.Eval

/-!
# Proofs — evaluations that correspond

`evalNode` is built from few operations: yielding, sequencing, locating a failure, asking and
changing the store in one scope, the operators, and applying a value.  A relation between
computations that these operations respect therefore relates two evaluations of one node, and this
module proves it once, by induction on the node (`Corresponds.evalNode`).

The relation is *indexed*: `rel w R x y` relates `x` and `y` from the index `w` on, and `R w' a b`
relates their values at the index `w'` that they reach.  An index says what has been learnt about
the state so far, and facts about values persist as it grows.  A relation that needs no index takes
`Unit`.

The two evaluations may differ in everything: configuration, caller, scope, and nodes, as long as
these have the same shape (`Node.Alike`).  A property of one evaluation is a relation that ignores
the other one (`Composes`).
-/

namespace TreeScript

/-! ### Nodes of one shape -/

/-- Two entries with one key, both short or with related values. -/
def Entry.Alike (R : Node → Node → Prop) (a b : Entry Node) : Prop :=
  a.key = b.key ∧ Option.Rel R a.value b.value

/-- Two nodes of one shape whose parts are related.  Spans, bodies of functions and targets of
assignments are left open. -/
inductive Node.Alike (R : Node → Node → Prop) : Node → Node → Prop where
  | program {body body' : List Node} {s s' : Span} :
      List.Forall₂ R body body' → Alike R (.program body s) (.program body' s')
  | declaration {constant : Bool} {name : String} {value value' : Option Node} {s s' : Span} :
      Option.Rel R value value' →
        Alike R (.declaration constant name value s) (.declaration constant name value' s')
  | function {name : String} {parameters : List String} {body body' : List Node} {s s' : Span} :
      Alike R (.function name parameters body s) (.function name parameters body' s')
  | assignment {target target' value value' : Node} {s s' : Span} :
      R value value' → Alike R (.assignment target value s) (.assignment target' value' s')
  | binary {left left' right right' : Node} {op : BinaryOp} {s s' : Span} :
      R left left' → R right right' → Alike R (.binary left right op s) (.binary left' right' op s')
  | comparison {left left' right right' : Node} {op : ComparisonOp} {s s' : Span} :
      R left left' → R right right' →
        Alike R (.comparison left right op s) (.comparison left' right' op s')
  | call {callee callee' : Node} {arguments arguments' : List Node} {s s' : Span} :
      R callee callee' → List.Forall₂ R arguments arguments' →
        Alike R (.call callee arguments s) (.call callee' arguments' s')
  | member {subject subject' : Node} {key : String} {s s' : Span} :
      R subject subject' → Alike R (.member subject key s) (.member subject' key s')
  | conditional {condition condition' : Node} {consequent consequent' : List Node}
      {alternative alternative' : Option (List Node)} {s s' : Span} :
      R condition condition' → List.Forall₂ R consequent consequent' →
        Option.Rel (List.Forall₂ R) alternative alternative' →
        Alike R (.conditional condition consequent alternative s)
          (.conditional condition' consequent' alternative' s')
  | identifier {name : String} {s s' : Span} : Alike R (.identifier name s) (.identifier name s')
  | number {value : Float} {s s' : Span} : Alike R (.number value s) (.number value s')
  | string {value : String} {s s' : Span} : Alike R (.string value s) (.string value s')
  | object {entries entries' : List (Entry Node)} {s s' : Span} :
      List.Forall₂ (Entry.Alike R) entries entries' →
        Alike R (.object entries s) (.object entries' s')
  | property {entry entry' : Entry Node} {s s' : Span} :
      Alike R (.property entry s) (.property entry' s')

/-- Every node has the shape of itself. -/
theorem Node.Alike.refl {R : Node → Node → Prop} (hR : ∀ n, R n n) (n : Node) :
    Node.Alike R n n := by
  have all : ∀ nodes : List Node, List.Forall₂ R nodes nodes :=
    fun nodes => List.forall₂_same.mpr fun n _ => hR n
  have option : ∀ o : Option Node, Option.Rel R o o
    | none => .none
    | some n => .some (hR n)
  cases n with
  | program body => exact .program (all body)
  | declaration _ _ value => exact .declaration (option value)
  | function => exact .function
  | assignment _ value => exact .assignment (hR value)
  | binary left right => exact .binary (hR left) (hR right)
  | comparison left right => exact .comparison (hR left) (hR right)
  | call callee arguments => exact .call (hR callee) (all arguments)
  | member subject => exact .member (hR subject)
  | conditional condition consequent alternative =>
      refine .conditional (hR condition) (all consequent) ?_
      cases alternative with
      | none => exact .none
      | some body => exact .some (all body)
  | identifier => exact .identifier
  | number => exact .number
  | string => exact .string
  | object entries =>
      exact .object (List.forall₂_same.mpr fun entry _ => ⟨rfl, option entry.value⟩)
  | property => exact .property

/-! ### Relations that evaluation respects -/

/-- The relation `rel` between computations is respected by what evaluates nodes in the scope `e`
under `c` on the left, and in `e'` under `d` on the right.  `node` says which nodes are compared,
`value` which values, and `le` how an index grows. -/
structure Corresponds {W : Type} (le : W → W → Prop) (c d : Config) (call call' : Caller)
    (e e' : ScopeId) (node : Node → Node → Prop) (value : W → Value → Value → Prop)
    (rel : (α : Type) → W → (W → α → α → Prop) → Run α → Run α → Prop) : Prop where
  alike {n m : Node} : node n m → Node.Alike node n m
  mono {w w' : W} {v v' : Value} : le w w' → value w v v' → value w' v v'
  pure {α : Type} {w : W} {R : W → α → α → Prop} {a b : α} :
    R w a b → rel α w R (Pure.pure a) (Pure.pure b)
  bind {α β : Type} {w : W} {R : W → α → α → Prop} {Q : W → β → β → Prop} {x y : Run α}
    {f g : α → Run β} : rel α w R x y →
      (∀ w' a b, le w w' → R w' a b → rel β w' Q (f a) (g b)) → rel β w Q (x >>= f) (y >>= g)
  located {α : Type} {w : W} {R : W → α → α → Prop} {n m : Node} {s s' : Span} {x y : Run α} :
    node n m → n.span = s → m.span = s' → rel α w R x y →
      rel α w R (Run.located s x) (Run.located s' y)
  null (w : W) : value w .null .null
  number (w : W) (x : Float) : value w (.number x) (.number x)
  string (w : W) (s : String) : value w (.string s) (.string s)
  object {w : W} {entries entries' : List (String × Value)} :
    List.Forall₂ (fun a b => a.1 = b.1 ∧ value w a.2 b.2) entries entries' →
      value w (.ofEntries entries) (.ofEntries entries')
  identifier {name : String} {s s' : Span} (w : W) :
    node (.identifier name s) (.identifier name s') →
      rel Value w value (Run.query fun store => store.lookup e name)
        (Run.query fun store => store.lookup e' name)
  short {entries entries' : List (Entry Node)} {s s' : Span} {key : String} (w : W) :
    node (.object entries s) (.object entries' s') → ⟨key, none⟩ ∈ entries →
      rel Value w value (Run.query fun store => store.lookup e key)
        (Run.query fun store => store.lookup e' key)
  declaration {constant : Bool} {name : String} {n n' : Option Node} {s s' : Span} {w : W}
    {v v' : Value} :
    node (.declaration constant name n s) (.declaration constant name n' s') → value w v v' →
      rel Value w value (declareIn e name v (.ofConstant constant))
        (declareIn e' name v' (.ofConstant constant))
  function {name : String} {parameters : List String} {body body' : List Node} {s s' : Span}
    (w : W) : node (.function name parameters body s) (.function name parameters body' s') →
      rel Value w value
        (declareIn e name (.function ⟨name, parameters, body, c.host.bodyOf e name, e⟩) .constant)
        (declareIn e' name (.function ⟨name, parameters, body', d.host.bodyOf e' name, e'⟩)
          .constant)
  target {target target' n n' : Node} {s s' : Span} (w : W) :
    node (.assignment target n s) (.assignment target' n' s') →
      rel String w
        (fun _ name name' => target.assignable = .ok name ∧ target'.assignable = .ok name')
        (Run.located target.span (Run.ofExcept target.assignable))
        (Run.located target'.span (Run.ofExcept target'.assignable))
  assignment {target target' n n' : Node} {s s' : Span} {name name' : String} {w : W}
    {v v' : Value} : node (.assignment target n s) (.assignment target' n' s') →
      target.assignable = .ok name → target'.assignable = .ok name' → value w v v' →
      rel Value w value (assignIn e name v) (assignIn e' name' v')
  binary {op : BinaryOp} {w : W} {l l' r r' : Value} : value w l l' → value w r r' →
    rel Value w value (Run.ofExcept (op.apply c.policy l r))
      (Run.ofExcept (op.apply d.policy l' r'))
  comparison {op : ComparisonOp} {w : W} {l l' r r' : Value} : value w l l' → value w r r' →
    rel Value w value (Run.ofExcept (op.apply l r)) (Run.ofExcept (op.apply l' r'))
  member {key : String} {w : W} {v v' : Value} : value w v v' →
    rel Value w value (Run.ofExcept (v.member key)) (Run.ofExcept (v'.member key))
  condition {w : W} {v v' : Value} : value w v v' →
    rel Bool w (fun _ b b' => b = b') (Run.ofExcept v.condition) (Run.ofExcept v'.condition)
  apply {n n' : Node} {ns ns' : List Node} {s s' : Span} {w : W} {f f' : Value}
    {as as' : List Value} : node (.call n ns s) (.call n' ns' s') → value w f f' →
      List.Forall₂ (value w) as as' →
      rel Value w value (applyValue c call e f as s) (applyValue d call' e' f' as' s')
  property {entry entry' : Entry Node} {s s' : Span} (w : W) :
    node (.property entry s) (.property entry' s') →
      rel Value w value (evalNode c call e (.property entry s))
        (evalNode d call' e' (.property entry' s'))

namespace Corresponds

variable {W : Type} {le : W → W → Prop} {c d : Config} {call call' : Caller} {e e' : ScopeId}
  {node : Node → Node → Prop} {value : W → Value → Value → Prop}
  {rel : (α : Type) → W → (W → α → α → Prop) → Run α → Run α → Prop}

theorem values_mono (h : Corresponds le c d call call' e e' node value rel) {w w' : W}
    (hw : le w w') {vs vs' : List Value} (hvs : List.Forall₂ (value w) vs vs') :
    List.Forall₂ (value w') vs vs' :=
  hvs.imp fun _ _ => h.mono hw

mutual

/-- **Evaluations of related nodes are related.** -/
theorem evalNode (h : Corresponds le c d call call' e e' node value rel) :
    ∀ (n m : Node) (w : W), node n m →
      rel Value w value (TreeScript.evalNode c call e n) (TreeScript.evalNode d call' e' m)
  | .program body s, m, w, hn => by
      cases h.alike hn with
      | program hb =>
          simp only [TreeScript.evalNode]
          exact h.located hn rfl rfl (evalBlock h body _ w _ _ hb (h.null w))
  | .declaration constant name v s, m, w, hn => by
      cases h.alike hn with
      | declaration hv =>
          simp only [TreeScript.evalNode]
          exact h.located hn rfl rfl
            (h.bind (evalOption h v _ w hv) fun _ _ _ _ => h.declaration hn)
  | .function name parameters body s, m, w, hn => by
      cases h.alike hn with
      | function =>
          simp only [TreeScript.evalNode]
          exact h.located hn rfl rfl (h.function w hn)
  | .assignment target v s, m, w, hn => by
      cases h.alike hn with
      | assignment hv =>
          simp only [TreeScript.evalNode]
          refine h.located hn rfl rfl (h.bind (h.target w hn) fun w₁ name name' _ ht => ?_)
          refine h.bind (evalNode h v _ w₁ hv) fun w₂ a b _ hab => ?_
          exact h.assignment hn ht.1 ht.2 hab
  | .binary l r op s, m, w, hn => by
      cases h.alike hn with
      | binary hl hr =>
          simp only [TreeScript.evalNode]
          refine h.located hn rfl rfl (h.bind (evalNode h l _ w hl) fun w₁ a a' _ ha => ?_)
          refine h.bind (evalNode h r _ w₁ hr) fun w₂ b b' hw hb => ?_
          exact h.binary (h.mono hw ha) hb
  | .comparison l r op s, m, w, hn => by
      cases h.alike hn with
      | comparison hl hr =>
          simp only [TreeScript.evalNode]
          refine h.located hn rfl rfl (h.bind (evalNode h l _ w hl) fun w₁ a a' _ ha => ?_)
          refine h.bind (evalNode h r _ w₁ hr) fun w₂ b b' hw hb => ?_
          exact h.comparison (h.mono hw ha) hb
  | .call callee arguments s, m, w, hn => by
      cases h.alike hn with
      | call hc ha =>
          simp only [TreeScript.evalNode]
          -- the arguments come before the callee, so their relation has to persist
          refine h.located hn rfl rfl
            (h.bind (evalAll h arguments _ w ha) fun w₁ vs vs' _ hvs => ?_)
          refine h.bind (evalNode h callee _ w₁ hc) fun w₂ f f' hw hf => ?_
          exact h.apply hn hf (h.values_mono hw hvs)
  | .member subject key s, m, w, hn => by
      cases h.alike hn with
      | member hs =>
          simp only [TreeScript.evalNode]
          exact h.located hn rfl rfl (h.bind (evalNode h subject _ w hs) fun _ _ _ _ => h.member)
  | .conditional condition consequent alternative s, m, w, hn => by
      cases h.alike hn with
      | conditional hc ht ha =>
          simp only [TreeScript.evalNode]
          refine h.located hn rfl rfl (h.bind (evalNode h condition _ w hc) fun w₁ v v' _ hv => ?_)
          refine h.bind (h.located hc rfl rfl (h.condition hv)) fun w₂ taken taken' _ htaken => ?_
          -- both evaluations take the same branch
          subst htaken
          cases taken with
          | true => exact evalBlock h consequent _ w₂ _ _ ht (h.null w₂)
          | false => exact evalBranch h alternative _ w₂ ha
  | .identifier name s, m, w, hn => by
      cases h.alike hn with
      | identifier =>
          simp only [TreeScript.evalNode]
          exact h.located hn rfl rfl (h.identifier w hn)
  | .number x s, m, w, hn => by
      cases h.alike hn with
      | number =>
          simp only [TreeScript.evalNode]
          exact h.pure (h.number w x)
  | .string x s, m, w, hn => by
      cases h.alike hn with
      | string =>
          simp only [TreeScript.evalNode]
          exact h.pure (h.string w x)
  | .object entries s, m, w, hn => by
      cases h.alike hn with
      | object he =>
          simp only [TreeScript.evalNode]
          refine h.located hn rfl rfl (h.bind (evalEntries h entries _ w he fun key w' hk => ?_) ?_)
          · exact h.short w' hn hk
          · exact fun w' a b _ hab => h.pure (h.object hab)
  | .property entry s, m, w, hn => by
      cases h.alike hn with
      | property => exact h.property w hn
termination_by structural n => n

/-- Blocks of related nodes are related, whatever related values they start from. -/
theorem evalBlock (h : Corresponds le c d call call' e e' node value rel) :
    ∀ (ns ms : List Node) (w : W) (v v' : Value), List.Forall₂ node ns ms → value w v v' →
      rel Value w value (TreeScript.evalBlock c call e v ns) (TreeScript.evalBlock d call' e' v' ms)
  | [], _, _, _, _, .nil, hv => h.pure hv
  | n :: ns, _, w, _, _, .cons hn hns, _ =>
      h.bind (evalNode h n _ w hn) fun w' a b _ hab => evalBlock h ns _ w' a b hns hab
termination_by structural ns => ns

/-- Optional nodes that are both absent or related are related. -/
theorem evalOption (h : Corresponds le c d call call' e e' node value rel) :
    ∀ (n m : Option Node) (w : W), Option.Rel node n m →
      rel Value w value (TreeScript.evalOption c call e n) (TreeScript.evalOption d call' e' m)
  | none, _, w, .none => h.pure (h.null w)
  | some n, _, w, .some hn => evalNode h n _ w hn
termination_by structural n => n

/-- Optional branches that are both absent or related are related. -/
theorem evalBranch (h : Corresponds le c d call call' e e' node value rel) :
    ∀ (ns ms : Option (List Node)) (w : W), Option.Rel (List.Forall₂ node) ns ms →
      rel Value w value (TreeScript.evalBranch c call e ns) (TreeScript.evalBranch d call' e' ms)
  | none, _, w, .none => h.pure (h.null w)
  | some ns, _, w, .some hns => evalBlock h ns _ w _ _ hns (h.null w)
termination_by structural ns => ns

/-- Arguments that are related one by one are related. -/
theorem evalAll (h : Corresponds le c d call call' e e' node value rel) :
    ∀ (ns ms : List Node) (w : W), List.Forall₂ node ns ms →
      rel (List Value) w (fun w => List.Forall₂ (value w)) (TreeScript.evalAll c call e ns)
        (TreeScript.evalAll d call' e' ms)
  | [], _, _, .nil => h.pure .nil
  | n :: ns, _, w, .cons hn hns =>
      h.bind (evalNode h n _ w hn) fun w₁ _ _ _ hab =>
        h.bind (evalAll h ns _ w₁ hns) fun _ _ _ hw hvs => h.pure (.cons (h.mono hw hab) hvs)
termination_by structural ns => ns

/-- Entries that are related one by one are related, if reading the keys of the short ones is. -/
theorem evalEntries (h : Corresponds le c d call call' e e' node value rel) :
    ∀ (es es' : List (Entry Node)) (w : W), List.Forall₂ (Entry.Alike node) es es' →
      (∀ key w, ⟨key, none⟩ ∈ es →
        rel Value w value (Run.query fun store => store.lookup e key)
          (Run.query fun store => store.lookup e' key)) →
      rel (List (String × Value)) w
        (fun w => List.Forall₂ fun a b => a.1 = b.1 ∧ value w a.2 b.2)
        (TreeScript.evalEntries c call e es) (TreeScript.evalEntries d call' e' es')
  | [], _, _, .nil, _ => h.pure .nil
  | ⟨key, none⟩ :: es, ⟨_, none⟩ :: _, w, .cons ⟨rfl, _⟩ hes, hk =>
      h.bind (hk key w (List.mem_cons_self ..)) fun w₁ _ _ _ hab =>
        h.bind (evalEntries h es _ w₁ hes fun _ _ hm => hk _ _ (List.mem_cons_of_mem _ hm))
          fun _ _ _ hw hvs => h.pure (.cons ⟨rfl, h.mono hw hab⟩ hvs)
  | ⟨_, none⟩ :: _, ⟨_, some _⟩ :: _, _, .cons ⟨_, hn⟩ _, _ => nomatch hn
  | ⟨_, some _⟩ :: _, ⟨_, none⟩ :: _, _, .cons ⟨_, hn⟩ _, _ => nomatch hn
  | ⟨key, some n⟩ :: es, ⟨_, some m⟩ :: _, w, .cons ⟨rfl, .some hn⟩ hes, hk =>
      h.bind (evalNode h n m w hn) fun w₁ _ _ _ hab =>
        h.bind (evalEntries h es _ w₁ hes fun _ _ hm => hk _ _ (List.mem_cons_of_mem _ hm))
          fun _ _ _ hw hvs => h.pure (.cons ⟨rfl, h.mono hw hab⟩ hvs)
termination_by structural es => es

end

end Corresponds

end TreeScript
