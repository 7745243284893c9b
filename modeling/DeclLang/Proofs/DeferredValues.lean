import DeclLang.Proofs.LazyEvaluation
import DeclLang.Proofs.StrictSemantics

/-!
# Deferred initializers

**Input.**  A store of the strict semantics, and a context in which some variables of the store have
no value yet.

**Invariant.**  `Layout.Owed`: such a variable still has its initializer, and the strict value of
the initializer, over variables that the context owes in turn, is the value in the store.

**Results.**
* `Layout.Owed.foreseen`: what a context owes is foreseen.
* `Layout.Owed.recalls`: keeping values that were foreseen changes nothing about what is owed.
* `Layout.Owed.carry`: neither does giving declarations new values, in the store and in the context,
  as long as no deferred initializer reads them.
-/

namespace DeclLang

open Strict (Evaluates)

/-- What the execution of one function refers to: scopes and plan of its program, the context in
which execution starts, the declarations of the function, and all its nodes. -/
structure Layout where
  scope : Scope
  plan : Plan
  base : Context
  own : List NodeId
  nodes : List NodeId

/-- The recipe of an operator. -/
def operatorThunk (operator : Operator) (left right : NodeId) : Thunk :=
  match Strict.decisive? operator with
  | some decisive => { dependencies := [], recipe := .shortCircuit decisive left right }
  | none => { dependencies := [left, right], recipe := .operation operator }

section OperatorThunk

variable {operator : Operator} {left right : NodeId} {look : NodeId → Option Value} {b : Bool}
  {value other : Value}

theorem result?_decided (decides : Strict.decisive? operator = some b)
    (first : look left = some value) (holds : value.boolean? = some b) :
    (operatorThunk operator left right).result? look = some (.boolean b) := by
  unfold operatorThunk Thunk.result?
  rw [decides]
  dsimp only
  simp only [first, holds, Option.bind_eq_bind, Option.bind_some, if_true]
  rfl

theorem result?_undecided (decides : Strict.decisive? operator = some (!b))
    (first : look left = some value) (holds : value.boolean? = some b)
    (second : look right = some other) {c : Bool} (result : other.boolean? = some c) :
    (operatorThunk operator left right).result? look = some (.boolean c) := by
  have different : ¬b = !b := by cases b <;> decide
  unfold operatorThunk Thunk.result?
  rw [decides]
  dsimp only
  simp only [first, holds, second, result, Option.bind_eq_bind, Option.bind_some,
    if_neg different]
  rfl

theorem result?_applied (strict : Strict.decisive? operator = none)
    (first : look left = some value) (second : look right = some other) {result : Value}
    (apply : operator.apply value other = .ok result) :
    (operatorThunk operator left right).result? look = some result := by
  unfold operatorThunk Thunk.result?
  rw [strict]
  dsimp only
  simp only [first, second, apply, Option.bind_eq_bind, Option.bind_some]
  rfl

end OperatorThunk

namespace Layout

/-- The nodes of an expression have the values and recipes that belong to them. -/
inductive Wired (layout : Layout) : Node → Prop
  | literal {id : NodeId} {literal : Literal} (apart : id ∉ layout.own)
    (constant : layout.base.thunk? id = none)
    (known : layout.base.value? id = some (Registration.literalValue literal)) :
    Wired layout (.mk id (.literal literal))
  | identifier {id declaration : NodeId} {name : String} (apart : id ∉ layout.own)
    (resolved : layout.scope.resolve id = some declaration) (mem : declaration ∈ layout.own)
    (found : layout.base.thunk? id = some { dependencies := [declaration], recipe := .relay }) :
    Wired layout (.mk id (.identifier name))
  | binary {id : NodeId} {operator : Operator} {left right : Node} (apart : id ∉ layout.own)
    (found : layout.base.thunk? id = some (operatorThunk operator left.id right.id))
    (first : Wired layout left) (second : Wired layout right) :
    Wired layout (.mk id (.binary operator left right))

theorem Wired.apart {layout : Layout} {node : Node} (h : layout.Wired node) :
    node.id ∉ layout.own := by
  cases h <;> assumption

theorem Wired.inner {layout : Layout} {node part : Node} (h : layout.Wired node)
    (inside : part ∈ node.preorder) : layout.Wired part := by
  induction h with
  | literal apart constant known =>
    rcases Node.mem_preorder_iff.1 inside with rfl | ⟨child, mem, -⟩
    · exact .literal apart constant known
    · cases mem
  | identifier apart resolved mem found =>
    rcases Node.mem_preorder_iff.1 inside with rfl | ⟨child, mem, -⟩
    · exact .identifier apart resolved mem found
    · cases mem
  | @binary id operator left right apart found first second ihLeft ihRight =>
    rcases Node.mem_preorder_iff.1 inside with rfl | ⟨child, mem, below⟩
    · exact .binary apart found first second
    · have mem : child ∈ [left, right] := mem
      rcases List.mem_pair.1 mem with rfl | rfl
      · exact ihLeft below
      · exact ihRight below

/-- A context has the recipes of the layout, and its values for nodes that are neither recipes nor
declarations. -/
structure Laid (layout : Layout) (context : Context) : Prop where
  thunks : context.thunks = layout.base.thunks
  constants : ∀ id value, id ∉ layout.own → layout.base.thunk? id = none →
    layout.base.value? id = some value → context.value? id = some value

theorem Laid.thunk? {layout : Layout} {context : Context} (h : layout.Laid context) (id : NodeId) :
    context.thunk? id = layout.base.thunk? id := by
  unfold Context.thunk?
  rw [h.thunks]

/-- The values that a context has kept for the nodes of an expression are their values in a
store. -/
def Agrees (layout : Layout) (store : Store) (context : Context) (node : Node) : Prop :=
  ∀ part ∈ node.preorder, ∀ value other, context.value? part.id = some value →
    Evaluates layout.scope store part other → value = other

theorem Agrees.inner {layout : Layout} {store : Store} {context : Context} {node part : Node}
    (h : layout.Agrees store context node) (inside : part ∈ node.preorder) :
    layout.Agrees store context part :=
  fun deeper mem => h deeper (Node.mem_preorder_trans inside mem)

section

variable {layout : Layout} {store : Store} {region : List NodeId} {context : Context}

/-- Operands that are foreseen are foreseen at one level. -/
theorem foreseen_together {left right : NodeId} {a b : Value}
    (first : ∃ level, context.foresee region level left = some a)
    (second : ∃ level, context.foresee region level right = some b) :
    ∃ level, context.foresee region level left = some a ∧
      context.foresee region level right = some b := by
  obtain ⟨m, first⟩ := first
  obtain ⟨n, second⟩ := second
  exact ⟨max m n, Context.foresee_mono (List.Subset.refl region) (Nat.le_max_left m n) first,
    Context.foresee_mono (List.Subset.refl region) (Nat.le_max_right m n) second⟩

/-- The value of a node is foreseen if it is kept, or else is the result of its recipe. -/
theorem foreseen_of_result {node : Node} {value : Value} {thunk : Thunk}
    (laid : layout.Laid context) (agrees : layout.Agrees store context node)
    (within : node.identities ⊆ region) (h : Evaluates layout.scope store node value)
    (found : layout.base.thunk? node.id = some thunk)
    (result : ∃ level, thunk.result? (context.foresee region level) = some value) :
    ∃ level, context.foresee region level node.id = some value := by
  cases kept : context.value? node.id with
  | some other =>
    rw [agrees node node.self_mem_preorder other value kept h] at kept
    exact ⟨0, kept⟩
  | none =>
    obtain ⟨level, result⟩ := result
    have mem := within (Node.id_mem_identities node.self_mem_preorder)
    rw [← laid.thunk?] at found
    exact ⟨level + 1, by rw [Context.foresee_of_thunk kept mem found, result]⟩

/-- The value of an expression is foreseen if the values of its store are. -/
theorem foreseen_of_evaluates (laid : layout.Laid context)
    (supplied : ∀ declaration value, store declaration = some value →
      ∃ level, context.foresee region level declaration = some value)
    {node : Node} {value : Value} (h : Evaluates layout.scope store node value)
    (wired : layout.Wired node) (within : node.identities ⊆ region)
    (agrees : layout.Agrees store context node) :
    ∃ level, context.foresee region level node.id = some value := by
  have below {id : NodeId} {operator : Operator} {left right : Node} {child : Node}
      (mem : child ∈ [left, right]) :
      child ∈ (Node.mk id (.binary operator left right)).preorder :=
    Node.mem_preorder_of_mem_children mem child.self_mem_preorder
  have inside {id : NodeId} {operator : Operator} {left right : Node} {child : Node}
      (mem : child ∈ [left, right])
      (within : (Node.mk id (.binary operator left right)).identities ⊆ region) :
      child.identities ⊆ region :=
    List.Subset.trans (Node.identities_subset (below mem)) within
  have left {left right : Node} : left ∈ [left, right] := List.mem_cons_self
  have right {left right : Node} : right ∈ [left, right] :=
    List.mem_cons_of_mem _ List.mem_cons_self
  induction h with
  | literal =>
    cases wired with
    | literal apart constant known =>
      exact ⟨0, laid.constants _ _ apart constant known⟩
  | identifier resolved known =>
    cases wired with
    | identifier apart same mem found =>
      cases Option.some.inj (resolved.symm.trans same)
      exact foreseen_of_result laid agrees within (.identifier resolved known) found
        (supplied _ _ known)
  | decided decides first holds ih =>
    cases wired with
    | binary apart found wiredLeft wiredRight =>
      obtain ⟨level, foreseen⟩ := ih wiredLeft (inside left within) (agrees.inner (below left))
      exact foreseen_of_result laid agrees within (.decided decides first holds) found
        ⟨level, result?_decided decides foreseen holds⟩
  | undecided decides first holds second result ihLeft ihRight =>
    cases wired with
    | binary apart found wiredLeft wiredRight =>
      obtain ⟨level, foreseen, foreseenRight⟩ := foreseen_together
        (ihLeft wiredLeft (inside left within) (agrees.inner (below left)))
        (ihRight wiredRight (inside right within) (agrees.inner (below right)))
      exact foreseen_of_result laid agrees within (.undecided decides first holds second result)
        found ⟨level, result?_undecided decides foreseen holds foreseenRight result⟩
  | applied strict first second apply ihLeft ihRight =>
    cases wired with
    | binary apart found wiredLeft wiredRight =>
      obtain ⟨level, foreseen, foreseenRight⟩ := foreseen_together
        (ihLeft wiredLeft (inside left within) (agrees.inner (below left)))
        (ihRight wiredRight (inside right within) (agrees.inner (below right)))
      exact foreseen_of_result laid agrees within (.applied strict first second apply) found
        ⟨level, result?_applied strict foreseen foreseenRight apply⟩

end

/-- `Owed layout store region context d`: the context gives the declaration its value in the store,
either at once or by its initializer.  A deferred initializer is evaluated over those of the
declarations it reads that had a value where the variable was declared. -/
inductive Owed (layout : Layout) (store : Store) (region : List NodeId) (context : Context) :
    NodeId → Prop
  | kept {declaration : NodeId} {value : Value}
    (known : context.value? declaration = some value) (same : store declaration = some value) :
    Owed layout store region context declaration
  | deferred {declaration : NodeId} {initializer : Node} {value : Value} {earlier : Store}
    (unknown : context.value? declaration = none) (same : store declaration = some value)
    (mem : declaration ∈ region) (within : initializer.identities ⊆ region)
    (found : layout.base.thunk? declaration =
      some { dependencies := [initializer.id], recipe := .relay })
    (wired : layout.Wired initializer)
    (reads : ∀ other value, earlier other = some value →
      other ∈ layout.plan.readsOf declaration ∧ store other = some value)
    (evaluated : Evaluates layout.scope earlier initializer value)
    (agrees : layout.Agrees earlier context initializer)
    (supplied : ∀ other value, earlier other = some value →
      Owed layout store region context other) :
    Owed layout store region context declaration

section

variable {layout : Layout} {store : Store} {region : List NodeId} {context : Context}
  {declaration : NodeId}

/-- What a context owes is foreseen. -/
theorem Owed.foreseen (laid : layout.Laid context)
    (h : layout.Owed store region context declaration) {value : Value}
    (expected : store declaration = some value) :
    ∃ level, context.foresee region level declaration = some value := by
  induction h generalizing value with
  | kept known same =>
    cases Option.some.inj (same.symm.trans expected)
    exact ⟨0, known⟩
  | deferred unknown same mem within found wired reads evaluated agrees supplied ih =>
    cases Option.some.inj (same.symm.trans expected)
    obtain ⟨level, foreseen⟩ := foreseen_of_evaluates laid
      (fun other value before => ih other value before (reads other value before).2) evaluated
      wired within agrees
    rw [← laid.thunk?] at found
    exact ⟨level + 1, by rw [Context.foresee_of_thunk unknown mem found]; exact foreseen⟩

/-- Keeping values that were foreseen changes nothing about what is owed. -/
theorem Owed.recalls (laid : layout.Laid context) {larger : List NodeId} {after : Context}
    (subset : region ⊆ larger) (recalls : Context.Recalls larger context after)
    (h : layout.Owed store region context declaration) :
    layout.Owed store larger after declaration := by
  -- A value that is kept now is the one that was foreseen before.
  have foreseen {level : Nat} {id : NodeId} {value other : Value}
      (found : context.foresee region level id = some value)
      (now : after.value? id = some other) : other = value := by
    obtain ⟨_, later⟩ := recalls.foreseen id other now
    exact Context.foresee_unique later
      (Context.foresee_mono subset (Nat.le_refl level) found)
  induction h with
  | kept known same => exact .kept (recalls.kept _ _ known) same
  | @deferred declaration initializer value earlier unknown same mem within found wired reads
      evaluated agrees supplied ih =>
    have before (other : NodeId) (value : Value) (known : earlier other = some value) :
        ∃ level, context.foresee region level other = some value :=
      (supplied other value known).foreseen laid (reads other value known).2
    cases now : after.value? declaration with
    | some other =>
      obtain ⟨level, found⟩ := Owed.foreseen laid
        (.deferred unknown same mem within found wired reads evaluated agrees supplied) same
      rw [foreseen found now] at now
      exact .kept now same
    | none =>
      refine .deferred now same (subset mem) (List.Subset.trans within subset) found wired reads
        evaluated ?_ ih
      intro part inside value other kept expected
      obtain ⟨level, found⟩ := foreseen_of_evaluates laid before expected (wired.inner inside)
        (List.Subset.trans (Node.identities_subset inside) within) (agrees.inner inside)
      exact foreseen found kept

/-- New values for declarations that no deferred initializer reads change nothing about what else
is owed. -/
theorem Owed.carry {next : Store} {after : Context}
    (steady : ∀ other before value, store other = some before → next other = some value →
      after.value? other = some value ∨
        after.value? other = context.value? other ∧ before = value)
    (unread : ∀ other value, store other = some value → context.value? other = none →
      ∀ read ∈ layout.plan.readsOf other, ∀ value, store read = some value →
        next read = some value)
    (unchanged : ∀ id ∈ region, id ∉ layout.own → after.value? id = context.value? id)
    (h : layout.Owed store region context declaration) {value : Value}
    (expected : next declaration = some value) :
    layout.Owed next region after declaration := by
  induction h generalizing value with
  | kept known same =>
    rcases steady _ _ value same expected with now | ⟨now, before⟩
    · exact .kept now expected
    · cases before
      exact .kept (now.trans known) expected
  | deferred unknown same mem within found wired reads evaluated agrees supplied ih =>
    rcases steady _ _ value same expected with now | ⟨now, before⟩
    · exact .kept now expected
    cases before
    have still (other : NodeId) (value : Value) (known : _) :=
      unread _ _ same unknown other (reads other value known).1 value (reads other value known).2
    refine .deferred (now.trans unknown) expected mem within found wired
      (fun other value known => ⟨(reads other value known).1, still other value known⟩) evaluated
      ?_ fun other value known => ih other value known (still other value known)
    intro part inside value other kept expected
    rw [unchanged part.id (within (Node.id_mem_identities inside)) (wired.inner inside).apart]
      at kept
    exact agrees part inside value other kept expected

end

end Layout

end DeclLang
