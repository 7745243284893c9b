import Mathlib.Data.List.Chain
import DeclLang.Proofs.DeclarationOrder
import DeclLang.Proofs.Trails

/-!
# Walks that come to what inference comes to, and what they leave behind

**Input.**  A tree with distinct identities, in which no enumeration case stands among the
parameters of a function.

**Relation.**  `Inference.Retraces`: a walk has the result of a step of inference and ends in its
state.  If every step up to the start of the walk entered at most one type, where there was none,
and what was handed out stands, then that is so at its end as well (`Inference.Trail.Lasting`).  The
relation has a rule for everything that walks are made of.

**Results.**
* `Inference.retraces_declarationType`: the walk to the type of a declaration does, if the limit of
  its steps is above the rank of the declaration.
* `Inference.retraces_typeOfDeclaration`: with the limit of inference it does for every declaration
  of the tree.
-/

namespace DeclLang

namespace Inference

/-- At most one type was entered into the table, and it had no entry there before. -/
def OneMore (earlier later : Std.TreeMap NodeId StaticType) : Prop :=
  (∀ id : NodeId, later[id]? = earlier[id]?) ∨
    ∃ (id : NodeId) (type : StaticType), earlier[id]? = none ∧
      ∀ other : NodeId, later[other]? = (earlier.insert id type)[other]?

/-- At most one type of a node was entered and at most one of a declaration, and none was
replaced. -/
structure Adds (earlier later : State) : Prop where
  nodes : OneMore earlier.typing.nodes later.typing.nodes
  declarations : OneMore earlier.typing.declarations later.typing.declarations

/-- What was entered earlier stands later. -/
structure Preserves (earlier later : State) : Prop where
  nodes : ∀ (id : NodeId) (type : StaticType), earlier.typing.nodes[id]? = some type →
    later.typing.nodes[id]? = some type
  declarations : ∀ (id : NodeId) (type : StaticType),
    earlier.typing.declarations[id]? = some type → later.typing.declarations[id]? = some type

theorem OneMore.refl (table : Std.TreeMap NodeId StaticType) : OneMore table table :=
  .inl fun _ => rfl

theorem OneMore.insert {table : Std.TreeMap NodeId StaticType} {id : NodeId}
    (missing : table[id]? = none) (type : StaticType) : OneMore table (table.insert id type) :=
  .inr ⟨id, type, missing, fun _ => rfl⟩

theorem OneMore.preserves {earlier later : Std.TreeMap NodeId StaticType}
    (more : OneMore earlier later) {id : NodeId} {type : StaticType}
    (known : earlier[id]? = some type) : later[id]? = some type := by
  rcases more with same | ⟨added, _, missing, entered⟩
  · rw [same, known]
  · rw [entered, Std.TreeMap.getElem?_insert, if_neg, known]
    intro same
    rw [Nat.compare_eq_eq] at same
    rw [same, known] at missing
    cases missing

theorem Adds.preserves {earlier later : State} (adds : Adds earlier later) :
    Preserves earlier later where
  nodes _ _ := adds.nodes.preserves
  declarations _ _ := adds.declarations.preserves

theorem Preserves.trans {first second third : State} (h : Preserves first second)
    (next : Preserves second third) : Preserves first third where
  nodes id type known := next.nodes id type (h.nodes id type known)
  declarations id type known := next.declarations id type (h.declarations id type known)

/-- All steps of the trail only added to what was known, and what was handed out stands. -/
structure Trail.Lasting (trail : Trail) : Prop where
  adds : trail.states.IsChain Adds
  handed : ∀ entry ∈ trail.handed, trail.state.typing.nodes[entry.1]? = some entry.2

/-- What was known in some state of the trail is known in all later ones. -/
theorem Trail.Lasting.pairwise {trail : Trail} (lasting : trail.Lasting) :
    trail.states.Pairwise Preserves := by
  have : IsTrans State Preserves := ⟨fun _ _ _ => Preserves.trans⟩
  exact List.isChain_iff_pairwise.1 (lasting.adds.imp fun _ _ => Adds.preserves)

/-- One more step that only adds to what is known. -/
theorem Trail.Lasting.step {trail : Trail} (lasting : trail.Lasting) {state : State}
    (adds : Adds trail.state state) : (trail.step state).Lasting where
  adds := by
    rw [Trail.states_step]
    refine List.isChain_append.2 ⟨lasting.adds, List.isChain_singleton _, ?_⟩
    intro last isLast next isNext
    rw [Trail.states, List.getLast?_reverse, List.head?_cons, Option.mem_some] at isLast
    rw [List.head?_cons, Option.mem_some] at isNext
    exact isLast ▸ isNext ▸ adds
  handed entry mem := adds.nodes.preserves (lasting.handed entry mem)

/-- The trail goes on from the other one, and stays lasting. -/
structure Trail.Continues (trail after : Trail) : Prop where
  states : trail.states <+: after.states
  lasting : trail.Lasting → after.Lasting

theorem Trail.Continues.refl (trail : Trail) : trail.Continues trail :=
  ⟨List.prefix_rfl, id⟩

theorem Trail.continues_step {trail : Trail} {state : State} (adds : Adds trail.state state) :
    trail.Continues (trail.step state) :=
  ⟨⟨[state], (trail.states_step state).symm⟩, fun lasting => lasting.step adds⟩

theorem Trail.Continues.trans {trail middle after : Trail} (first : trail.Continues middle)
    (second : middle.Continues after) : trail.Continues after :=
  ⟨first.states.trans second.states, second.lasting ∘ first.lasting⟩

/-- From the trail, the walk comes to what the step of inference comes to, and the trail
continues. -/
structure Retraces {α : Type} (trail : Trail) (walk : Walk α) (step : Infer α) : Prop where
  result : (walk trail).1 = (step trail.state).1
  state : (walk trail).2.state = (step trail.state).2
  continues : trail.Continues (walk trail).2

section Rules

variable {α β : Type} {trail : Trail}

theorem retraces_pure (a : α) : Retraces trail (pure a) (pure a) :=
  ⟨rfl, rfl, .refl _⟩

theorem retraces_state : Retraces trail Walk.state get :=
  ⟨rfl, rfl, .refl _⟩

theorem Retraces.bind {walk : Walk α} {step : Infer α} {next : α → Walk β} {following : α → Infer β}
    (first : Retraces trail walk step)
    (rest : ∀ after : Trail, after.state = (step trail.state).2 →
      Retraces after (next (step trail.state).1) (following (step trail.state).1)) :
    Retraces trail (walk >>= next) (step >>= following) := by
  have last := rest (walk trail).2 first.state
  rw [← first.result] at last
  have ended :
      following (walk trail).1 (walk trail).2.state = (step >>= following) trail.state := by
    rw [first.result, first.state]
    rfl
  exact ⟨last.result.trans (congrArg Prod.fst ended), last.state.trans (congrArg Prod.snd ended),
    first.continues.trans last.continues⟩

/-- A single step that only adds to what is known. -/
theorem retraces_take {step : Infer α} (adds : Adds trail.state (step trail.state).2) :
    Retraces trail (Walk.take step) step :=
  ⟨rfl, rfl, Trail.continues_step adds⟩

theorem retraces_mapM {items : List α} {walk : α → Walk β} {step : α → Infer β}
    (each : ∀ a ∈ items, ∀ trail, Retraces trail (walk a) (step a)) :
    Retraces trail (items.mapM walk) (items.mapM step) := by
  induction items generalizing trail with
  | nil => exact retraces_pure []
  | cons a items ih =>
    rw [List.mapM_cons, List.mapM_cons]
    refine (each a List.mem_cons_self trail).bind fun middle _ => ?_
    exact (ih fun b mem => each b (List.mem_cons_of_mem _ mem)).bind fun _ _ => retraces_pure _

theorem retraces_forIn {items : List α} {walk : α → PUnit → Walk (ForInStep PUnit)}
    {step : α → PUnit → Infer (ForInStep PUnit)}
    (each : ∀ a ∈ items, ∀ trail, Retraces trail (walk a PUnit.unit) (step a PUnit.unit)) :
    Retraces trail (forIn items PUnit.unit walk) (forIn items PUnit.unit step) := by
  induction items generalizing trail with
  | nil => exact retraces_pure _
  | cons a items ih =>
    rw [List.forIn_cons, List.forIn_cons]
    refine (each a List.mem_cons_self trail).bind fun middle _ => ?_
    split
    · exact retraces_pure _
    · exact ih fun b mem => each b (List.mem_cons_of_mem _ mem)

end Rules

section Steps

variable {trail : Trail} {environment : Environment}

/-- A step that enters no types. -/
theorem retraces_take_of_keeps {α : Type} {step : Infer α}
    (nodes : ∀ id : NodeId, (step trail.state).2.typing.nodes[id]? = trail.state.typing.nodes[id]?)
    (declarations : ∀ holds, Keeps holds step) : Retraces trail (Walk.take step) step := by
  refine retraces_take ⟨.inl nodes, .inl fun id => ?_⟩
  exact declarations (fun table => table[id]? = trail.state.typing.declarations[id]?) _ rfl

theorem retraces_fresh : Retraces trail (Walk.take fresh) fresh :=
  retraces_take ⟨.refl _, .refl _⟩

theorem retraces_annotationType (node : Node) :
    Retraces trail (Walk.take (annotationType environment node))
      (annotationType environment node) := by
  have silent : Extends environment node [] [] trail.state
      (annotationType environment node trail.state).2 ∧ _ := annotationType_inv rfl
  exact retraces_take_of_keeps (fun id => silent.1.others id List.not_mem_nil) fun _ =>
    keeps_annotationType environment node

end Steps

section Declarations

variable {trail : Trail} {environment : Environment} {root node : Node}

theorem retraces_valueTypes (values : List Node) :
    Retraces trail (Walk.valueTypes environment values) (values.mapM fun value => do
      return (none, ← annotationType environment value)) :=
  retraces_mapM fun value _ _ => (retraces_annotationType value).bind fun _ _ => retraces_pure _

/-- What a declaration is written with is retraced if the types of its parts are. -/
theorem retraces_writtenType {steps : Nat} {typeOfPart : Node → Walk StaticType}
    (each : ∀ part ∈ typedParts environment.index node, ∀ trail,
      Retraces trail (typeOfPart part) (declarationType environment steps part)) :
    Retraces trail (Walk.writtenType environment typeOfPart node)
      (writtenType environment steps node) := by
  have parts (trail : Trail) : Retraces trail
      ((typedParts environment.index node).mapM fun part => do
        return (part.declaredName?, ← typeOfPart part))
      (labeledTypes environment steps (typedParts environment.index node)) :=
    retraces_mapM fun part mem trail => (each part mem trail).bind fun _ _ => retraces_pure _
  rw [Walk.writtenType]
  obtain ⟨id, kind⟩ := node
  cases kind with
  | functionDecl =>
    exact (parts trail).bind fun _ _ => (retraces_annotationType _).bind fun _ _ => retraces_pure _
  | recordDecl => exact (parts trail).bind fun _ _ => retraces_pure _
  | enumerationDecl | genericParameter => exact retraces_pure _
  | enumerationCase name values =>
    refine Retraces.bind ?_ fun _ _ => (retraces_valueTypes values).bind fun _ _ => retraces_pure _
    cases found : environment.index.parent? id with
    | none =>
      simp only [Node.id_mk, found]
      exact retraces_fresh
    | some parent =>
      simp only [Node.id_mk, found]
      exact each parent (Option.mem_toList.2 found) trail
  | parameter => exact retraces_annotationType _
  | variableDecl name ascription? =>
    cases ascription? with
    | some ascription => exact retraces_annotationType _
    | none => exact retraces_fresh
  | _ => exact retraces_fresh

/-- A declaration without a type gets one. -/
theorem retraces_setDeclarationType (missing : trail.state.typing.declarations[node.id]? = none)
    (type : StaticType) :
    Retraces trail (Walk.take (setDeclarationType node.id type))
      (setDeclarationType node.id type) :=
  retraces_take ⟨.refl _, .insert missing type⟩

variable (built : NodeIndex.build root = .ok environment.index) (distinct : root.Distinct)
  (caseless : root.CaselessParameters)

include built distinct caseless

/-- The type of a declaration is retraced, if the limit is above the rank of the declaration. -/
theorem retraces_declarationType {steps : Nat} (inside : node ∈ root.preorder)
    (enough : rank environment.index node < steps) :
    Retraces trail (Walk.declarationType environment steps node)
      (declarationType environment steps node) := by
  induction steps generalizing node trail with
  | zero => exact absurd enough (Nat.not_lt_zero _)
  | succ steps ih =>
    rw [Walk.declarationType, declarationType_succ]
    refine retraces_state.bind fun after same => ?_
    cases missing : ((get : Infer State) trail.state).1.typing.declarations[node.id]? with
    | some type => exact retraces_pure _
    | none =>
      refine (retraces_writtenType fun part mem trail => ?_).bind fun last written => ?_
      · exact ih (mem_preorder_of_mem_typedParts built inside mem) (Nat.lt_of_lt_of_le
          (rank_lt_of_asks built caseless ⟨inside, mem⟩) (Nat.le_of_lt_succ enough))
      · -- The parts rank lower, so that the declaration is still without a type.
        have untouched := keeps_writtenType_self built distinct caseless steps inside after.state
          (same ▸ missing)
        rw [← written] at untouched
        exact (retraces_setDeclarationType untouched _).bind fun _ _ => retraces_pure _

theorem retraces_typeOfDeclaration (inside : node ∈ root.preorder) :
    Retraces trail (Walk.typeOfDeclaration environment node)
      (typeOfDeclaration environment node) :=
  retraces_declarationType built distinct caseless inside
    (Nat.lt_succ_of_le (rank_le built inside))

end Declarations

end Inference

end DeclLang
