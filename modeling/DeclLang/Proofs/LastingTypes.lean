import DeclLang.Proofs.LastingTrails
import DeclLang.Proofs.PosedConstraints

/-!
# Types that are entered once

**Input.**  A tree with distinct identities, in which no enumeration case stands among the
parameters of a function.

**Argument.**  A single step of inference enters at most one type.  A node is given its type when it
is left, and until then only the node around it could have given it one, which is left later.  A
declaration is given its type once its parts have theirs, and none of these asks for the declaration
again.  There is one lemma for every operation of inference, all of them by the rules of
`Inference.Retraces`.

**Results.**
* `Inference.through_retraces`: a walk through prepared moments passes the states of inference and
  comes to its last one, and the trail stays lasting.
* `Typing.infer_lasting`: from one step of inference to the next, at most one type of a node and one
  of a declaration are entered, where there was none.  So whatever is known stays as it is, what was
  handed out for a node is what it has in the end, and all constraints speak of these types.
-/

namespace DeclLang

namespace Inference

section Steps

variable {trail : Trail} {environment : Environment}

theorem retraces_constrain (head tail : StaticType) (origin : NodeId) :
    Retraces trail (Walk.take (constrain head tail origin)) (constrain head tail origin) :=
  retraces_take ⟨.refl _, .refl _⟩

/-- A step that leaves the typing alone. -/
theorem retraces_modify {f : State → State} (same : ∀ state, (f state).typing = state.typing) :
    Retraces trail (Walk.take (modify f)) (modify f : Infer PUnit) := by
  refine retraces_take ⟨?_, ?_⟩
  · change OneMore trail.state.typing.nodes (f trail.state).typing.nodes
    rw [same]
    exact .refl _
  · change OneMore trail.state.typing.declarations (f trail.state).typing.declarations
    rw [same]
    exact .refl _

theorem retraces_setNodeType {id : NodeId} (missing : trail.state.typing.nodes[id]? = none)
    (type : StaticType) : Retraces trail (Walk.take (setNodeType id type)) (setNodeType id type) :=
  retraces_take ⟨.insert missing type, .refl _⟩

theorem nodes_freshFor (names : List String) (state : State) :
    (freshFor names state).2.typing.nodes = state.typing.nodes := by
  induction names generalizing state with
  | nil => rfl
  | cons name names ih => exact ih (fresh state).2

theorem retraces_freshFor (names : List String) :
    Retraces trail (Walk.take (freshFor names)) (freshFor names) :=
  retraces_take_of_keeps (fun _ => by rw [nodes_freshFor]) fun _ => keeps_freshFor names

/-- A node has a type already, or it is given a fresh variable. -/
theorem typeOf_cases {node : Node} {before after : State} {type : StaticType}
    (h : typeOf node before = (type, after)) :
    (before.typing.nodes[node.id]? = some type ∧ after = before) ∨
      (before.typing.nodes[node.id]? = none ∧ ∃ middle, fresh before = (type, middle) ∧
        setNodeType node.id type middle = ((), after)) := by
  unfold typeOf at h
  obtain ⟨_, _, got, h⟩ := bind_inv h
  cases got
  cases found : before.typing.nodes[node.id]? with
  | some known =>
    rw [found] at h
    cases h
    exact .inl ⟨rfl, rfl⟩
  | none =>
    rw [found] at h
    obtain ⟨own, middle, taken, h⟩ := bind_inv h
    obtain ⟨_, _, set, h⟩ := bind_inv h
    cases h
    exact .inr ⟨rfl, middle, taken, set⟩

/-- At most the node itself is given a type, and it has the type that is found. -/
theorem adds_typeOf (node : Node) (state : State) :
    Adds state (typeOf node state).2 ∧
      (typeOf node state).2.typing.nodes[node.id]? = some (typeOf node state).1 := by
  cases ran : typeOf node state with
  | mk type after =>
    rcases typeOf_cases ran with ⟨known, rfl⟩ | ⟨missing, middle, taken, set⟩
    · exact ⟨⟨.refl _, .refl _⟩, known⟩
    · cases taken
      cases set
      exact ⟨⟨.insert missing _, .refl _⟩, Std.TreeMap.getElem?_insert_self⟩

/-- What is handed out for a node is the type that the node has from then on. -/
theorem retraces_typeOf (node : Node) :
    Retraces trail (Walk.typeOf node) (typeOf node) := by
  obtain ⟨adds, known⟩ := adds_typeOf node trail.state
  refine ⟨rfl, rfl, (Trail.continues_step adds).states, fun lasting => ?_⟩
  exact ⟨(lasting.step adds).adds, List.forall_mem_cons.2 ⟨known, (lasting.step adds).handed⟩⟩

theorem retraces_arrayType (node : Node) (elements : List Node) :
    Retraces trail (Walk.arrayType node elements) (arrayType node elements) :=
  retraces_fresh.bind fun _ _ => Retraces.bind (retraces_forIn fun item _ _ =>
    (retraces_typeOf item).bind fun _ _ => (retraces_constrain _ _ _).bind fun _ _ =>
      retraces_pure _) fun _ _ => retraces_pure _

theorem retraces_argumentSlots (received : List (Option String × Option Node)) :
    Retraces trail (Walk.argumentSlots received) (argumentSlots received) := by
  induction received generalizing trail with
  | nil => exact retraces_pure _
  | cons entry received ih =>
    obtain ⟨label?, argument?⟩ := entry
    refine retraces_fresh.bind fun _ _ => ?_
    cases argument? with
    | none => exact (retraces_pure _).bind fun _ _ => ih.bind fun _ _ => retraces_pure _
    | some argument =>
      exact (retraces_typeOf argument).bind fun _ _ => (retraces_pure _).bind fun _ _ =>
        ih.bind fun _ _ => retraces_pure _

theorem retraces_callType (node callee : Node) (arguments : List Node) :
    Retraces trail (Walk.callType environment node callee arguments)
      (callType environment node callee arguments) := by
  refine retraces_fresh.bind fun _ _ => (retraces_typeOf callee).bind fun _ _ =>
    (retraces_argumentSlots _).bind fun _ _ => (retraces_constrain _ _ _).bind fun _ _ =>
      Retraces.bind ?_ fun _ _ => retraces_pure _
  exact retraces_forIn fun _ _ _ => (retraces_constrain _ _ _).bind fun _ _ => retraces_pure _

theorem retraces_binaryType (node : Node) (operator : Operator) (left right : Node) :
    Retraces trail (Walk.binaryType node operator left right)
      (binaryType node operator left right) := by
  refine (retraces_typeOf left).bind fun _ _ => (retraces_typeOf right).bind fun _ _ => ?_
  cases operator with
  | equal | notEqual => exact (retraces_constrain _ _ _).bind fun _ _ => retraces_pure _
  | _ => exact (retraces_constrain _ _ _).bind fun _ _ => (retraces_constrain _ _ _).bind fun _ _ =>
      retraces_pure _

theorem retraces_returned (id : NodeId) (returned : StaticType) :
    Retraces trail (do
      if let some expected := (← Walk.state).returnTypes.head? then
        Walk.take (constrain expected returned id)
      return some StaticType.unit) (do
      if let some expected := (← get).returnTypes.head? then
        constrain expected returned id
      return some StaticType.unit) := by
  refine retraces_state.bind fun _ _ => ?_
  generalize ((get : Infer State) trail.state).1 = state
  cases state.returnTypes.head? with
  | none => exact retraces_pure _
  | some expected => exact (retraces_constrain _ _ _).bind fun _ _ => retraces_pure _

end Steps

section Tour

variable {trail : Trail} {environment : Environment} {root node : Node}
  (built : NodeIndex.build root = .ok environment.index) (distinct : root.Distinct)
  (caseless : root.CaselessParameters) (inside : node ∈ root.preorder)

include built distinct caseless

theorem retraces_referenceType (id : NodeId) :
    Retraces trail (Walk.referenceType environment id) (referenceType environment id) := by
  unfold Walk.referenceType referenceType
  cases refers : environment.declaration? id with
  | none => exact retraces_fresh
  | some declaration =>
    obtain ⟨_, _, got⟩ := Option.bind_eq_some_iff.1 refers
    refine (retraces_typeOfDeclaration built distinct caseless
      (NodeIndex.mem_of_get? built got).1).bind fun _ _ => ?_
    split
    · exact (retraces_freshFor _).bind fun _ _ => retraces_pure _
    · exact retraces_pure _

include inside

theorem retraces_initializedType (initializer? : Option Node) :
    Retraces trail (Walk.initializedType environment node initializer?)
      (initializedType environment node initializer?) := by
  refine (retraces_typeOfDeclaration built distinct caseless inside).bind fun _ _ => ?_
  cases initializer? with
  | none => exact retraces_pure _
  | some initializer =>
    exact (retraces_typeOf initializer).bind fun _ _ => (retraces_constrain _ _ _).bind fun _ _ =>
      retraces_pure _

theorem retraces_enter :
    Retraces trail (Walk.enter environment node) (enter environment node) := by
  unfold Walk.enter enter
  obtain ⟨id, kind⟩ := node
  cases kind with
  | functionDecl =>
    refine (retraces_typeOfDeclaration built distinct caseless inside).bind fun _ _ => ?_
    have pushes (trail : Trail) (result : StaticType) : Retraces trail (do
        Walk.take (modify fun state => { state with returnTypes := result :: state.returnTypes })
        return Direction.descend) (do
        modify fun state => { state with returnTypes := result :: state.returnTypes }
        return Direction.descend) :=
      Retraces.bind (retraces_modify fun _ => rfl) fun _ _ => retraces_pure _
    generalize (typeOfDeclaration environment _ trail.state).1 = type
    cases type with
    | function => exact (retraces_pure _).bind fun _ _ => pushes _ _
    | _ => exact retraces_fresh.bind fun _ _ => pushes _ _
  | recordDecl | enumerationDecl =>
    exact (retraces_typeOfDeclaration built distinct caseless inside).bind fun _ _ =>
      retraces_pure _
  | branch | loop =>
    exact Retraces.bind (retraces_modify fun _ => rfl) fun _ _ => retraces_pure _
  | _ => exact retraces_pure _

theorem retraces_leftType? :
    Retraces trail (Walk.leftType? environment node) (leftType? environment node) := by
  unfold Walk.leftType? leftType?
  obtain ⟨id, kind⟩ := node
  cases kind with
  | array elements => exact (retraces_arrayType _ _).bind fun _ _ => retraces_pure _
  | identifier | member =>
    exact (retraces_referenceType built distinct caseless id).bind fun _ _ => retraces_pure _
  | call callee arguments => exact (retraces_callType _ _ _).bind fun _ _ => retraces_pure _
  | argument label? expression => exact (retraces_typeOf _).bind fun _ _ => retraces_pure _
  | expressionStatement expression => exact (retraces_typeOf _).bind fun _ _ => retraces_pure _
  | placeholder => exact retraces_fresh.bind fun _ _ => retraces_pure _
  | binary => exact (retraces_binaryType _ _ _ _).bind fun _ _ => retraces_pure _
  | assignment target value =>
    exact (retraces_typeOf _).bind fun _ _ => (retraces_typeOf _).bind fun _ _ =>
      (retraces_constrain _ _ _).bind fun _ _ => retraces_pure _
  | functionDecl =>
    exact Retraces.bind (retraces_modify fun _ => rfl) fun _ _ =>
      (retraces_typeOfDeclaration built distinct caseless inside).bind fun _ _ => retraces_pure _
  | recordDecl | enumerationDecl | enumerationCase =>
    exact (retraces_typeOfDeclaration built distinct caseless inside).bind fun _ _ =>
      retraces_pure _
  | variableDecl | parameter =>
    exact (retraces_initializedType built distinct caseless inside _).bind fun _ _ =>
      retraces_pure _
  | returnStatement expression? =>
    cases expression? with
    | none => exact (retraces_pure _).bind fun _ _ => retraces_returned id _
    | some expression => exact (retraces_typeOf _).bind fun _ _ => retraces_returned id _
  | _ => exact retraces_pure _

/-- A node has no type before it is given one when it is left. -/
theorem retraces_leave {function? : Option Node}
    (awaited : Awaited environment root function? node trail.state) :
    Retraces trail (Walk.leave environment node) (leave environment node) := by
  have missing := awaited.missing built distinct inside
    (Prod.mk.eta (p := leftType? environment node trail.state)).symm
  refine (retraces_leftType? built distinct caseless inside).bind fun after left => ?_
  rw [← left] at missing
  generalize (leftType? environment node trail.state).1 = type?
  cases type? with
  | none => exact retraces_pure _
  | some type =>
    refine retraces_state.bind fun next same => ?_
    replace same : next.state = after.state := same
    rw [← same] at missing
    generalize ((get : Infer State) after.state).1 = state
    cases state.demanded[node.id]? with
    | none => exact retraces_setNodeType missing type
    | some expected =>
      refine Retraces.bind (retraces_modify fun _ => rfl) fun erased withoutDemand => ?_
      refine (retraces_constrain _ _ _).bind fun last demanded => retraces_setNodeType ?_ type
      rw [demanded]
      change erased.state.typing.nodes[node.id]? = none
      rw [withoutDemand]
      exact missing

omit inside

/-- A walk through a prepared moment comes to what inference comes to. -/
theorem advance_retraces {moment : Moment}
    (prepared : Prepared environment root moment trail.state) :
    (Walk.advance environment moment trail).2.state = environment.advance trail.state moment ∧
      trail.Continues (Walk.advance environment moment trail).2 := by
  have inside := prepared.mem_preorder
  cases moment with
  | entering node =>
    have entered : Retraces trail (Walk.advance environment (.entering node)) (do
        let _ ← enter environment node) :=
      (retraces_enter built distinct caseless inside).bind fun _ _ => retraces_pure ()
    exact ⟨entered.state, entered.continues⟩
  | leaving node =>
    obtain ⟨function?, awaited⟩ := prepared
    have left := retraces_leave built distinct caseless inside awaited
    exact ⟨left.state, left.continues⟩

/-- A walk through prepared moments comes to what inference comes to, and on the way it passes the
states that inference passes. -/
theorem through_retraces {stretch : List Moment}
    (prepared : Along environment (Prepared environment root) stretch trail.state) :
    (Walk.through environment stretch trail).2.state = environment.run stretch trail.state ∧
      trail.Continues (Walk.through environment stretch trail).2 ∧
      ∀ earlier later, stretch = earlier ++ later →
        environment.run earlier trail.state ∈
          (Walk.through environment stretch trail).2.states := by
  have here : trail.state ∈ trail.states := List.mem_reverse.2 List.mem_cons_self
  induction stretch generalizing trail with
  | nil =>
    refine ⟨rfl, .refl _, fun earlier later split => ?_⟩
    rw [(List.append_eq_nil_iff.1 split.symm).1]
    exact here
  | cons moment stretch ih =>
    obtain ⟨state, continues⟩ := advance_retraces built distinct caseless prepared.1
    obtain ⟨stateOn, continuesOn, passes⟩ :=
      ih (state ▸ prepared.2) (List.mem_reverse.2 List.mem_cons_self)
    rw [state] at stateOn passes
    refine ⟨stateOn, continues.trans continuesOn, fun earlier later split => ?_⟩
    cases earlier with
    | nil => exact (continues.trans continuesOn).states.mem here
    | cons first earlier =>
      obtain ⟨rfl, rest⟩ := List.cons.inj split
      exact passes earlier later rest

end Tour

end Inference

open Inference

/-- In a tree with distinct identities, in which no enumeration case stands among the parameters of
a function, inference can be followed step by step, past all states that it comes to at the moments
of its tour.  Each step enters at most one type of a node and at most one of a declaration, where
there was none, so that what is known in one state is known in all later ones.  The type that is
handed out for a node, a fresh variable or not, is the type of the node in the end; and whatever a
constraint says of a node, it says of this type. -/
theorem Typing.infer_lasting (root : Node) (distinct : root.Distinct)
    (caseless : root.CaselessParameters) :
    (∃ index, NodeIndex.build root = .ok index) ∧
    ∀ index, NodeIndex.build root = .ok index → ∀ (scope : Scope) (supply : VariableSupply),
      let environment : Environment := { scope, index }
      let typing := Typing.infer root scope index supply
      let trail := (Walk.through environment (moments root) { state := .initial supply }).2
      trail.state.typing = typing ∧
      (∀ earlier later, moments root = earlier ++ later →
        environment.run earlier (.initial supply) ∈ trail.states) ∧
      trail.states.IsChain Adds ∧
      trail.states.Pairwise Preserves ∧
      (∀ entry ∈ trail.handed, typing.nodes[entry.1]? = some entry.2) ∧
      ∀ constraint ∈ typing.constraints, ∃ place ∈ reached none root,
        Arises environment root typing place.1 place.2 constraint := by
  refine ⟨NodeIndex.build_ok distinct, fun index built scope supply => ?_⟩
  intro environment typing trail
  have prepared := prepared_moments built distinct root.self_mem_preorder
    (.start environment root supply)
  obtain ⟨state, continues, passes⟩ := @through_retraces { state := .initial supply } environment
    root built distinct caseless _ prepared
  have lasting : trail.Lasting := continues.lasting ⟨List.isChain_singleton _, nofun⟩
  have typed : trail.state.typing = typing :=
    (congrArg State.typing state).trans (Typing.infer_eq_run scope supply root index).symm
  exact ⟨typed, passes, lasting.adds, lasting.pairwise, typed ▸ lasting.handed,
    Typing.arises_infer distinct built scope supply⟩

/-- A variable that is initialized with the name of a type, numbered in preorder. -/
def misplacedType : Node :=
  .mk 0 (.program [.mk 1 (.variableDecl "width" none (some (.mk 2 (.typeName "Number" []))))])

/-- Inference gives the name of a type no type, so that a fresh variable is handed out for it. -/
theorem Typing.infer_lasting_misplacedType :
    misplacedType.Distinct ∧ misplacedType.CaselessParameters ∧
    ∃ index, NodeIndex.build misplacedType = .ok index ∧
      let typing := Typing.infer misplacedType {} index {}
      let trail := (Walk.through { scope := {}, index } (moments misplacedType)
        { state := .initial {} }).2
      typing.constraints.toList = [⟨.variable "?0", .variable "?1", 1⟩] ∧
      trail.states.Pairwise Preserves ∧
      (∀ entry ∈ trail.handed, typing.nodes[entry.1]? = some entry.2) ∧
      ∀ constraint ∈ typing.constraints, ∃ place ∈ reached none misplacedType,
        Arises { scope := {}, index } misplacedType typing place.1 place.2 constraint := by
  have distinct : misplacedType.Distinct := by
    unfold Node.Distinct
    decide +kernel
  have caseless : misplacedType.CaselessParameters := by decide +kernel
  obtain ⟨index, built⟩ := NodeIndex.build_ok distinct
  have told : Function.Injective fun constraint : Constraint =>
      (constraint.head, constraint.tail, constraint.origin) := by
    rintro ⟨⟩ ⟨⟩ ⟨⟩
    rfl
  have constraints : (Typing.infer misplacedType {}
      ((NodeIndex.build misplacedType).toOption.getD {}) {}).constraints.toList =
        [⟨.variable "?0", .variable "?1", 1⟩] :=
    List.map_injective_iff.2 told (by decide +kernel)
  rw [built] at constraints
  obtain ⟨-, -, -, preserves, handed, arises⟩ :=
    (Typing.infer_lasting misplacedType distinct caseless).2 _ built {} {}
  exact ⟨distinct, caseless, index, built, constraints, preserves, handed, arises⟩

end DeclLang
