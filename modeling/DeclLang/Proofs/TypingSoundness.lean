import DeclLang.Proofs.InferenceSteps
import DeclLang.Proofs.Unification

/-!
# Soundness of inference

**Input.**  A tree with distinct identities.

**Argument.**  Entering and leaving a node keeps everything known of nodes elsewhere, and leaving a
node establishes its rule with equality up to the constraints collected so far.  By induction on the
tree, after the tour the rule of every node that was reached holds with equality up to all
constraints.  Solving the constraints turns this into equality of solved types.

**Results.**  `Typing.infer_accepts`: if the constraints of a tree are solved without an error, the
solved types satisfy the rule of every node that inference comes to; all other nodes have no type;
and no constraint is blamed on a `return` outside of functions, unless it is itself an argument.
-/

namespace DeclLang

namespace Inference

/-- The condition of a branch or a loop. -/
def conditionOf? (node : Node) : Option Node :=
  match node.kind with
  | .branch condition _ | .loop condition _ => some condition
  | _ => none

/-- The nodes that constraints are blamed on when a node is left, and those that it demands
something of. -/
def blames (function? : Option Node) (node : Node) : List NodeId :=
  match node.kind with
  | .array _ | .binary .. | .assignment .. => [node.id]
  | .variableDecl _ _ initializer? | .parameter _ _ initializer? =>
    if initializer?.isSome then [node.id] else []
  | .call _ arguments => node.id :: arguments.map Node.id
  | .returnStatement _ => if function?.isSome then [node.id] else []
  | .branch condition _ | .loop condition _ => [condition.id]
  | _ => []

/-- The nodes of a tree that constraints are blamed on. -/
def explained (root : Node) : List NodeId :=
  (reached none root).flatMap fun place => blames place.1 place.2

/-- The return type that counts is the one of the innermost function. -/
def ReturnsTo (environment : Environment) (function? : Option Node) (state : State) : Prop :=
  match function? with
  | none => state.returnTypes = []
  | some function => ∃ received result, state.returnTypes.head? = some result ∧
      (judge environment state).Declares function (.function received result)

/-- What leaving a node relies on. -/
structure Awaited (environment : Environment) (root : Node) (function? : Option Node) (node : Node)
    (before : State) : Prop where
  place : (function?, node) ∈ reached none root
  declared : Declared environment root before
  returns : ReturnsTo environment (functionBelow function? node) before
  condition : ∀ condition, conditionOf? node = some condition →
    ∀ type, before.typing.nodes[condition.id]? = some type →
      Joined before.typing.constraints type .boolean
  untyped : before.typing.nodes[node.id]? = none
  traced : ∀ (id : NodeId) (type : StaticType), before.demanded[id]? = some type →
    id ∈ explained root

section Steps

variable {environment : Environment} {root : Node}
  (built : NodeIndex.build root = .ok environment.index) (distinct : root.Distinct)
  {function? : Option Node} {node : Node} (inside : node ∈ root.preorder)
  {before after : State}

theorem ReturnsTo.grows {parts blamed : List NodeId} {function? : Option Node}
    (h : ReturnsTo environment function? before)
    (grows : Grows environment root parts blamed before after)
    (same : after.returnTypes = before.returnTypes) : ReturnsTo environment function? after := by
  cases function? with
  | none => exact same.trans h
  | some function =>
    obtain ⟨received, result, innermost, declares⟩ := h
    exact ⟨received, result, same ▸ innermost, declares.mono grows.refines⟩

/-- The return types of the functions around a node, once the node is left. -/
def returnTypesAfter (node : Node) (returnTypes : List StaticType) : List StaticType :=
  match node.kind with
  | .functionDecl .. => returnTypes.tail
  | _ => returnTypes

/-- What is found out about a node when it is left, before it is given its type. -/
structure Left (environment : Environment) (root : Node) (function? : Option Node) (node : Node)
    (before after : State) (type? : Option StaticType) : Prop where
  grows : Grows environment root ((visited node).map Node.id) (blames function? node) before after
  demanded : after.demanded = before.demanded
  returnTypes : after.returnTypes = returnTypesAfter node before.returnTypes
  typed : type?.isSome = isTyped node
  rule : ∀ own, type? = some own → (judge environment after).Rule function? node own

theorem Extends.left {type : StaticType}
    (h : Extends environment root ((visited node).map Node.id) (blames function? node) before after)
    (ordinary : returnTypesAfter node before.returnTypes = before.returnTypes)
    (typed : isTyped node = true) (rule : (judge environment after).Rule function? node type) :
    Left environment root function? node before after (some type) where
  grows := h.toGrows
  demanded := h.demanded
  returnTypes := h.returnTypes.trans ordinary.symm
  typed := typed.symm
  rule := by
    rintro _ ⟨⟩
    exact rule

theorem Left.untyped (ordinary : returnTypesAfter node before.returnTypes = before.returnTypes)
    (typed : isTyped node = false) : Left environment root function? node before before none where
  grows := .refl
  demanded := rfl
  returnTypes := ordinary.symm
  typed := typed.symm
  rule := nofun

/-- What a `return` brings is held against the return type of the innermost function. -/
theorem expected_inv {id : NodeId} {expression? : Option Node} {parts blamed : List NodeId}
    {returned : StaticType} (known : ∀ expression, expression? = some expression →
      before.typing.nodes[expression.id]? = some returned)
    (nothing : expression? = none → returned = .unit)
    (own : ∀ function, function? = some function → id ∈ blamed)
    (returns : ReturnsTo environment function? before) {type? : Option StaticType}
    (h : (do
      if let some expected := (← (get : Infer State)).returnTypes.head? then
        constrain expected returned id
      return some StaticType.unit) before = (type?, after)) :
    type? = some .unit ∧ Extends environment root parts blamed before after ∧
      ∀ function, function? = some function → ∃ received result,
        (judge environment after).Declares function (.function received result) ∧
          (judge environment after).Returns expression? result := by
  obtain ⟨_, _, got, h⟩ := bind_inv h
  cases got
  cases function? with
  | none =>
    have empty : before.returnTypes = [] := returns
    rw [empty] at h
    cases h
    exact ⟨rfl, .refl, nofun⟩
  | some function =>
    obtain ⟨received, result, innermost, declares⟩ := returns
    rw [innermost] at h
    obtain ⟨_, _, demanded, h⟩ := bind_inv h
    cases h
    obtain ⟨extends_, joined, joined'⟩ := constrain_inv (own function rfl) demanded
    refine ⟨rfl, extends_, ?_⟩
    rintro _ ⟨⟩
    refine ⟨received, result, declares.mono extends_.refines, ?_⟩
    cases expression? with
    | none =>
      rw [nothing rfl] at joined'
      exact joined'
    | some expression => exact ⟨returned, extends_.nodes _ _ (known expression rfl), joined'⟩

theorem returned_inv {id : NodeId} {expression? : Option Node} {parts blamed : List NodeId}
    (below : ∀ expression, expression? = some expression → expression.id ∈ parts)
    (own : ∀ function, function? = some function → id ∈ blamed)
    (returns : ReturnsTo environment function? before)
    {type? : Option StaticType}
    (h : leftType? environment (.mk id (.returnStatement expression?)) before = (type?, after)) :
    type? = some .unit ∧ Extends environment root parts blamed before after ∧
      ∀ function, function? = some function → ∃ received result,
        (judge environment after).Declares function (.function received result) ∧
          (judge environment after).Returns expression? result := by
  cases expression? with
  | none =>
    obtain ⟨_, _, brought, h⟩ := bind_inv h
    cases brought
    have known (other : Node) (same : none = some other) :
        before.typing.nodes[other.id]? = some StaticType.unit := nomatch same
    exact expected_inv known (fun _ => rfl) own returns h
  | some expression =>
    obtain ⟨returned, middle, typed, h⟩ := bind_inv h
    have first : Extends environment root parts blamed before middle ∧ _ :=
      typeOf_inv (below expression rfl) typed
    have known (other : Node) (same : some expression = some other) :
        middle.typing.nodes[other.id]? = some returned := by
      cases same
      exact first.2
    have nothing : some expression = none → returned = .unit := nofun
    obtain ⟨brought, second, rule⟩ := expected_inv known nothing own
      (returns.grows first.1.toGrows first.1.returnTypes) h
    exact ⟨brought, first.1.trans second, rule⟩

/-- What entering a node prepares. -/
structure Entered (environment : Environment) (root : Node) (function? : Option Node) (node : Node)
    (before after : State) (direction : Direction) : Prop where
  grows : Grows environment root [] [] before after
  direction : direction = if passesOver node then .pass else .descend
  returns : ReturnsTo environment (functionBelow function? node) after
  returnTypes : returnTypesAfter node after.returnTypes = before.returnTypes
  demanded : after.demanded = match conditionOf? node with
    | some condition => before.demanded.insert condition.id .boolean
    | none => before.demanded

/-- What a node is left with: its type, its rule, and what was demanded of it. -/
structure Settled (environment : Environment) (root : Node) (function? : Option Node) (node : Node)
    (before after : State) : Prop where
  grows : Grows environment root (node.id :: (visited node).map Node.id) (explained root) before
    after
  returnTypes : after.returnTypes = returnTypesAfter node before.returnTypes
  demanded : ∀ id, id ≠ node.id → after.demanded[id]? = before.demanded[id]?
  remaining : ∀ (id : NodeId) (type : StaticType), after.demanded[id]? = some type →
    before.demanded[id]? = some type
  rule : isTyped node = true → ∃ own, after.typing.nodes[node.id]? = some own ∧
    (judge environment after).Rule function? node own
  demand : ∀ (expected own : StaticType), before.demanded[node.id]? = some expected →
    after.typing.nodes[node.id]? = some own → Joined after.typing.constraints own expected

/-- The type that a node is given at last settles it. -/
theorem settled_of_setNodeType (own : node.Distinct) {middle : State} {type : StaticType}
    (grows : Grows environment root (node.id :: (visited node).map Node.id) (explained root)
      before middle)
    (missing : middle.typing.nodes[node.id]? = none)
    (returnTypes : middle.returnTypes = returnTypesAfter node before.returnTypes)
    (demanded : ∀ id, id ≠ node.id → middle.demanded[id]? = before.demanded[id]?)
    (remaining : ∀ (id : NodeId) (type : StaticType), middle.demanded[id]? = some type →
      before.demanded[id]? = some type)
    (rule : (judge environment middle).Rule function? node type)
    (demand : ∀ expected, before.demanded[node.id]? = some expected →
      Joined middle.typing.constraints type expected)
    {done : Unit} (h : setNodeType node.id type middle = (done, after)) :
    Settled environment root function? node before after := by
  have last : Extends environment root [node.id] (explained root) middle after ∧ _ :=
    setNodeType_inv (List.mem_singleton_self _) missing h
  have untouched (child : Node) (mem : child ∈ node.children) :
      after.typing.nodes[child.id]? = middle.typing.nodes[child.id]? := by
    refine last.1.others _ fun same => own.not_mem_child mem ?_
    rw [← List.mem_singleton.1 same]
    exact Node.id_mem_identities child.self_mem_preorder
  refine ⟨grows.trans (last.1.toGrows.mono ?_ (List.Subset.refl _)), ?_, ?_, ?_, ?_, ?_⟩
  · exact List.cons_subset_cons _ (List.nil_subset _)
  · exact last.1.returnTypes.trans returnTypes
  · intro id other
    rw [last.1.demanded]
    exact demanded id other
  · intro id type remains
    rw [last.1.demanded] at remains
    exact remaining id type remains
  · exact fun _ => ⟨type, last.2, rule.mono last.1.refines untouched⟩
  · intro expected other wanted known
    rw [last.2] at known
    cases known
    exact last.1.joined (demand expected wanted)

/-- Both sides of an assignment have one type. -/
theorem assignmentLeft_inv {id : NodeId} {target value : Node} {type? : Option StaticType}
    (h : leftType? environment (.mk id (.assignment target value)) before = (type?, after)) :
    Left environment root function? (.mk id (.assignment target value)) before after type? := by
  obtain ⟨targetType, s₁, typedTarget, h⟩ := bind_inv h
  obtain ⟨valueType, s₂, typedValue, h⟩ := bind_inv h
  obtain ⟨_, s₃, demanded, h⟩ := bind_inv h
  cases h
  obtain ⟨first, knownTarget⟩ := typeOf_inv (List.mem_map_of_mem List.mem_cons_self) typedTarget
  obtain ⟨second, knownValue⟩ :=
    typeOf_inv (List.mem_map_of_mem (List.mem_cons_of_mem _ List.mem_cons_self)) typedValue
  obtain ⟨third, joined, -⟩ := constrain_inv (List.mem_singleton_self _) demanded
  refine ((first.trans second).trans third).left rfl rfl ⟨.refl _ _, valueType, ?_, ?_⟩
  · exact ⟨targetType, third.nodes _ _ (second.nodes _ _ knownTarget), joined⟩
  · exact ⟨valueType, third.nodes _ _ knownValue, .refl _ _⟩

/-- A `return` has the unit type, and brings what its function returns. -/
theorem returnLeft_inv {id : NodeId} {expression? : Option Node}
    (returns : ReturnsTo environment function? before) {type? : Option StaticType}
    (h : leftType? environment (.mk id (.returnStatement expression?)) before = (type?, after)) :
    Left environment root function? (.mk id (.returnStatement expression?)) before after type? := by
  have below (expression : Node) (given : expression? = some expression) :
      expression.id ∈ (visited (.mk id (.returnStatement expression?))).map Node.id := by
    subst given
    exact List.mem_singleton_self _
  have own (function : Node) (around : function? = some function) :
      id ∈ blames function? (.mk id (.returnStatement expression?)) := by
    subst around
    exact List.mem_singleton_self _
  obtain ⟨rfl, extends_, returned⟩ := returned_inv below own returns h
  exact extends_.left rfl rfl ⟨.refl _ _, returned⟩

include built distinct inside

/-- A function has the type that it is declared with, and is no longer one of the functions
around. -/
theorem functionLeft_inv (declared : Declared environment root before) {id : NodeId} {name : String}
    {generics parameters body : List Node} {result : Node}
    (same : node = .mk id (.functionDecl name generics parameters result body))
    {type? : Option StaticType} (h : leftType? environment node before = (type?, after)) :
    Left environment root function? node before after type? := by
  subst same
  obtain ⟨_, s₁, popped, h⟩ := bind_inv h
  obtain ⟨own, _, found, h⟩ := bind_inv h
  cases h
  cases popped
  have stillDeclared : Declared environment root
      { before with returnTypes := before.returnTypes.tail } := declared
  obtain ⟨extends_, declares⟩ := typeOfDeclaration_inv built distinct inside stillDeclared found
  refine ⟨⟨extends_.constraints, extends_.nodes, extends_.others, extends_.declarations,
    extends_.declared⟩, extends_.demanded, extends_.returnTypes, rfl, ?_⟩
  rintro _ ⟨⟩
  exact ⟨own, declares, .refl _ _⟩

/-- A variable has the type that it is declared with, and so has its initializer. -/
theorem variableLeft_inv (declared : Declared environment root before) {id : NodeId} {name : String}
    {ascription? initializer? : Option Node}
    (same : node = .mk id (.variableDecl name ascription? initializer?))
    {type? : Option StaticType} (h : leftType? environment node before = (type?, after)) :
    Left environment root function? node before after type? := by
  subst same
  obtain ⟨own, _, found, h⟩ := bind_inv h
  cases h
  have below (initializer : Node) (given : initializer? = some initializer) :
      initializer.id ∈
        (visited (.mk id (.variableDecl name ascription? initializer?))).map Node.id ∧
        id ∈ blames function? (.mk id (.variableDecl name ascription? initializer?)) := by
    subst given
    exact ⟨List.mem_map_of_mem (by simp [visited, passesOver, Node.children, Kind.children]),
      List.mem_singleton_self _⟩
  obtain ⟨extends_, declares, initialized⟩ :=
    initializedType_inv built distinct inside declared below found
  exact extends_.left rfl rfl ⟨own, declares, .refl _ _, initialized⟩

/-- A parameter has the type that it is declared with, and so has its default. -/
theorem parameterLeft_inv (declared : Declared environment root before) {id : NodeId}
    {name : String} {ascription : Node} {default? : Option Node}
    (same : node = .mk id (.parameter name ascription default?))
    {type? : Option StaticType} (h : leftType? environment node before = (type?, after)) :
    Left environment root function? node before after type? := by
  subst same
  obtain ⟨own, _, found, h⟩ := bind_inv h
  cases h
  have below (initializer : Node) (given : default? = some initializer) :
      initializer.id ∈ (visited (.mk id (.parameter name ascription default?))).map Node.id ∧
        id ∈ blames function? (.mk id (.parameter name ascription default?)) := by
    subst given
    exact ⟨List.mem_map_of_mem (by simp [visited, passesOver, Node.children, Kind.children]),
      List.mem_singleton_self _⟩
  obtain ⟨extends_, declares, initialized⟩ :=
    initializedType_inv built distinct inside declared below found
  exact extends_.left rfl rfl ⟨own, declares, .refl _ _, initialized⟩

/-- The rule of a node holds once the node is left. -/
theorem leftType_inv (declared : Declared environment root before)
    (returns : ReturnsTo environment (functionBelow function? node) before)
    (condition : ∀ condition, conditionOf? node = some condition →
      ∀ type, before.typing.nodes[condition.id]? = some type →
        Joined before.typing.constraints type .boolean)
    {type? : Option StaticType} (h : leftType? environment node before = (type?, after)) :
    Left environment root function? node before after type? := by
  have child {part : Node} (mem : part ∈ visited node) : part.id ∈ (visited node).map Node.id :=
    List.mem_map_of_mem mem
  obtain ⟨id, kind⟩ := node
  cases kind with
  | literal value =>
    cases h
    exact Extends.refl.left rfl rfl (.refl _ _)
  | array elements =>
    obtain ⟨own, _, found, h⟩ := bind_inv h
    cases h
    obtain ⟨extends_, element, rfl, items⟩ := arrayType_inv (List.mem_singleton_self _)
      (fun item mem => child mem) found
    exact extends_.left rfl rfl ⟨element, .refl _ _, items⟩
  | identifier name | member object name =>
    obtain ⟨own, _, found, h⟩ := bind_inv h
    cases h
    obtain ⟨extends_, refers⟩ := referenceType_inv built distinct declared found
    exact extends_.left rfl rfl refers
  | call callee arguments =>
    obtain ⟨own, _, found, h⟩ := bind_inv h
    cases h
    obtain ⟨extends_, slots, called, received⟩ := callType_inv List.mem_cons_self
      (child List.mem_cons_self) (fun argument mem => child (List.mem_cons_of_mem _ mem))
      (fun argument mem => List.mem_cons_of_mem _ (List.mem_map_of_mem mem)) found
    exact extends_.left rfl rfl ⟨slots, own, .refl _ _, called, received⟩
  | argument label? expression =>
    obtain ⟨own, _, found, h⟩ := bind_inv h
    cases h
    obtain ⟨extends_, known⟩ := typeOf_inv (child List.mem_cons_self) found
    exact extends_.left rfl rfl ⟨own, known, .refl _ _⟩
  | expressionStatement expression =>
    obtain ⟨own, _, found, h⟩ := bind_inv h
    cases h
    obtain ⟨extends_, known⟩ := typeOf_inv (child List.mem_cons_self) found
    exact extends_.left rfl rfl ⟨own, known, .refl _ _⟩
  | placeholder =>
    obtain ⟨own, _, found, h⟩ := bind_inv h
    cases h
    exact (fresh_inv found).1.left rfl rfl trivial
  | binary operator left right =>
    obtain ⟨own, _, found, h⟩ := bind_inv h
    cases h
    obtain ⟨extends_, operand, operates, operands⟩ := binaryType_inv (List.mem_singleton_self _)
      (child (by simp [visited, passesOver, Node.children, Kind.children]))
      (child (by simp [visited, passesOver, Node.children, Kind.children])) found
    exact extends_.left rfl rfl ⟨operand, own, operates, .refl _ _, operands⟩
  | assignment => exact assignmentLeft_inv h
  | functionDecl => exact functionLeft_inv built distinct inside declared rfl h
  | recordDecl | enumerationDecl | enumerationCase =>
    obtain ⟨own, _, found, h⟩ := bind_inv h
    cases h
    obtain ⟨extends_, declares⟩ := typeOfDeclaration_inv built distinct inside declared found
    exact extends_.left rfl rfl ⟨own, declares, .refl _ _⟩
  | variableDecl => exact variableLeft_inv built distinct inside declared rfl h
  | parameter => exact parameterLeft_inv built distinct inside declared rfl h
  | returnStatement => exact returnLeft_inv returns h
  | branch condition_ block =>
    cases h
    exact Extends.refl.left rfl rfl ⟨.refl _ _, condition condition_ rfl⟩
  | loop condition_ block =>
    cases h
    exact Extends.refl.left rfl rfl ⟨.refl _ _, condition condition_ rfl⟩
  | program | namespaceDecl | importDecl | genericParameter | typeName | functionType =>
    cases h
    exact .untyped rfl rfl

/-- A node that is left has no type before it is given one. -/
theorem Awaited.missing (awaited : Awaited environment root function? node before)
    {type? : Option StaticType} (h : leftType? environment node before = (type?, after)) :
    after.typing.nodes[node.id]? = none := by
  have left := leftType_inv built distinct inside awaited.declared awaited.returns
    awaited.condition h
  refine (left.grows.others _ fun mem => ?_).trans awaited.untyped
  obtain ⟨child, visit, same⟩ := List.mem_map.1 mem
  exact (distinct.inner inside).not_mem_child (mem_children_of_mem_visited visit)
    (same ▸ Node.id_mem_identities child.self_mem_preorder)

/-- A node is settled once it is left. -/
theorem leave_inv (awaited : Awaited environment root function? node before)
    {done : Unit} (h : leave environment node before = (done, after)) :
    Settled environment root function? node before after := by
  have own := distinct.inner inside
  have blamed : blames function? node ⊆ explained root := fun id mem =>
    List.mem_flatMap.2 ⟨_, awaited.place, mem⟩
  obtain ⟨type?, middle, found, h⟩ := bind_inv h
  have left := leftType_inv built distinct inside awaited.declared awaited.returns
    awaited.condition found
  have grows := left.grows.mono (List.subset_cons_self node.id _) blamed
  have missing := awaited.missing built distinct inside found
  cases type? with
  | none =>
    cases h
    refine ⟨grows, left.returnTypes, fun _ _ => by rw [left.demanded], fun _ _ remains => ?_,
      fun typed => ?_, fun _ own _ known => ?_⟩
    · rwa [left.demanded] at remains
    · rw [← left.typed] at typed
      cases typed
    · rw [missing] at known
      cases known
  | some type =>
    have rule := left.rule type rfl
    obtain ⟨_, _, got, h⟩ := bind_inv h
    cases got
    cases wanted : middle.demanded[node.id]? with
    | none =>
      rw [wanted] at h
      refine settled_of_setNodeType own grows missing left.returnTypes ?_ ?_ rule ?_ h
      · exact fun _ _ => by rw [left.demanded]
      · intro id type remains
        rwa [left.demanded] at remains
      · intro expected unmet
        rw [← left.demanded, wanted] at unmet
        cases unmet
    | some expected =>
      rw [wanted] at h
      obtain ⟨_, _, erased, h⟩ := bind_inv h
      cases erased
      obtain ⟨_, last, demanded, h⟩ := bind_inv h
      have here : node.id ∈ explained root :=
        awaited.traced _ expected (by rw [← left.demanded, wanted])
      have next : Extends environment root [] (explained root)
          { middle with demanded := middle.demanded.erase node.id } last ∧ _ :=
        constrain_inv here demanded
      have further : Grows environment root [] (explained root) middle last :=
        ⟨next.1.constraints, next.1.nodes, next.1.others, next.1.declarations, next.1.declared⟩
      have unchanged (id : NodeId) : last.typing.nodes[id]? = middle.typing.nodes[id]? :=
        further.others id List.not_mem_nil
      have erasure (id : NodeId) : last.demanded[id]? =
          if id = node.id then none else before.demanded[id]? := by
        rw [next.1.demanded, ← left.demanded, Std.TreeMap.getElem?_erase]
        by_cases same : id = node.id
        · rw [if_pos same, if_pos (Nat.compare_eq_eq.2 same.symm)]
        · rw [if_neg same, if_neg fun equal => same (Nat.compare_eq_eq.1 equal).symm]
      refine settled_of_setNodeType own
        (grows.trans (further.mono (List.nil_subset _) (List.Subset.refl _)))
        ((unchanged _).trans missing) (next.1.returnTypes.trans left.returnTypes) ?_ ?_
        (rule.mono further.refines fun child _ => unchanged child.id) ?_ h
      · intro id other
        rw [erasure, if_neg other]
      · intro id type remains
        rw [erasure] at remains
        split at remains
        · cases remains
        · exact remains
      · intro other same
        rw [← left.demanded, wanted] at same
        cases same
        exact next.2.2

theorem enter_inv (declared : Declared environment root before)
    (returns : ReturnsTo environment function? before) {direction : Direction}
    (h : enter environment node before = (direction, after)) :
    Entered environment root function? node before after direction := by
  obtain ⟨id, kind⟩ := node
  cases kind with
  | functionDecl name generics parameters result body =>
    obtain ⟨type, middle, found, h⟩ := bind_inv h
    have first : Extends environment root [] [] before middle ∧ _ :=
      typeOfDeclaration_inv built distinct inside declared found
    obtain ⟨received, returned, rfl, -⟩ := first.2.2
    obtain ⟨_, _, nothing, h⟩ := bind_inv h
    cases nothing
    obtain ⟨_, _, pushed, h⟩ := bind_inv h
    cases pushed
    cases h
    exact ⟨⟨first.1.constraints, first.1.nodes, first.1.others, first.1.declarations,
      first.1.declared⟩, rfl, ⟨received, returned, rfl, first.2⟩, first.1.returnTypes,
      first.1.demanded⟩
  | recordDecl | enumerationDecl =>
    obtain ⟨type, middle, found, h⟩ := bind_inv h
    cases h
    have first : Extends environment root [] [] before after ∧ _ :=
      typeOfDeclaration_inv built distinct inside declared found
    exact ⟨first.1.toGrows, rfl, returns.grows first.1.toGrows first.1.returnTypes,
      first.1.returnTypes, first.1.demanded⟩
  | branch condition block | loop condition block =>
    cases h
    exact ⟨⟨⟨[], by simp⟩, fun _ _ h => h, fun _ _ => rfl, fun _ _ h => h, fun h => h⟩, rfl,
      returns, rfl, rfl⟩
  | _ =>
    cases h
    exact ⟨.refl, rfl, returns, rfl, rfl⟩

end Steps

/-- The identities of the nodes reached in a tree. -/
def reachedIds (function? : Option Node) (nodes : List Node) : List NodeId :=
  (nodes.flatMap (reached function?)).map fun place => place.2.id

theorem mem_reachedIds_iff {function? : Option Node} {nodes : List Node} {id : NodeId} :
    id ∈ reachedIds function? nodes ↔
      ∃ node ∈ nodes, ∃ place ∈ reached function? node, place.2.id = id := by
  unfold reachedIds
  simp only [List.mem_map, List.mem_flatMap]
  constructor
  · rintro ⟨place, ⟨node, mem, inside⟩, same⟩
    exact ⟨node, mem, place, inside, same⟩
  · rintro ⟨node, mem, place, inside, same⟩
    exact ⟨place, ⟨node, mem, inside⟩, same⟩

theorem reachedIds_mono (function? : Option Node) {nodes more : List Node} (h : nodes ⊆ more) :
    reachedIds function? nodes ⊆ reachedIds function? more := by
  intro id mem
  obtain ⟨node, inside, place⟩ := mem_reachedIds_iff.1 mem
  exact mem_reachedIds_iff.2 ⟨node, h inside, place⟩

theorem reachedIds_subset (function? : Option Node) (nodes : List Node) :
    reachedIds function? nodes ⊆ nodes.flatMap Node.identities := by
  intro id mem
  obtain ⟨node, inside, place, reached, rfl⟩ := mem_reachedIds_iff.1 mem
  exact List.mem_flatMap.2
    ⟨node, inside, Node.id_mem_identities (mem_preorder_of_mem_reached reached)⟩

/-- What a tour of several nodes, one after the other, finds out about all that is reached in
them. -/
structure Toured (environment : Environment) (root : Node) (function? : Option Node)
    (nodes : List Node) (before after : State) : Prop where
  grows : Grows environment root (reachedIds function? nodes) (explained root) before after
  returnTypes : after.returnTypes = before.returnTypes
  demanded : ∀ id, id ∉ nodes.flatMap Node.identities →
    after.demanded[id]? = before.demanded[id]?
  traced : ∀ (id : NodeId) (type : StaticType), after.demanded[id]? = some type →
    id ∈ explained root
  rules : ∀ place ∈ nodes.flatMap (reached function?), isTyped place.2 = true →
    ∃ own, after.typing.nodes[place.2.id]? = some own ∧
      (judge environment after).Rule place.1 place.2 own
  demand : ∀ node ∈ nodes, ∀ expected own : StaticType,
    before.demanded[node.id]? = some expected → after.typing.nodes[node.id]? = some own →
      Joined after.typing.constraints own expected

section Tours

variable {environment : Environment} {root : Node} {function? : Option Node}
  {before middle after : State}

/-- A rule that was established stays, as long as nothing becomes known of the children. -/
theorem Grows.rule {parts blamed : List NodeId}
    (grows : Grows environment root parts blamed before after) {node : Node}
    (apart : ∀ child ∈ node.children, child.id ∉ parts)
    (h : ∃ own, before.typing.nodes[node.id]? = some own ∧
      (judge environment before).Rule function? node own) :
    ∃ own, after.typing.nodes[node.id]? = some own ∧
      (judge environment after).Rule function? node own := by
  obtain ⟨own, known, rule⟩ := h
  exact ⟨own, grows.nodes _ _ known,
    rule.mono grows.refines fun child mem => grows.others _ (apart child mem)⟩

theorem Toured.nil (traced : ∀ (id : NodeId) (type : StaticType),
    before.demanded[id]? = some type → id ∈ explained root) :
    Toured environment root function? [] before before where
  grows := .refl
  returnTypes := rfl
  demanded _ _ := rfl
  traced := traced
  rules := nofun
  demand := nofun

theorem Toured.cons {node : Node} {nodes : List Node}
    (first : Toured environment root function? [node] before middle)
    (rest : Toured environment root function? nodes middle after)
    (disjoint : ∀ other ∈ nodes, node.identities.Disjoint other.identities) :
    Toured environment root function? (node :: nodes) before after := by
  have apart (id : NodeId) (mem : id ∈ node.identities) :
      id ∉ nodes.flatMap Node.identities := by
    intro elsewhere
    obtain ⟨other, inside, there⟩ := List.mem_flatMap.1 elsewhere
    exact disjoint other inside mem there
  have untouched (id : NodeId) (mem : id ∈ node.identities) : id ∉ reachedIds function? nodes :=
    fun elsewhere => apart id mem (reachedIds_subset function? nodes elsewhere)
  refine ⟨(first.grows.mono ?_ (List.Subset.refl _)).trans
    (rest.grows.mono ?_ (List.Subset.refl _)), rest.returnTypes.trans first.returnTypes,
    ?_, rest.traced, ?_, ?_⟩
  · exact reachedIds_mono function? (List.cons_subset_cons _ (List.nil_subset _))
  · exact reachedIds_mono function? (List.subset_cons_self _ _)
  · intro id outside
    rw [List.flatMap_cons, List.mem_append, not_or] at outside
    rw [rest.demanded id outside.2, first.demanded id (by simpa using outside.1)]
  · intro place mem typed
    rw [List.flatMap_cons, List.mem_append] at mem
    rcases mem with mem | mem
    · refine rest.grows.rule (fun child below => untouched _ ?_)
        (first.rules place (by simpa using mem) typed)
      have inside := mem_preorder_of_mem_reached mem
      exact Node.identities_subset inside (Node.id_mem_identities
        (Node.mem_preorder_of_mem_children below child.self_mem_preorder))
    · exact rest.rules place mem typed
  · rintro other mem expected own wanted known
    rcases List.mem_cons.1 mem with rfl | mem
    · have own_ := Node.id_mem_identities other.self_mem_preorder
      rw [rest.grows.others _ (untouched _ own_)] at known
      exact rest.grows.joined (first.demand other (by simp) expected own wanted known)
    · refine rest.demand other mem expected own ?_ known
      rw [first.demanded, wanted]
      intro here
      refine disjoint other mem ?_ (Node.id_mem_identities other.self_mem_preorder)
      simpa using here

/-- What a tour of several nodes relies on. -/
structure Ready (environment : Environment) (root : Node) (function? : Option Node)
    (nodes : List Node) (before : State) : Prop where
  places : ∀ node ∈ nodes, reached function? node ⊆ reached none root
  untyped : ∀ id ∈ nodes.flatMap Node.identities, before.typing.nodes[id]? = none
  declared : Declared environment root before
  returns : ReturnsTo environment function? before
  traced : ∀ (id : NodeId) (type : StaticType), before.demanded[id]? = some type →
    id ∈ explained root

/-- Before a tour of the whole tree everything is ready. -/
theorem Ready.start (environment : Environment) (root : Node) (supply : VariableSupply) :
    Ready environment root none [root] { typing := { supply } } where
  places node mem := by
    rw [List.mem_singleton.1 mem]
    exact List.Subset.refl _
  untyped _ _ := rfl
  declared := nofun
  returns := rfl
  traced := nofun

/-- What is ready for several nodes is ready for the first of them. -/
theorem Ready.head {node : Node} {nodes : List Node}
    (ready : Ready environment root function? (node :: nodes) before) :
    Ready environment root function? [node] before where
  places other mem := ready.places other (by
    rw [List.mem_singleton.1 mem]
    exact List.mem_cons_self)
  untyped id mem := ready.untyped id (by simp at mem ⊢; exact .inl mem)
  declared := ready.declared
  returns := ready.returns
  traced := ready.traced

/-- After the tour of the first node, what was ready for several nodes is ready for the others. -/
theorem Ready.tail {node : Node} {nodes : List Node}
    (ready : Ready environment root function? (node :: nodes) before)
    (first : Toured environment root function? [node] before middle)
    (disjoint : ∀ other ∈ nodes, node.identities.Disjoint other.identities) :
    Ready environment root function? nodes middle where
  places other mem := ready.places other (List.mem_cons_of_mem _ mem)
  untyped id mem := by
    rw [first.grows.others]
    · exact ready.untyped id (List.mem_append_right _ mem)
    · intro here
      obtain ⟨other, inside, there⟩ := List.mem_flatMap.1 mem
      refine disjoint other inside ?_ there
      simpa using reachedIds_subset function? [node] here
  declared := first.grows.declared ready.declared
  returns := ready.returns.grows first.grows first.returnTypes
  traced := first.traced

/-- Tours of nodes that have no identity in common follow each other. -/
theorem toured_foldl {nodes : List Node}
    (disjoint : nodes.Pairwise fun left right => left.identities.Disjoint right.identities)
    (each : ∀ node ∈ nodes, ∀ before, Ready environment root function? [node] before →
      Toured environment root function? [node] before
        (node.collect (visitor environment) before))
    (ready : Ready environment root function? nodes before) :
    Toured environment root function? nodes before
      (nodes.foldl (fun state node => node.collect (visitor environment) state) before) := by
  induction nodes generalizing before with
  | nil => exact .nil ready.traced
  | cons node nodes ih =>
    rw [List.pairwise_cons] at disjoint
    have first := each node List.mem_cons_self before ready.head
    exact first.cons (ih disjoint.2 (fun other mem => each other (List.mem_cons_of_mem _ mem))
      (ready.tail first disjoint.1)) disjoint.1

theorem enter_descends (environment : Environment) (node : Node) (state : State) :
    (enter environment node state).1 ≠ .stop := by
  cases h : enter environment node state with
  | mk direction after =>
    obtain ⟨id, kind⟩ := node
    cases kind with
    | functionDecl name generics parameters result body =>
      obtain ⟨type, middle, -, h⟩ := bind_inv h
      cases type <;>
      · obtain ⟨_, _, -, h⟩ := bind_inv h
        obtain ⟨_, _, -, h⟩ := bind_inv h
        cases h
        exact nofun
    | recordDecl | enumerationDecl =>
      obtain ⟨type, middle, -, h⟩ := bind_inv h
      cases h
      exact nofun
    | _ =>
      cases h
      exact nofun

theorem mem_children_of_conditionOf {node condition : Node}
    (h : conditionOf? node = some condition) : condition ∈ visited node := by
  obtain ⟨id, kind⟩ := node
  cases kind with
  | branch | loop =>
    cases h
    exact List.mem_cons_self
  | _ => cases h

theorem mem_blames_of_conditionOf {node condition : Node}
    (h : conditionOf? node = some condition) : condition.id ∈ blames function? node := by
  obtain ⟨id, kind⟩ := node
  cases kind with
  | branch | loop =>
    cases h
    exact List.mem_cons_self
  | _ => cases h

/-- Entering a node makes everything ready for its children. -/
theorem Entered.ready {node : Node} {entered : State} {direction : Direction}
    (enters : Entered environment root function? node before entered direction)
    (ready : Ready environment root function? [node] before) :
    Ready environment root (functionBelow function? node) (visited node) entered where
  places child mem := fun place inside =>
    ready.places node List.mem_cons_self (mem_reached_iff.2 (.inr ⟨child, mem, inside⟩))
  untyped id mem := by
    rw [enters.grows.others id List.not_mem_nil]
    obtain ⟨child, inside, there⟩ := List.mem_flatMap.1 mem
    refine ready.untyped id (List.mem_flatMap.2 ⟨node, List.mem_cons_self, ?_⟩)
    rw [Node.identities_eq]
    exact List.mem_cons_of_mem _
      (List.mem_flatMap.2 ⟨child, mem_children_of_mem_visited inside, there⟩)
  declared := enters.grows.declared ready.declared
  returns := enters.returns
  traced id type found := by
    rw [enters.demanded] at found
    cases h : conditionOf? node with
    | none =>
      rw [h] at found
      exact ready.traced id type found
    | some condition =>
      rw [h, Std.TreeMap.getElem?_insert] at found
      split at found
      · rename_i same
        rw [← Nat.compare_eq_eq.1 same]
        exact List.mem_flatMap.2 ⟨_, ready.places node List.mem_cons_self
          (self_mem_reached function? node), mem_blames_of_conditionOf h⟩
      · exact ready.traced id type found

/-- Entering a node, touring its children and leaving it tours the node. -/
theorem Entered.toured {node : Node} {entered below left : State} {direction : Direction}
    (enters : Entered environment root function? node before entered direction)
    (own : node.Distinct)
    (children : Toured environment root (functionBelow function? node) (visited node) entered below)
    (settled : Settled environment root function? node below left) :
    Toured environment root function? [node] before left := by
  have outside : node.id ∉ (visited node).flatMap Node.identities := by
    intro mem
    obtain ⟨child, inside, there⟩ := List.mem_flatMap.1 mem
    exact own.not_mem_child (mem_children_of_mem_visited inside) there
  have demandedBefore (id : NodeId) (h : ∀ condition, conditionOf? node = some condition →
      id ≠ condition.id) : entered.demanded[id]? = before.demanded[id]? := by
    rw [enters.demanded]
    cases found : conditionOf? node with
    | none => rfl
    | some condition =>
      dsimp only
      rw [Std.TreeMap.getElem?_insert, if_neg]
      exact fun same => h condition found (Nat.compare_eq_eq.1 same).symm
  have parts : node.id :: (visited node).map Node.id ⊆ reachedIds function? [node] := by
    intro id mem
    refine mem_reachedIds_iff.2 ⟨node, List.mem_cons_self, ?_⟩
    rcases List.mem_cons.1 mem with rfl | mem
    · exact ⟨_, self_mem_reached function? node, rfl⟩
    · obtain ⟨child, inside, rfl⟩ := List.mem_map.1 mem
      exact ⟨_, mem_reached_iff.2 (.inr ⟨child, inside, self_mem_reached _ child⟩), rfl⟩
  have below_ : reachedIds (functionBelow function? node) (visited node) ⊆
      reachedIds function? [node] := by
    intro id mem
    obtain ⟨child, inside, place, reached, rfl⟩ := mem_reachedIds_iff.1 mem
    exact mem_reachedIds_iff.2 ⟨node, List.mem_cons_self, place,
      mem_reached_iff.2 (.inr ⟨child, inside, reached⟩), rfl⟩
  have all : (Grows environment root (reachedIds function? [node]) (explained root)
      before left) :=
    ((enters.grows.mono (List.nil_subset _) (List.nil_subset _)).trans
      (children.grows.mono below_ (List.Subset.refl _))).trans
      (settled.grows.mono parts (List.Subset.refl _))
  refine ⟨all, ?_, ?_, ?_, ?_, ?_⟩
  · rw [settled.returnTypes, children.returnTypes, enters.returnTypes]
  · intro id elsewhere
    rw [List.flatMap_cons, List.flatMap_nil, List.append_nil, Node.identities_eq,
      List.mem_cons, not_or] at elsewhere
    have notBelow : id ∉ (visited node).flatMap Node.identities := by
      intro mem
      obtain ⟨child, inside, there⟩ := List.mem_flatMap.1 mem
      exact elsewhere.2 (List.mem_flatMap.2 ⟨child, mem_children_of_mem_visited inside, there⟩)
    rw [settled.demanded id elsewhere.1, children.demanded id notBelow, demandedBefore]
    rintro condition h rfl
    exact notBelow (List.mem_flatMap.2 ⟨condition, mem_children_of_conditionOf h,
      Node.id_mem_identities condition.self_mem_preorder⟩)
  · intro id type remains
    exact children.traced id type (settled.remaining id type remains)
  · intro place mem typed
    rw [List.flatMap_cons, List.flatMap_nil, List.append_nil] at mem
    rcases mem_reached_iff.1 mem with rfl | ⟨child, inside, reached⟩
    · exact settled.rule typed
    · have mem := List.mem_flatMap.2 ⟨child, inside, reached⟩
      refine settled.grows.rule (fun part partMem there => ?_) (children.rules place mem typed)
      have deep : part ∈ child.descendants := by
        have inner := mem_preorder_of_mem_reached reached
        rcases Node.mem_preorder_iff.1 inner with same | ⟨next, nextMem, deeper⟩
        · rw [same] at partMem
          exact Node.mem_descendants_iff.2 ⟨part, partMem, part.self_mem_preorder⟩
        · exact Node.mem_descendants_iff.2 ⟨next, nextMem, Node.mem_preorder_trans deeper
            (Node.mem_preorder_of_mem_children partMem part.self_mem_preorder)⟩
      refine own.not_mem_children (mem_children_of_mem_visited inside) deep ?_
      rcases List.mem_cons.1 there with same | mem
      · exact same ▸ List.mem_cons_self
      · obtain ⟨other, otherMem, same⟩ := List.mem_map.1 mem
        exact List.mem_cons_of_mem _
          (List.mem_map.2 ⟨other, mem_children_of_mem_visited otherMem, same⟩)
  · intro other mem expected type wanted known
    rw [List.mem_singleton.1 mem] at wanted known
    refine settled.demand expected type ?_ known
    rw [children.demanded _ outside, demandedBefore, wanted]
    intro condition h same
    refine outside (List.mem_flatMap.2 ⟨condition, mem_children_of_conditionOf h, ?_⟩)
    exact same ▸ Node.id_mem_identities condition.self_mem_preorder

section Leaving

variable (built : NodeIndex.build root = .ok environment.index) (distinct : root.Distinct)
  {node : Node} (inside : node ∈ root.preorder) {entered : State} {direction : Direction}
  (enters : Entered environment root function? node before entered direction)
  (ready : Ready environment root function? [node] before)

include inside distinct enters ready

/-- After entering a node, its children are toured if the tours of single nodes do so. -/
theorem Entered.toured_children
    (each : ∀ child ∈ node.children, ∀ before,
      Ready environment root (functionBelow function? node) [child] before →
        Toured environment root (functionBelow function? node) [child] before
          (child.collect (visitor environment) before)) :
    Toured environment root (functionBelow function? node) (visited node) entered
      (afterChildren (visitor environment) node direction entered) := by
  have prepared := enters.ready ready
  cases passes : passesOver node with
  | true =>
    rw [enters.direction, visited, if_pos passes, if_pos passes]
    exact .nil prepared.traced
  | false =>
    have all : visited node = node.children := by simp [visited, passes]
    rw [all] at prepared ⊢
    rw [enters.direction, passes]
    exact toured_foldl (distinct.inner inside).pairwise_disjoint each prepared

/-- After its children are toured, a node can be left. -/
theorem Entered.awaited {below : State}
    (children : Toured environment root (functionBelow function? node) (visited node) entered
      below) : Awaited environment root function? node below := by
  have prepared := enters.ready ready
  have untyped : before.typing.nodes[node.id]? = none :=
    ready.untyped _ (by simpa using Node.id_mem_identities node.self_mem_preorder)
  have outside : node.id ∉ (visited node).flatMap Node.identities := by
    intro mem
    obtain ⟨child, inner, there⟩ := List.mem_flatMap.1 mem
    exact (distinct.inner inside).not_mem_child (mem_children_of_mem_visited inner) there
  refine ⟨ready.places node List.mem_cons_self (self_mem_reached function? node),
    children.grows.declared prepared.declared,
    prepared.returns.grows children.grows children.returnTypes, ?_, ?_, children.traced⟩
  · intro condition h type found
    refine children.demand condition (mem_children_of_conditionOf h) .boolean type ?_ found
    rw [enters.demanded, h]
    exact Std.TreeMap.getElem?_insert_self
  · rw [children.grows.others, enters.grows.others _ List.not_mem_nil, untyped]
    exact fun mem => outside (reachedIds_subset _ _ mem)

include built

/-- After its children are toured, leaving a node settles it. -/
theorem Entered.settled {below left : State}
    (children : Toured environment root (functionBelow function? node) (visited node) entered below)
    {done : Unit} (leaving : leave environment node below = (done, left)) :
    Settled environment root function? node below left :=
  leave_inv built distinct inside (enters.awaited distinct inside ready children) leaving

end Leaving

/-- After the tour of a node, the rules of all nodes reached in it hold. -/
theorem toured_collect (built : NodeIndex.build root = .ok environment.index)
    (distinct : root.Distinct) {node : Node} (inside : node ∈ root.preorder)
    (ready : Ready environment root function? [node] before) :
    Toured environment root function? [node] before
      (node.collect (visitor environment) before) := by
  induction node using Node.children_induction generalizing function? before with
  | step node ih =>
    rw [visitor, Node.collect_eq (enter_descends environment)]
    cases entering : enter environment node before with
    | mk direction entered =>
      have enters := enter_inv built distinct inside ready.declared ready.returns entering
      have children := enters.toured_children distinct inside ready fun child mem before ready =>
        ih child mem (Node.mem_preorder_trans inside
          (Node.mem_preorder_of_mem_children mem child.self_mem_preorder)) ready
      rw [visitor] at children
      generalize afterChildren _ node direction entered = below at children
      cases leaving : leave environment node below with
      | mk done left =>
        exact enters.toured (distinct.inner inside) children
          (enters.settled built distinct inside ready children leaving)

end Tours

end Inference

open Inference

/-- The judgment that inference comes to after solving its constraints: two types are the same if
they are solved to types that agree. -/
def Typing.solvedJudgment (typing : Typing) (environment : Environment) : Judgment where
  environment
  typing
  same s t :=
    ((({} : Unifier).solveAll typing.constraints.toList).finish.apply s).Agrees
      ((({} : Unifier).solveAll typing.constraints.toList).finish.apply t)

section Solved

variable {root : Node} {environment : Environment} {state : State}

/-- What constraints demand holds once they are solved. -/
theorem refines_solvedJudgment
    (solved : (({} : Unifier).solveAll state.typing.constraints.toList).errors = #[]) :
    (judge environment state).Refines (state.typing.solvedJudgment environment) where
  environment := rfl
  declarations _ _ h := h
  same s t joined := by
    rcases joined with rfl | ⟨constraint, mem, ⟨rfl, rfl⟩ | ⟨rfl, rfl⟩⟩
    · exact .refl _
    · exact Unifier.agrees_of_solved solved (Array.mem_toList_iff.2 mem)
    · exact (Unifier.agrees_of_solved solved (Array.mem_toList_iff.2 mem)).symm

/-- If the constraints of a tree are solved without an error, then the typing rules hold of the
solved types. -/
theorem Typing.rules_of_solved (distinct : root.Distinct) {index : NodeIndex} {scope : Scope}
    (built : NodeIndex.build root = .ok index) {supply : VariableSupply}
    (solved : (({} : Unifier).solveAll
      (Typing.infer root scope index supply).constraints.toList).errors = #[])
    {place : Option Node × Node} (mem : place ∈ reached none root)
    (typed : isTyped place.2 = true) :
    ∃ own, (Typing.infer root scope index supply).nodes[place.2.id]? = some own ∧
      ((Typing.infer root scope index supply).solvedJudgment { scope, index }).Rule
        place.1 place.2 own := by
  have toured := toured_collect built distinct
    root.self_mem_preorder (.start { scope, index } root supply)
  obtain ⟨own, known, rule⟩ := toured.rules place (by simpa using mem) typed
  exact ⟨own, known, rule.mono (refines_solvedJudgment solved) fun _ _ => rfl⟩

end Solved

end DeclLang
