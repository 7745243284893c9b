import DeclLang.Proofs.Moments

/-!
# Where constraints come from

**Input.**  A tree with distinct identities.

**Relation.**  `Inference.Arises`: a constraint comes from a node that is left, and holds the types
of its parts against each other that they have in the end, not just when the node is left.

**Argument.**  When a node is left, the types of its parts are known, and what is known is only
added to.  There is one lemma for every operation of inference that poses constraints.

**Results.**
* `Inference.poses_leave`: the constraints that leaving a node poses arise from this node.
* `Typing.arises_infer`: so all constraints arise from nodes that inference comes to.
-/

namespace DeclLang

namespace Inference

/-- What initializes a variable, or a parameter without an argument. -/
def initializerOf? (node : Node) : Option Node :=
  match node.kind with
  | .variableDecl _ _ initializer? | .parameter _ _ initializer? => initializer?
  | _ => none

/-- A constraint arises from a node in a function, or outside of all functions.  What it mentions
for a node is the type that the typing has for this node. -/
inductive Arises (environment : Environment) (root : Node) (typing : Typing)
    (function? : Option Node) (node : Node) : Constraint → Prop
  | element {elements : List Node} {item : Node} {element type : StaticType}
    (kind : node.kind = .array elements) (mem : item ∈ elements)
    (own : typing.nodes[node.id]? = some (.array element))
    (known : typing.nodes[item.id]? = some type) :
    Arises environment root typing function? node
      { head := element, tail := type, origin := node.id }
  | callee {callee : Node} {arguments : List Node} {type result : StaticType}
    {slots : List (Option String × StaticType)} (kind : node.kind = .call callee arguments)
    (labels : slots.map Prod.fst = (receivedArguments environment callee arguments).map Prod.fst)
    (own : typing.nodes[node.id]? = some result)
    (known : typing.nodes[callee.id]? = some type) :
    Arises environment root typing function? node
      { head := type, tail := .function slots result, origin := node.id }
  | argument {callee argument : Node} {arguments : List Node} {label? : Option String}
    {calleeType result slot type : StaticType} {slots : List (Option String × StaticType)}
    (kind : node.kind = .call callee arguments)
    (called : { head := calleeType, tail := .function slots result, origin := node.id } ∈
      typing.constraints)
    (received : ((label?, some argument), (label?, slot)) ∈
      (receivedArguments environment callee arguments).zip slots)
    (known : typing.nodes[argument.id]? = some type) :
    Arises environment root typing function? node
      { head := slot, tail := type, origin := argument.id }
  | operand {operator : Operator} {left right operand : Node} {type : StaticType}
    (kind : node.kind = .binary operator left right)
    (other : operator ≠ .equal ∧ operator ≠ .notEqual) (mem : operand ∈ [left, right])
    (known : typing.nodes[operand.id]? = some type) :
    Arises environment root typing function? node
      { head := (operandTypes operator).1, tail := type, origin := node.id }
  | equality {operator : Operator} {left right : Node} {leftType rightType : StaticType}
    (kind : node.kind = .binary operator left right)
    (equates : operator = .equal ∨ operator = .notEqual)
    (knownLeft : typing.nodes[left.id]? = some leftType)
    (knownRight : typing.nodes[right.id]? = some rightType) :
    Arises environment root typing function? node
      { head := leftType, tail := rightType, origin := node.id }
  | assignment {target value : Node} {targetType valueType : StaticType}
    (kind : node.kind = .assignment target value)
    (knownTarget : typing.nodes[target.id]? = some targetType)
    (knownValue : typing.nodes[value.id]? = some valueType) :
    Arises environment root typing function? node
      { head := targetType, tail := valueType, origin := node.id }
  | initializer {initializer : Node} {declared type : StaticType}
    (initialized : initializerOf? node = some initializer)
    (own : typing.nodes[node.id]? = some declared)
    (declares : typing.declarations[node.id]? = some declared)
    (known : typing.nodes[initializer.id]? = some type) :
    Arises environment root typing function? node
      { head := declared, tail := type, origin := node.id }
  | returned {expression? : Option Node} {function : Node}
    {received : List (Option String × StaticType)} {result type : StaticType}
    (kind : node.kind = .returnStatement expression?) (around : function? = some function)
    (declares : typing.declarations[function.id]? = some (.function received result))
    (nothing : expression? = none → type = .unit)
    (known : ∀ expression, expression? = some expression →
      typing.nodes[expression.id]? = some type) :
    Arises environment root typing function? node
      { head := result, tail := type, origin := node.id }
  | condition {block condition : Node} {type : StaticType} (inside : block ∈ root.preorder)
    (decides : conditionOf? block = some condition) (same : condition.id = node.id)
    (known : typing.nodes[node.id]? = some type) :
    Arises environment root typing function? node
      { head := .boolean, tail := type, origin := node.id }

/-- What a state knows is known in the end. -/
structure Survives (state : State) (typing : Typing) : Prop where
  nodes : ∀ (id : NodeId) (type : StaticType), state.typing.nodes[id]? = some type →
    typing.nodes[id]? = some type
  declarations : ∀ (id : NodeId) (type : StaticType), state.typing.declarations[id]? = some type →
    typing.declarations[id]? = some type
  constraints : ∀ constraint ∈ state.typing.constraints, constraint ∈ typing.constraints

/-- The constraints that come to those of a state are of a kind. -/
def Poses (kind : Constraint → Prop) (before after : State) : Prop :=
  ∀ constraint ∈ after.typing.constraints,
    constraint ∈ before.typing.constraints ∨ kind constraint

/-- Only conditions of branches and loops are demanded something of: to be booleans. -/
def Conditional (root : Node) (state : State) : Prop :=
  ∀ (id : NodeId) (expected : StaticType), state.demanded[id]? = some expected →
    expected = .boolean ∧ ∃ block ∈ root.preorder, ∃ condition,
      conditionOf? block = some condition ∧ condition.id = id

section Poses

variable {environment : Environment} {root : Node} {parts blamed : List NodeId}
  {before middle after : State} {typing : Typing} {kind : Constraint → Prop}

theorem Grows.survives (grows : Grows environment root parts blamed before after)
    (survives : Survives after typing) : Survives before typing where
  nodes id type known := survives.nodes id type (grows.nodes id type known)
  declarations id type known := survives.declarations id type (grows.declarations id type known)
  constraints constraint mem := survives.constraints constraint (grows.mem_constraints mem)

theorem Poses.trans (first : Poses kind before middle) (second : Poses kind middle after) :
    Poses kind before after := by
  intro constraint mem
  rcases second constraint mem with mem | is
  · exact first constraint mem
  · exact .inr is

/-- What is blamed on nothing is not posed. -/
theorem Grows.poses (grows : Grows environment root parts [] before after) :
    Poses kind before after := by
  intro constraint mem
  obtain ⟨more, added, origins⟩ := grows.constraints
  rw [← Array.mem_toList_iff, added, List.mem_append, Array.mem_toList_iff] at mem
  rcases mem with mem | mem
  · exact .inl mem
  · exact absurd (origins constraint mem) List.not_mem_nil

theorem poses_constrain {head tail : StaticType} {origin : NodeId} {done : Unit}
    (h : constrain head tail origin before = (done, after))
    (is : kind { head, tail, origin }) : Poses kind before after := by
  cases h
  intro constraint mem
  rcases Array.mem_push.1 mem with mem | rfl
  · exact .inl mem
  · exact .inr is

end Poses

section Steps

variable {environment : Environment} {root node : Node} {function? : Option Node}
  {before middle after : State} {typing : Typing}

theorem poses_elements {elements among : List Node} (kind : node.kind = .array among)
    (subset : elements ⊆ among) {element : StaticType}
    (own : typing.nodes[node.id]? = some (.array element)) (survives : Survives after typing)
    {done : PUnit} (h : (forIn elements PUnit.unit fun item _ => do
      constrain element (← typeOf item) node.id
      return .yield PUnit.unit) before = (done, after)) :
    Poses (Arises environment root typing function? node) before after := by
  induction elements generalizing before with
  | nil =>
    cases h
    exact fun _ => .inl
  | cons item elements ih =>
    rw [List.forIn_cons] at h
    obtain ⟨_, last, step, h⟩ := bind_inv h
    obtain ⟨type, next, typed, step⟩ := bind_inv step
    obtain ⟨_, _, demanded, step⟩ := bind_inv step
    cases step
    have first : Extends environment root [item.id] [] before next ∧ _ :=
      typeOf_inv (List.mem_singleton_self _) typed
    have second : Extends environment root [item.id] [node.id] next last ∧ _ :=
      constrain_inv (List.mem_singleton_self _) demanded
    have third : Extends environment root (elements.map Node.id) [node.id] last after ∧ _ :=
      elements_inv (List.mem_singleton_self _) (fun _ => List.mem_map_of_mem) h
    have known := (second.1.toGrows.survives (third.1.toGrows.survives survives)).nodes _ _ first.2
    refine (first.1.toGrows.poses.trans (poses_constrain demanded ?_)).trans
      (ih (fun _ mem => subset (List.mem_cons_of_mem _ mem)) h)
    exact .element kind (subset List.mem_cons_self) own known

theorem poses_arrayType {elements : List Node} (kind : node.kind = .array elements)
    {type : StaticType} (own : typing.nodes[node.id]? = some type)
    (survives : Survives after typing) (h : arrayType node elements before = (type, after)) :
    Poses (Arises environment root typing function? node) before after := by
  unfold arrayType at h
  obtain ⟨element, middle, taken, h⟩ := bind_inv h
  obtain ⟨_, last, loop, h⟩ := bind_inv h
  cases h
  have first : Extends environment root [] [] before middle ∧ _ := fresh_inv taken
  exact first.1.toGrows.poses.trans
    (poses_elements kind (List.Subset.refl _) own survives loop)

/-- The demands of arguments hold the slots against the types of the arguments. -/
theorem argumentSlots_demands (environment : Environment)
    {received : List (Option String × Option Node)} {slots : List (Option String × StaticType)}
    {demands : List Constraint} (h : argumentSlots received before = ((slots, demands), after)) :
    slots.map Prod.fst = received.map Prod.fst ∧
      ∀ demand ∈ demands, ∃ label? argument,
        ((label?, some argument), (label?, demand.head)) ∈ received.zip slots ∧
          demand.origin = argument.id ∧ after.typing.nodes[argument.id]? = some demand.tail := by
  induction received generalizing before slots demands with
  | nil =>
    cases h
    exact ⟨rfl, nofun⟩
  | cons entry received ih =>
    obtain ⟨label?, argument?⟩ := entry
    rw [argumentSlots] at h
    obtain ⟨slot, middle, taken, h⟩ := bind_inv h
    cases argument? with
    | none =>
      obtain ⟨_, _, nothing, h⟩ := bind_inv h
      cases nothing
      obtain ⟨⟨others, constraints⟩, last, followed, h⟩ := bind_inv h
      cases h
      obtain ⟨labels, each⟩ := ih followed
      refine ⟨by rw [List.map_cons, List.map_cons, labels], fun demand mem => ?_⟩
      obtain ⟨label?, argument, passed, rest⟩ := each demand mem
      exact ⟨label?, argument, List.mem_cons_of_mem _ passed, rest⟩
    | some argument =>
      obtain ⟨type, next, typed, h⟩ := bind_inv h
      obtain ⟨_, _, collected, h⟩ := bind_inv h
      cases collected
      obtain ⟨⟨others, constraints⟩, last, followed, h⟩ := bind_inv h
      cases h
      obtain ⟨labels, each⟩ := ih followed
      refine ⟨by rw [List.map_cons, List.map_cons, labels], ?_⟩
      rintro demand (_ | ⟨_, mem⟩)
      · have first : Extends environment argument [argument.id] [] middle next ∧ _ :=
          typeOf_inv (List.mem_singleton_self _) typed
        have rest : Extends environment argument
            (received.filterMap fun entry => entry.2.map Node.id) [] next after ∧ _ :=
          argumentSlots_inv (fun _ _ mem => List.mem_filterMap.2 ⟨_, mem, rfl⟩) followed
        exact ⟨label?, argument, List.mem_cons_self, rfl, rest.1.nodes _ _ first.2⟩
      · obtain ⟨label?, argument, passed, rest⟩ := each demand mem
        exact ⟨label?, argument, List.mem_cons_of_mem _ passed, rest⟩

theorem poses_demands {demands : List Constraint} {kind : Constraint → Prop}
    (each : ∀ demand ∈ demands, kind demand) {done : PUnit}
    (h : (forIn demands PUnit.unit fun (demand : Constraint) _ => do
      constrain demand.head demand.tail demand.origin
      return .yield PUnit.unit) before = (done, after)) : Poses kind before after := by
  induction demands generalizing before with
  | nil =>
    cases h
    exact fun _ => .inl
  | cons demand demands ih =>
    rw [List.forIn_cons] at h
    obtain ⟨_, last, step, h⟩ := bind_inv h
    obtain ⟨_, _, demanded, step⟩ := bind_inv step
    cases step
    exact (poses_constrain demanded (each demand List.mem_cons_self)).trans
      (ih (fun demand mem => each demand (List.mem_cons_of_mem _ mem)) h)

theorem poses_callType {callee : Node} {arguments : List Node}
    (kind : node.kind = .call callee arguments) {result : StaticType}
    (own : typing.nodes[node.id]? = some result) (survives : Survives after typing)
    (h : callType environment node callee arguments before = (result, after)) :
    Poses (Arises environment root typing function? node) before after := by
  unfold callType at h
  obtain ⟨_, s₁, taken, h⟩ := bind_inv h
  obtain ⟨calleeType, s₂, typed, h⟩ := bind_inv h
  obtain ⟨⟨slots, demands⟩, s₃, slotted, h⟩ := bind_inv h
  obtain ⟨_, s₄, demanded, h⟩ := bind_inv h
  obtain ⟨_, s₅, loop, h⟩ := bind_inv h
  cases h
  have first : Extends environment root [] [] before s₁ ∧ _ := fresh_inv taken
  have second : Extends environment root [callee.id] [] s₁ s₂ ∧ _ :=
    typeOf_inv (List.mem_singleton_self _) typed
  have third : Extends environment root (arguments.map Node.id) [] s₂ s₃ ∧ _ := argumentSlots_inv
    (fun label? argument mem => List.mem_map_of_mem (mem_of_mem_receivedArguments mem)) slotted
  have fourth : Extends environment root [] [node.id] s₃ s₄ ∧ _ :=
    constrain_inv (List.mem_singleton_self _) demanded
  have fifth : Extends environment root [] (demands.map Constraint.origin) s₄ after ∧ _ :=
    demands_inv (fun _ => List.mem_map_of_mem) loop
  have last := fifth.1.toGrows.survives survives
  have next := fourth.1.toGrows.survives last
  obtain ⟨labels, each⟩ := argumentSlots_demands environment slotted
  have called : { head := calleeType, tail := .function slots result, origin := node.id } ∈
      typing.constraints := by
    refine last.constraints _ ?_
    cases demanded
    exact Array.mem_push_self
  refine (((first.1.toGrows.poses.trans second.1.toGrows.poses).trans third.1.toGrows.poses).trans
    (poses_constrain demanded ?_)).trans (poses_demands (fun demand mem => ?_) loop)
  · exact .callee kind labels own (next.nodes _ _ (third.1.nodes _ _ second.2))
  · obtain ⟨label?, argument, received, origin, known⟩ := each demand mem
    obtain ⟨head, tail, _⟩ := demand
    cases origin
    exact .argument kind called received (next.nodes _ _ known)

theorem poses_operands {operator : Operator} {left right : Node}
    (kind : node.kind = .binary operator left right)
    (other : operator ≠ .equal ∧ operator ≠ .notEqual) {leftType rightType result type : StaticType}
    (knownLeft : before.typing.nodes[left.id]? = some leftType)
    (knownRight : before.typing.nodes[right.id]? = some rightType)
    (survives : Survives after typing)
    (h : (do
      constrain (operandTypes operator).1 leftType node.id
      constrain (operandTypes operator).1 rightType node.id
      return result) before = (type, after)) :
    Poses (Arises environment root typing function? node) before after := by
  have whole : Extends environment root [] [node.id] before after ∧ _ :=
    operands_inv (List.mem_singleton_self _) knownLeft knownRight h
  have start := whole.1.toGrows.survives survives
  obtain ⟨_, middle, onLeft, h⟩ := bind_inv h
  obtain ⟨_, last, onRight, h⟩ := bind_inv h
  cases h
  refine (poses_constrain onLeft ?_).trans (poses_constrain onRight ?_)
  · exact .operand kind other List.mem_cons_self (start.nodes _ _ knownLeft)
  · exact .operand kind other (List.mem_cons_of_mem _ List.mem_cons_self)
      (start.nodes _ _ knownRight)

theorem poses_equality {operator : Operator} {left right : Node}
    (kind : node.kind = .binary operator left right)
    (equates : operator = .equal ∨ operator = .notEqual) {leftType rightType result : StaticType}
    (knownLeft : before.typing.nodes[left.id]? = some leftType)
    (knownRight : before.typing.nodes[right.id]? = some rightType)
    (survives : Survives after typing)
    (h : (do
      constrain leftType rightType node.id
      return StaticType.boolean) before = (result, after)) :
    Poses (Arises environment root typing function? node) before after := by
  have whole : Extends environment root [] [node.id] before after ∧ _ :=
    equality_inv (List.mem_singleton_self _) knownLeft knownRight h
  have start := whole.1.toGrows.survives survives
  obtain ⟨_, middle, demanded, h⟩ := bind_inv h
  cases h
  exact poses_constrain demanded (.equality kind equates (start.nodes _ _ knownLeft)
    (start.nodes _ _ knownRight))

theorem poses_binaryType {operator : Operator} {left right : Node}
    (kind : node.kind = .binary operator left right) (survives : Survives after typing)
    {result : StaticType} (h : binaryType node operator left right before = (result, after)) :
    Poses (Arises environment root typing function? node) before after := by
  unfold binaryType at h
  obtain ⟨leftType, s₁, typedLeft, h⟩ := bind_inv h
  obtain ⟨rightType, s₂, typedRight, h⟩ := bind_inv h
  have first : Extends environment root [left.id] [] before s₁ ∧ _ :=
    typeOf_inv (List.mem_singleton_self _) typedLeft
  have second : Extends environment root [right.id] [] s₁ s₂ ∧ _ :=
    typeOf_inv (List.mem_singleton_self _) typedRight
  have known := second.1.nodes _ _ first.2
  refine (first.1.toGrows.poses.trans second.1.toGrows.poses).trans ?_
  by_cases equates : operator = .equal ∨ operator = .notEqual
  · rcases equates with rfl | rfl
    · exact poses_equality kind (.inl rfl) known second.2 survives h
    · exact poses_equality kind (.inr rfl) known second.2 survives h
  · rw [not_or] at equates
    have operands : (do
        constrain (operandTypes operator).1 leftType node.id
        constrain (operandTypes operator).1 rightType node.id
        return (operandTypes operator).2) s₂ = (result, after) := by
      cases operator with
      | equal => exact absurd rfl equates.1
      | notEqual => exact absurd rfl equates.2
      | _ => exact h
    exact poses_operands kind equates known second.2 survives operands

theorem poses_expected {expression? : Option Node} (kind : node.kind = .returnStatement expression?)
    (returns : ReturnsTo environment function? before) {returned : StaticType}
    (nothing : expression? = none → returned = .unit)
    (known : ∀ expression, expression? = some expression →
      before.typing.nodes[expression.id]? = some returned)
    (survives : Survives after typing) {type? : Option StaticType}
    (h : (do
      if let some expected := (← (get : Infer State)).returnTypes.head? then
        constrain expected returned node.id
      return some StaticType.unit) before = (type?, after)) :
    Poses (Arises environment root typing function? node) before after := by
  obtain ⟨_, _, got, h⟩ := bind_inv h
  cases got
  cases function? with
  | none =>
    have empty : before.returnTypes = [] := returns
    rw [empty] at h
    cases h
    exact fun _ => .inl
  | some function =>
    obtain ⟨received, result, innermost, declares⟩ := returns
    rw [innermost] at h
    obtain ⟨_, _, demanded, h⟩ := bind_inv h
    cases h
    have only : Extends environment root [] [node.id] before after ∧ _ :=
      constrain_inv (List.mem_singleton_self _) demanded
    have start := only.1.toGrows.survives survives
    exact poses_constrain demanded (.returned kind rfl (start.declarations _ _ declares.1) nothing
      fun expression given => start.nodes _ _ (known expression given))

theorem poses_returnStatement {id : NodeId} {expression? : Option Node}
    (returns : ReturnsTo environment function? before) (survives : Survives after typing)
    {type? : Option StaticType}
    (h : leftType? environment (.mk id (.returnStatement expression?)) before = (type?, after)) :
    Poses (Arises environment root typing function? (.mk id (.returnStatement expression?)))
      before after := by
  cases expression? with
  | none =>
    obtain ⟨_, _, brought, h⟩ := bind_inv h
    cases brought
    exact poses_expected rfl returns (fun _ => rfl) nofun survives h
  | some expression =>
    obtain ⟨returned, middle, typed, h⟩ := bind_inv h
    have first : Extends environment root [expression.id] [] before middle ∧ _ :=
      typeOf_inv (List.mem_singleton_self _) typed
    have still : ReturnsTo environment function? middle :=
      ReturnsTo.grows returns first.1.toGrows first.1.returnTypes
    have known (other : Node) (same : some expression = some other) :
        middle.typing.nodes[other.id]? = some returned := by
      cases same
      exact first.2
    exact first.1.toGrows.poses.trans (poses_expected rfl still nofun known survives h)

theorem poses_assignment {id : NodeId} {target value : Node} (survives : Survives after typing)
    {type? : Option StaticType}
    (h : leftType? environment (.mk id (.assignment target value)) before = (type?, after)) :
    Poses (Arises environment root typing function? (.mk id (.assignment target value)))
      before after := by
  obtain ⟨targetType, s₁, typedTarget, h⟩ := bind_inv h
  obtain ⟨valueType, s₂, typedValue, h⟩ := bind_inv h
  obtain ⟨_, s₃, demanded, h⟩ := bind_inv h
  cases h
  have first : Extends environment root [target.id] [] before s₁ ∧ _ :=
    typeOf_inv (List.mem_singleton_self _) typedTarget
  have second : Extends environment root [value.id] [] s₁ s₂ ∧ _ :=
    typeOf_inv (List.mem_singleton_self _) typedValue
  have third : Extends environment root [] [id] s₂ after ∧ _ :=
    constrain_inv (List.mem_singleton_self _) demanded
  have next := third.1.toGrows.survives survives
  refine (first.1.toGrows.poses.trans second.1.toGrows.poses).trans (poses_constrain demanded ?_)
  exact .assignment rfl (next.nodes _ _ (second.1.nodes _ _ first.2)) (next.nodes _ _ second.2)

section Declarations

variable (built : NodeIndex.build root = .ok environment.index) (distinct : root.Distinct)
  (inside : node ∈ root.preorder)

include built distinct inside

theorem poses_initializedType (declared : Declared environment root before)
    {initializer? : Option Node} (same : initializerOf? node = initializer?)
    (survives : Survives after typing) {type : StaticType}
    (own : typing.nodes[node.id]? = some type)
    (h : initializedType environment node initializer? before = (type, after)) :
    Poses (Arises environment root typing function? node) before after := by
  unfold initializedType at h
  obtain ⟨written, middle, found, h⟩ := bind_inv h
  obtain ⟨first, declares⟩ : Extends environment root [] [] before middle ∧ _ :=
    typeOfDeclaration_inv built distinct inside declared found
  cases initializer? with
  | none =>
    cases h
    exact first.toGrows.poses
  | some initializer =>
    obtain ⟨initial, next, typed, h⟩ := bind_inv h
    obtain ⟨_, last, demanded, h⟩ := bind_inv h
    cases h
    have second : Extends environment root [initializer.id] [] middle next ∧ _ :=
      typeOf_inv (List.mem_singleton_self _) typed
    have third : Extends environment root [] [node.id] next after ∧ _ :=
      constrain_inv (List.mem_singleton_self _) demanded
    have then_ := third.1.toGrows.survives survives
    refine (first.toGrows.poses.trans second.1.toGrows.poses).trans (poses_constrain demanded ?_)
    exact .initializer same own (then_.declarations _ _ (second.1.declarations _ _ declares.1))
      (then_.nodes _ _ second.2)

/-- The constraints that are posed while the type of a node is found arise from the node. -/
theorem poses_leftType (awaited : Awaited environment root function? node before)
    (survives : Survives after typing) {type? : Option StaticType}
    (own : ∀ type, type? = some type → typing.nodes[node.id]? = some type)
    (h : leftType? environment node before = (type?, after)) :
    Poses (Arises environment root typing function? node) before after := by
  obtain ⟨id, kind⟩ := node
  cases kind with
  | array elements =>
    obtain ⟨type, _, found, h⟩ := bind_inv h
    cases h
    exact poses_arrayType rfl (own _ rfl) survives found
  | identifier name | member object name =>
    obtain ⟨type, _, found, h⟩ := bind_inv h
    cases h
    have only : Extends environment root [] [] before after ∧ _ :=
      referenceType_inv built distinct awaited.declared found
    exact only.1.toGrows.poses
  | call callee arguments =>
    obtain ⟨type, _, found, h⟩ := bind_inv h
    cases h
    exact poses_callType rfl (own _ rfl) survives found
  | argument label? expression | expressionStatement expression =>
    obtain ⟨type, _, found, h⟩ := bind_inv h
    cases h
    have only : Extends environment root [expression.id] [] before after ∧ _ :=
      typeOf_inv (List.mem_singleton_self _) found
    exact only.1.toGrows.poses
  | placeholder =>
    obtain ⟨type, _, found, h⟩ := bind_inv h
    cases h
    have only : Extends environment root [] [] before after ∧ _ := fresh_inv found
    exact only.1.toGrows.poses
  | binary operator left right =>
    obtain ⟨type, _, found, h⟩ := bind_inv h
    cases h
    exact poses_binaryType rfl survives found
  | assignment target value => exact poses_assignment survives h
  | functionDecl name generics parameters result body =>
    obtain ⟨_, middle, popped, h⟩ := bind_inv h
    obtain ⟨type, _, found, h⟩ := bind_inv h
    cases h
    cases popped
    have stillDeclared : Declared environment root
        { before with returnTypes := before.returnTypes.tail } := awaited.declared
    have only : Extends environment root [] []
        { before with returnTypes := before.returnTypes.tail } after ∧ _ :=
      typeOfDeclaration_inv built distinct inside stillDeclared found
    exact only.1.toGrows.poses
  | recordDecl | enumerationDecl | enumerationCase =>
    obtain ⟨type, _, found, h⟩ := bind_inv h
    cases h
    have only : Extends environment root [] [] before after ∧ _ :=
      typeOfDeclaration_inv built distinct inside awaited.declared found
    exact only.1.toGrows.poses
  | variableDecl name ascription? initializer? =>
    obtain ⟨type, _, found, h⟩ := bind_inv h
    cases h
    exact poses_initializedType built distinct inside awaited.declared rfl survives (own _ rfl)
      found
  | parameter name ascription default? =>
    obtain ⟨type, _, found, h⟩ := bind_inv h
    cases h
    exact poses_initializedType built distinct inside awaited.declared rfl survives (own _ rfl)
      found
  | returnStatement expression? => exact poses_returnStatement awaited.returns survives h
  | _ =>
    cases h
    exact fun _ => .inl

/-- The constraints that leaving a node poses arise from the node. -/
theorem poses_leave (awaited : Awaited environment root function? node before)
    (conditional : Conditional root before) (survives : Survives after typing) {done : Unit}
    (h : leave environment node before = (done, after)) :
    Poses (Arises environment root typing function? node) before after := by
  obtain ⟨type?, middle, found, h⟩ := bind_inv h
  have left := leftType_inv built distinct inside awaited.declared awaited.returns
    awaited.condition found
  have missing := awaited.missing built distinct inside found
  cases type? with
  | none =>
    cases h
    refine poses_leftType built distinct inside awaited survives ?_ found
    rintro _ ⟨⟩
  | some type =>
    obtain ⟨_, _, got, h⟩ := bind_inv h
    cases got
    cases wanted : middle.demanded[node.id]? with
    | none =>
      rw [wanted] at h
      have last : Extends environment root [node.id] [] middle after ∧ _ :=
        setNodeType_inv (List.mem_singleton_self _) missing h
      have own := survives.nodes _ _ last.2
      refine (poses_leftType built distinct inside awaited (last.1.toGrows.survives survives) ?_
        found).trans last.1.toGrows.poses
      rintro _ ⟨⟩
      exact own
    | some expected =>
      rw [wanted] at h
      obtain ⟨_, _, erased, h⟩ := bind_inv h
      cases erased
      obtain ⟨_, next, demanded, h⟩ := bind_inv h
      have further : Extends environment root [] [node.id]
          { middle with demanded := middle.demanded.erase node.id } next ∧ _ :=
        constrain_inv (List.mem_singleton_self _) demanded
      have last : Extends environment root [node.id] [] next after ∧ _ :=
        setNodeType_inv (List.mem_singleton_self _)
          ((further.1.others _ List.not_mem_nil).trans missing) h
      have own := survives.nodes _ _ last.2
      have start := further.1.toGrows.survives (last.1.toGrows.survives survives)
      obtain ⟨rfl, block, blockInside, condition, decides, same⟩ :=
        conditional node.id expected (by rw [← left.demanded, wanted])
      have posed : Poses (Arises environment root typing function? node) before middle := by
        refine poses_leftType built distinct inside awaited
          ⟨start.nodes, start.declarations, start.constraints⟩ ?_ found
        rintro _ ⟨⟩
        exact own
      have held : Poses (Arises environment root typing function? node)
          { middle with demanded := middle.demanded.erase node.id } next :=
        poses_constrain demanded (.condition blockInside decides same own)
      exact (posed.trans held).trans last.1.toGrows.poses

end Declarations

end Steps

section Run

variable {environment : Environment} {root : Node} {state : State} {typing : Typing}
  (built : NodeIndex.build root = .ok environment.index) (distinct : root.Distinct)

include built distinct

/-- Every moment keeps that only conditions are demanded something of. -/
theorem Prepared.conditional {moment : Moment} (prepared : Prepared environment root moment state)
    (conditional : Conditional root state) :
    Conditional root (environment.advance state moment) := by
  have inside := prepared.mem_preorder
  intro id expected wanted
  cases moment with
  | entering node =>
    obtain ⟨function?, entered⟩ := prepared.entered built distinct
    rw [entered.demanded] at wanted
    cases decides : conditionOf? node with
    | none =>
      rw [decides] at wanted
      exact conditional id expected wanted
    | some condition =>
      rw [decides, Std.TreeMap.getElem?_insert] at wanted
      split at wanted
      · rename_i same
        rw [Nat.compare_eq_eq] at same
        cases wanted
        exact ⟨rfl, node, inside, condition, decides, same⟩
      · exact conditional id expected wanted
  | leaving node =>
    obtain ⟨function?, settled⟩ := prepared.settled built distinct
    exact conditional id expected (settled.remaining id expected wanted)

/-- The constraints that a moment poses arise from nodes that inference comes to. -/
theorem Prepared.poses {moment : Moment} (prepared : Prepared environment root moment state)
    (conditional : Conditional root state)
    (survives : Survives (environment.advance state moment) typing) :
    Poses (fun constraint => ∃ place ∈ reached none root,
      Arises environment root typing place.1 place.2 constraint) state
      (environment.advance state moment) := by
  cases moment with
  | entering node =>
    obtain ⟨function?, entered⟩ := prepared.entered built distinct
    exact entered.grows.poses
  | leaving node =>
    have inside : node ∈ root.preorder := prepared.mem_preorder
    obtain ⟨function?, awaited⟩ := prepared
    intro constraint mem
    exact (poses_leave built distinct inside awaited conditional survives rfl constraint
      mem).imp_right fun arises => ⟨_, awaited.place, arises⟩

/-- The constraints that a stretch of the tour poses arise from nodes that inference comes to. -/
theorem poses_run {stretch : List Moment}
    (prepared : Along environment (Prepared environment root) stretch state)
    (conditional : Conditional root state)
    (survives : Survives (environment.run stretch state) typing) :
    Poses (fun constraint => ∃ place ∈ reached none root,
      Arises environment root typing place.1 place.2 constraint) state
      (environment.run stretch state) := by
  induction stretch generalizing state with
  | nil => exact fun _ => .inl
  | cons moment stretch ih =>
    have steady := steady_iff.2 (prepared.2.imp fun _ _ prepared => prepared.grows built distinct)
    exact (prepared.1.poses built distinct conditional (steady.grows.survives survives)).trans
      (ih prepared.2 (prepared.1.conditional built distinct conditional) survives)

end Run

end Inference

open Inference

/-- Every constraint arises from a node that inference comes to. -/
theorem Typing.arises_infer {root : Node} {index : NodeIndex} (distinct : root.Distinct)
    (built : NodeIndex.build root = .ok index) (scope : Scope) (supply : VariableSupply) :
    let typing := Typing.infer root scope index supply
    ∀ constraint ∈ typing.constraints, ∃ place ∈ reached none root,
      Arises { scope, index } root typing place.1 place.2 constraint := by
  intro typing constraint mem
  have prepared := prepared_moments built distinct root.self_mem_preorder
    (.start { scope, index } root supply)
  have whole : Survives (Environment.run { scope, index } (moments root) (State.initial supply))
      typing := by
    have same : typing = _ := Typing.infer_eq_run scope supply root index
    rw [same]
    exact ⟨fun _ _ known => known, fun _ _ known => known, fun _ mem => mem⟩
  have posed := poses_run built distinct prepared nofun whole constraint
    (Typing.infer_eq_run scope supply root index ▸ mem)
  rcases posed with none | arises
  · cases none
    contradiction
  · exact arises

end DeclLang
