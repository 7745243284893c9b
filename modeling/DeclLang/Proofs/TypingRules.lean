import Mathlib.Data.List.Forall2
import DeclLang.Proofs.Alignment
import DeclLang.Proofs.Trees
import DeclLang.Types.Inference

/-!
# Typing rules

What it means that the types of a tree fit together, said without the tour that finds them.

**Input.**  A judgment: the types of nodes and declarations, what names refer to, and when two types
count as the same.

**Rules.**  `Judgment.Rule` says, for every kind of node, how its type, the types of its children
and the types of declarations belong together.  A rule only looks at a node, at its children and at
declarations, so it stays true when types elsewhere become known (`Judgment.Rule.mono`).

`reached` lists the nodes that inference comes to, each with the innermost function around it.
-/

namespace DeclLang

theorem forall₂_imp_of_mem {α β : Type} {R S : α → β → Prop} {l : List α} {m : List β}
    (h : List.Forall₂ R l m) (imp : ∀ a ∈ l, ∀ b, R a b → S a b) : List.Forall₂ S l m := by
  induction h with
  | nil => exact .nil
  | cons first _ ih =>
    exact .cons (imp _ List.mem_cons_self _ first)
      (ih fun a mem => imp a (List.mem_cons_of_mem _ mem))

namespace Inference

/-- Whether what is below the node has no types of its own. -/
def passesOver (node : Node) : Bool :=
  match node.kind with
  | .member .. | .enumerationCase .. | .typeName .. | .functionType .. => true
  | _ => false

/-- The innermost function around what is below the node. -/
def functionBelow (function? : Option Node) (node : Node) : Option Node :=
  match node.kind with
  | .functionDecl .. => some node
  | _ => function?

/-- The node and the nodes below it that inference comes to, each with the innermost function
around it. -/
def reached (function? : Option Node) (node : Node) : List (Option Node × Node) :=
  (function?, node) :: if passesOver node then [] else
    node.children.attach.flatMap fun ⟨child, _⟩ => reached (functionBelow function? node) child
termination_by sizeOf node
decreasing_by exact Node.sizeOf_lt_of_mem_children ‹_›

/-- The children that inference comes to. -/
def visited (node : Node) : List Node :=
  if passesOver node then [] else node.children

theorem mem_children_of_mem_visited {node child : Node} (h : child ∈ visited node) :
    child ∈ node.children := by
  unfold visited at h
  split at h
  · cases h
  · exact h

theorem reached_eq (function? : Option Node) (node : Node) :
    reached function? node =
      (function?, node) :: (visited node).flatMap (reached (functionBelow function? node)) := by
  rw [reached, visited]
  cases passesOver node <;> simp [List.flatMap_subtype]

theorem self_mem_reached (function? : Option Node) (node : Node) :
    (function?, node) ∈ reached function? node := by
  rw [reached_eq]
  exact List.mem_cons_self

theorem mem_reached_iff {function? : Option Node} {node : Node} {place : Option Node × Node} :
    place ∈ reached function? node ↔ place = (function?, node) ∨
      ∃ child ∈ visited node, place ∈ reached (functionBelow function? node) child := by
  rw [reached_eq, List.mem_cons, List.mem_flatMap]

theorem mem_preorder_of_mem_reached {function? : Option Node} {node : Node}
    {place : Option Node × Node} (h : place ∈ reached function? node) :
    place.2 ∈ node.preorder := by
  induction node using Node.children_induction generalizing function? with
  | step node ih =>
    rcases mem_reached_iff.1 h with rfl | ⟨child, mem, below⟩
    · exact node.self_mem_preorder
    · have mem := mem_children_of_mem_visited mem
      exact Node.mem_preorder_of_mem_children mem (ih child mem below)

/-- What is reached leads on to its children. -/
theorem mem_reached_of_visited {outer? function? : Option Node} {node inner child : Node}
    (h : (function?, inner) ∈ reached outer? node) (visit : child ∈ visited inner) :
    (functionBelow function? inner, child) ∈ reached outer? node := by
  induction node using Node.children_induction generalizing outer? with
  | step node ih =>
    rcases mem_reached_iff.1 h with same | ⟨other, mem, below⟩
    · cases same
      exact mem_reached_iff.2 (.inr ⟨child, visit, self_mem_reached _ child⟩)
    · have inside := ih other (mem_children_of_mem_visited mem) below
      exact mem_reached_iff.2 (.inr ⟨other, mem, inside⟩)

@[simp] theorem labeledArgument_snd (argument : Node) :
    (labeledArgument argument).2 = argument := by
  unfold labeledArgument
  split <;> rfl

/-- What is given to a slot is one of the arguments. -/
theorem mem_of_mem_slotted {slots : List Slot} {arguments : List Node}
    {received : List (Option String × Option Node)} (h : slotted? slots arguments = some received)
    {label? : Option String} {argument : Node} (mem : (label?, some argument) ∈ received) :
    argument ∈ arguments := by
  unfold slotted? at h
  split at h
  · cases h
  · rename_i filled aligned
    split at h
    · cases h
      have given := align_from aligned (List.of_mem_zip mem).2
      rw [List.map_map, List.mem_map] at given
      obtain ⟨other, inside, same⟩ := given
      rw [Function.comp_apply, labeledArgument_snd] at same
      exact same ▸ inside
    · cases h

/-- What a callee receives are arguments of the call. -/
theorem mem_of_mem_receivedArguments {environment : Environment} {callee : Node}
    {arguments : List Node} {label? : Option String} {argument : Node}
    (mem : (label?, some argument) ∈ receivedArguments environment callee arguments) :
    argument ∈ arguments := by
  unfold receivedArguments at mem
  dsimp only at mem
  cases slotted : ((environment.declaration? callee.id).bind Node.slots?).bind
      fun slots => slotted? slots arguments with
  | some received =>
    rw [slotted, Option.getD_some] at mem
    obtain ⟨slots, -, given⟩ := Option.bind_eq_some_iff.1 slotted
    exact mem_of_mem_slotted given mem
  | none =>
    rw [slotted, Option.getD_none, List.map_map, List.mem_map] at mem
    obtain ⟨other, inside, same⟩ := mem
    rw [Function.comp_apply, labeledArgument_snd, Prod.mk.injEq, Option.some.injEq] at same
    exact same.2 ▸ inside

/-- In a tree with distinct identities, a node is reached in one way only. -/
theorem reached_unique {node : Node} (distinct : node.Distinct) {function? : Option Node}
    {left right : Option Node × Node} (hl : left ∈ reached function? node)
    (hr : right ∈ reached function? node) (same : left.2 = right.2) : left = right := by
  induction node using Node.children_induction generalizing function? with
  | step node ih =>
    have apart {child : Node} {place : Option Node × Node} (mem : child ∈ visited node)
        (below : place ∈ reached (functionBelow function? node) child) : place.2 ≠ node := by
      intro own
      have here := Node.id_mem_identities (mem_preorder_of_mem_reached below)
      rw [own] at here
      exact distinct.not_mem_child (mem_children_of_mem_visited mem) here
    rcases mem_reached_iff.1 hl with rfl | ⟨child, mem, below⟩
    · rcases mem_reached_iff.1 hr with rfl | ⟨child, mem, below⟩
      · rfl
      · exact absurd same.symm (apart mem below)
    · rcases mem_reached_iff.1 hr with rfl | ⟨other, otherMem, otherBelow⟩
      · exact absurd same (apart mem below)
      · have mem := mem_children_of_mem_visited mem
        have otherMem := mem_children_of_mem_visited otherMem
        by_cases own : child = other
        · subst own
          exact ih child mem (distinct.child mem) below otherBelow
        · have here := Node.id_mem_identities (mem_preorder_of_mem_reached below)
          have there := Node.id_mem_identities (mem_preorder_of_mem_reached otherBelow)
          rw [← same] at there
          exact (distinct.disjoint mem otherMem own here there).elim

/-- Whether inference gives the node a type when it comes to it. -/
def isTyped (node : Node) : Bool :=
  match node.kind with
  | .program _ | .namespaceDecl .. | .importDecl _ | .genericParameter _ | .typeName ..
  | .functionType .. => false
  | _ => true

section Annotations

variable (environment : Environment)

/-- The name under which a declaration of a type is known. -/
def declaredTypeName? (declaration : Node) : Option String :=
  match declaration.kind with
  | .recordDecl name .. | .enumerationDecl name .. => some name
  | _ => none

/-- The annotation says something about a type: it is the type of a function, or a name that refers
to nothing, to a generic parameter, to a record or to an enumeration. -/
def isMeaningful (ascription : Node) : Bool :=
  match ascription.kind with
  | .functionType .. => true
  | .typeName .. =>
    match environment.typeDeclaration? ascription.id with
    | none => true
    | some declaration =>
      match declaration.kind with
      | .genericParameter _ => true
      | _ => (declaredTypeName? declaration).isSome
  | _ => false

/-- An annotation denotes a type.  A variable stands for an annotation that says nothing. -/
inductive Denotes : Node → StaticType → Prop
  | generic {id : NodeId} {written name : String} {arguments : List Node} {declaration : Node}
      (refers : environment.typeDeclaration? id = some declaration)
      (kind : declaration.kind = .genericParameter name) :
      Denotes (.mk id (.typeName written arguments)) (.generic name)
  | declared {id : NodeId} {written name : String} {arguments : List Node} {declaration : Node}
      {parameters : List StaticType}
      (refers : environment.typeDeclaration? id = some declaration)
      (kind : declaredTypeName? declaration = some name)
      (denoted : List.Forall₂ Denotes arguments parameters) :
      Denotes (.mk id (.typeName written arguments)) (.constant name parameters)
  | undeclared {id : NodeId} {name : String} {arguments : List Node}
      {parameters : List StaticType}
      (refers : environment.typeDeclaration? id = none)
      (denoted : List.Forall₂ Denotes arguments parameters) :
      Denotes (.mk id (.typeName name arguments)) (.constant name parameters)
  | function {id : NodeId} {arguments : List Node} {result : Node}
      {parameters : List StaticType} {type : StaticType}
      (denoted : List.Forall₂ Denotes arguments parameters) (denotedResult : Denotes result type) :
      Denotes (.mk id (.functionType arguments result))
        (.function (parameters.map fun parameter => (none, parameter)) type)
  | nothing {ascription : Node} {name : String}
      (silent : isMeaningful environment ascription = false) :
      Denotes ascription (.variable name)

/-- A declaration has a type of the shape that it is written with. -/
def DeclaredAs (declaration : Node) (type : StaticType) : Prop :=
  match declaration.kind with
  | .functionDecl _ _ parameters result _ =>
    ∃ received returned, type = .function received returned ∧
      received.map Prod.fst = parameters.map Node.declaredName? ∧
      Denotes environment result returned
  | .recordDecl name generics declarations =>
    ∃ fields, type = .function fields (.constant name (genericTypes generics)) ∧
      fields.map Prod.fst =
        (declarations.filter fun field => field.fieldSlot?.isSome).map Node.declaredName?
  | .enumerationDecl name generics _ => type = .constant name (genericTypes generics)
  | .enumerationCase _ values =>
    ∃ received enumeration,
      type = .function (received.map fun value => (none, value)) enumeration ∧
      List.Forall₂ (Denotes environment) values received
  | .parameter _ ascription _ | .variableDecl _ (some ascription) _ =>
    Denotes environment ascription type
  | .genericParameter name => type = .generic name
  | _ => ∃ name, type = .variable name

end Annotations

/-- The type of both operands of an operator and of its result. -/
inductive Operates : Operator → StaticType → StaticType → Prop
  | arithmetic {operator : Operator} (h : operator.isArithmetic) :
      Operates operator .number .number
  | ordering {operator : Operator} (h : operator.isOrdering) :
      Operates operator .number .boolean
  | equal (type : StaticType) : Operates .equal type .boolean
  | notEqual (type : StaticType) : Operates .notEqual type .boolean
  | and : Operates .and .boolean .boolean
  | or : Operates .or .boolean .boolean

end Inference

open Inference

/-- What is known about the types of a tree, and when two types count as the same. -/
structure Judgment where
  environment : Environment
  typing : Typing
  same : StaticType → StaticType → Prop

namespace Judgment

section

variable (judgment : Judgment)

/-- The node has a type, and it is the given one. -/
def HasType (node : Node) (type : StaticType) : Prop :=
  ∃ own, judgment.typing.nodes[node.id]? = some own ∧ judgment.same own type

/-- The declaration has the type that it is written with. -/
def Declares (declaration : Node) (type : StaticType) : Prop :=
  judgment.typing.declarations[declaration.id]? = some type ∧
    DeclaredAs judgment.environment declaration type

/-- A reference has the type of its declaration.  To a function, a record or an enumeration case
it has an instance of that type, with something in place of the generic parameters. -/
def Refers (id : NodeId) (own : StaticType) : Prop :=
  match judgment.environment.declaration? id with
  | none => True
  | some declaration => ∃ type, judgment.Declares declaration type ∧
      if isPolymorphic declaration then
        ∃ replacement, judgment.same own (type.replaceGenerics replacement)
      else judgment.same own type

variable {judgment} in
theorem refers_of_none {id : NodeId} {own : StaticType}
    (h : judgment.environment.declaration? id = none) : judgment.Refers id own := by
  unfold Refers
  rw [h]
  trivial

variable {judgment} in
theorem refers_of_some {id : NodeId} {own type : StaticType} {declaration : Node}
    (h : judgment.environment.declaration? id = some declaration)
    (declares : judgment.Declares declaration type)
    (same : if isPolymorphic declaration then
      ∃ replacement, judgment.same own (type.replaceGenerics replacement)
      else judgment.same own type) : judgment.Refers id own := by
  unfold Refers
  rw [h]
  exact ⟨type, declares, same⟩

/-- What an argument brings to its slot.  A slot that is left to its default may have any type. -/
def Receives (received : Option String × Option Node) (slot : Option String × StaticType) : Prop :=
  slot.1 = received.1 ∧ ∀ argument, received.2 = some argument → judgment.HasType argument slot.2

/-- A `return` brings a type; without an expression it brings the unit type. -/
def Returns (expression? : Option Node) (type : StaticType) : Prop :=
  match expression? with
  | some expression => judgment.HasType expression type
  | none => judgment.same .unit type

/-- The rule of a node with a type of its own.  Outside of functions, nothing is demanded of what a
`return` brings. -/
def Rule (function? : Option Node) (node : Node) (own : StaticType) : Prop :=
  match node.kind with
  | .literal value => judgment.same own (literalType value)
  | .array elements =>
    ∃ element, judgment.same own (.array element) ∧
      ∀ item ∈ elements, judgment.HasType item element
  | .identifier _ | .member .. => judgment.Refers node.id own
  | .call callee arguments =>
    ∃ slots result, judgment.same own result ∧
      judgment.HasType callee (.function slots result) ∧
      List.Forall₂ judgment.Receives (receivedArguments judgment.environment callee arguments)
        slots
  | .argument _ expression | .expressionStatement expression => judgment.HasType expression own
  | .placeholder => True
  | .binary operator left right =>
    ∃ operand result, Operates operator operand result ∧ judgment.same own result ∧
      judgment.HasType left operand ∧ judgment.HasType right operand
  | .assignment target value =>
    judgment.same own .unit ∧ ∃ type, judgment.HasType target type ∧ judgment.HasType value type
  | .functionDecl .. | .recordDecl .. | .enumerationDecl .. | .enumerationCase .. =>
    ∃ type, judgment.Declares node type ∧ judgment.same own type
  | .variableDecl _ _ initializer? | .parameter _ _ initializer? =>
    ∃ type, judgment.Declares node type ∧ judgment.same own type ∧
      ∀ initializer, initializer? = some initializer → judgment.HasType initializer type
  | .returnStatement expression? =>
    judgment.same own .unit ∧ ∀ function, function? = some function →
      ∃ received result, judgment.Declares function (.function received result) ∧
        judgment.Returns expression? result
  | .branch condition _ | .loop condition _ =>
    judgment.same own .unit ∧ ∀ type, judgment.typing.nodes[condition.id]? = some type →
      judgment.same type .boolean
  | .program _ | .namespaceDecl .. | .importDecl _ | .genericParameter _ | .typeName ..
  | .functionType .. => True

/-- A judgment that knows more, and tells fewer types apart. -/
structure Refines (finer : Judgment) : Prop where
  environment : finer.environment = judgment.environment
  declarations : ∀ (id : NodeId) (type : StaticType),
    judgment.typing.declarations[id]? = some type → finer.typing.declarations[id]? = some type
  same : ∀ s t, judgment.same s t → finer.same s t

end

section Mono

variable {judgment finer : Judgment} (refines : judgment.Refines finer)

include refines

theorem HasType.mono {node : Node} {type : StaticType}
    (known : finer.typing.nodes[node.id]? = judgment.typing.nodes[node.id]?)
    (h : judgment.HasType node type) : finer.HasType node type := by
  obtain ⟨own, found, agrees⟩ := h
  exact ⟨own, known.trans found, refines.same _ _ agrees⟩

theorem Declares.mono {declaration : Node} {type : StaticType}
    (h : judgment.Declares declaration type) : finer.Declares declaration type := by
  refine ⟨refines.declarations _ _ h.1, ?_⟩
  rw [refines.environment]
  exact h.2

theorem Refers.mono {id : NodeId} {own : StaticType} (h : judgment.Refers id own) :
    finer.Refers id own := by
  unfold Refers at h ⊢
  rw [refines.environment]
  split at h
  · trivial
  · obtain ⟨type, declares, instance_⟩ := h
    refine ⟨type, declares.mono refines, ?_⟩
    split at instance_
    · rename_i polymorphic
      obtain ⟨replacement, same⟩ := instance_
      rw [if_pos polymorphic]
      exact ⟨replacement, refines.same _ _ same⟩
    · rename_i monomorphic
      rw [if_neg monomorphic]
      exact refines.same _ _ instance_

/-- A rule stays true as long as the types of the children stay as they are. -/
theorem Rule.mono {function? : Option Node} {node : Node} {own : StaticType}
    (known : ∀ child ∈ node.children,
      finer.typing.nodes[child.id]? = judgment.typing.nodes[child.id]?)
    (h : judgment.Rule function? node own) : finer.Rule function? node own := by
  obtain ⟨id, kind⟩ := node
  have child {part : Node} {type : StaticType} (mem : part ∈ kind.children)
      (hasType : judgment.HasType part type) : finer.HasType part type :=
    hasType.mono refines (known part mem)
  have declared {type : StaticType} (declares : judgment.Declares (.mk id kind) type) :=
    declares.mono refines
  cases kind with
  | literal value => exact refines.same _ _ h
  | array elements =>
    obtain ⟨element, same, items⟩ := h
    exact ⟨element, refines.same _ _ same, fun item mem => child mem (items item mem)⟩
  | identifier name => exact Refers.mono refines h
  | member object name => exact Refers.mono refines h
  | call callee arguments =>
    obtain ⟨slots, result, same, called, received⟩ := h
    refine ⟨slots, result, refines.same _ _ same, child List.mem_cons_self called, ?_⟩
    rw [refines.environment]
    refine forall₂_imp_of_mem received fun argument mem slot receives => ?_
    refine ⟨receives.1, fun given found => child ?_ (receives.2 given found)⟩
    obtain ⟨label?, argument?⟩ := argument
    dsimp only at found
    subst found
    exact List.mem_cons_of_mem _ (mem_of_mem_receivedArguments mem)
  | argument label? expression => exact child List.mem_cons_self h
  | expressionStatement expression => exact child List.mem_cons_self h
  | placeholder => trivial
  | binary operator left right =>
    obtain ⟨operand, result, operates, same, first, second⟩ := h
    exact ⟨operand, result, operates, refines.same _ _ same, child (by simp [Kind.children]) first,
      child (by simp [Kind.children]) second⟩
  | assignment target value =>
    obtain ⟨same, type, first, second⟩ := h
    exact ⟨refines.same _ _ same, type, child (by simp [Kind.children]) first,
      child (by simp [Kind.children]) second⟩
  | functionDecl | recordDecl | enumerationDecl | enumerationCase =>
    obtain ⟨type, declares, same⟩ := h
    exact ⟨type, declared declares, refines.same _ _ same⟩
  | variableDecl name type? initializer? =>
    obtain ⟨type, declares, same, initialized⟩ := h
    refine ⟨type, declared declares, refines.same _ _ same, ?_⟩
    rintro initializer rfl
    exact child (by simp [Kind.children]) (initialized initializer rfl)
  | parameter name ascription default? =>
    obtain ⟨type, declares, same, initialized⟩ := h
    refine ⟨type, declared declares, refines.same _ _ same, ?_⟩
    rintro initializer rfl
    exact child (by simp [Kind.children]) (initialized initializer rfl)
  | returnStatement expression? =>
    refine ⟨refines.same _ _ h.1, fun function inside => ?_⟩
    obtain ⟨received, result, declares, returns⟩ := h.2 function inside
    refine ⟨received, result, declares.mono refines, ?_⟩
    cases expression? with
    | some expression => exact child (by simp [Kind.children]) returns
    | none => exact refines.same _ _ returns
  | branch condition block =>
    refine ⟨refines.same _ _ h.1, fun type found => refines.same _ _ (h.2 type ?_)⟩
    exact (known condition List.mem_cons_self).symm.trans found
  | loop condition block =>
    refine ⟨refines.same _ _ h.1, fun type found => refines.same _ _ (h.2 type ?_)⟩
    exact (known condition List.mem_cons_self).symm.trans found
  | program | namespaceDecl | importDecl | genericParameter | typeName | functionType => trivial

end Mono

end Judgment

end DeclLang
