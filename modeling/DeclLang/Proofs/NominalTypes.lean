import DeclLang.Proofs.ArgumentPassing
import DeclLang.Proofs.DeclaredTypes

/-!
# Records and enumerations as types

A record and an enumeration are known to the types by the name that they are declared with, without
the namespaces around them.

**Input.**  A compiled tree, in which the parameters of functions are parameters and enumeration
cases belong to enumerations.

**Relations.**
* `Compilation.Builds`: a constructor of the declaration (the record itself, or a case of the
  enumeration) makes values of the type.
* `Inference.Yields`: the expression stands for a value of the declaration.
* `Inference.Passes`: the expression is passed to where the annotation stands.

**Results.**
* `Compilation.apart_of_names`: declarations with different names build types that no assignment
  makes agree, and a value of the one that is passed to where the other is annotated is reported.
* `sameNamed_accepted`: two records with one name, in different namespaces, are not told apart.
-/

namespace DeclLang

/-- Related lists are related position by position. -/
theorem forall₂_getElem? {α β : Type} {R : α → β → Prop} {l : List α} {m : List β}
    (h : List.Forall₂ R l m) {position : Nat} {a : α} (here : l[position]? = some a) :
    ∃ b, m[position]? = some b ∧ R a b := by
  induction h generalizing position with
  | nil => cases here
  | cons first _ ih =>
    cases position with
    | zero =>
      cases here
      exact ⟨_, rfl, first⟩
    | succ position => exact ih here

/-- Without replacements, a type stays as it is. -/
@[simp] theorem StaticType.replaceGenerics_none (type : StaticType) :
    type.replaceGenerics (fun _ => none) = type :=
  type.mapLeaves_leaves

@[simp] theorem StaticType.replaceGenerics_constant (name : String) (parameters : List StaticType)
    (replacement : String → Option StaticType) :
    (constant name parameters).replaceGenerics replacement =
      .constant name (parameters.map (replaceGenerics replacement)) := by
  rw [replaceGenerics, mapLeaves]
  rfl

namespace Inference

/-- The expression refers to a declaration. -/
def IsReference (node : Node) : Prop :=
  (∃ name, node.kind = .identifier name) ∨ ∃ object name, node.kind = .member object name

/-- The declaration has a constructor: a record is its own, an enumeration has its cases. -/
def HasConstructor (index : NodeIndex) (declaration constructor : Node) : Prop :=
  (constructor = declaration ∧ ∃ name generics fields,
    declaration.kind = .recordDecl name generics fields) ∨
  (index.parent? constructor.id = some declaration ∧ declaration.IsEnumeration ∧
    ∃ name values, constructor.kind = .enumerationCase name values)

/-- The annotation names the declaration. -/
def Annotates (environment : Environment) (ascription declaration : Node) : Prop :=
  (∃ name arguments, ascription.kind = .typeName name arguments) ∧
    environment.typeDeclaration? ascription.id = some declaration

/-- The annotation of a variable or a parameter. -/
def ascription? (node : Node) : Option Node :=
  match node.kind with
  | .variableDecl _ ascription? _ => ascription?
  | .parameter _ ascription _ => some ascription
  | _ => none

/-- The annotations at the slots of what is called. -/
def slotAscriptions (callee : Node) : List (Option Node) :=
  match callee.kind with
  | .functionDecl _ _ parameters .. => parameters.map ascription?
  | .recordDecl _ _ declarations =>
    (declarations.filter fun field => field.fieldSlot?.isSome).map ascription?
  | .enumerationCase _ values => values.map some
  | _ => []

/-- The expression stands for a value of the record or the enumeration: it is made by a constructor,
given back by a function, or held by a variable or a parameter. -/
inductive Yields (environment : Environment) (root declaration : Node) : Node → Prop
  | constructed {id : NodeId} {callee constructor : Node} {arguments : List Node}
      (reference : IsReference callee)
      (refers : environment.declaration? callee.id = some constructor)
      (constructs : HasConstructor environment.index declaration constructor) :
      Yields environment root declaration (.mk id (.call callee arguments))
  | returned {id : NodeId} {callee function result : Node} {arguments : List Node}
      {name : String} {generics parameters body : List Node}
      (reference : IsReference callee)
      (refers : environment.declaration? callee.id = some function)
      (kind : function.kind = .functionDecl name generics parameters result body)
      (annotated : Annotates environment result declaration) :
      Yields environment root declaration (.mk id (.call callee arguments))
  | annotated {reference holder ascription : Node} (isReference : IsReference reference)
      (refers : environment.declaration? reference.id = some holder)
      (written : ascription? holder = some ascription)
      (annotated : Annotates environment ascription declaration) :
      Yields environment root declaration reference
  | initialized {reference holder initializer : Node} {function? : Option Node} {name : String}
      (isReference : IsReference reference)
      (refers : environment.declaration? reference.id = some holder)
      (place : (function?, holder) ∈ reached none root)
      (kind : holder.kind = .variableDecl name none (some initializer))
      (value : Yields environment root declaration initializer) :
      Yields environment root declaration reference
  | argument {id : NodeId} {label? : Option String} {expression : Node}
      (value : Yields environment root declaration expression) :
      Yields environment root declaration (.mk id (.argument label? expression))

/-- Below the innermost function around it, the node passes the value to where the annotation
stands. -/
inductive Passes (environment : Environment) : Option Node → Node → Node → Node → Prop
  | initializer {function? : Option Node} {id : NodeId} {name : String}
      {ascription value : Node} :
      Passes environment function? (.mk id (.variableDecl name (some ascription) (some value)))
        value ascription
  | byDefault {function? : Option Node} {id : NodeId} {name : String} {ascription value : Node} :
      Passes environment function? (.mk id (.parameter name ascription (some value)))
        value ascription
  | assigned {function? : Option Node} {id : NodeId} {target value holder ascription : Node}
      (reference : IsReference target)
      (refers : environment.declaration? target.id = some holder)
      (written : ascription? holder = some ascription) :
      Passes environment function? (.mk id (.assignment target value)) value ascription
  | returned {id : NodeId} {value function ascription : Node} {name : String}
      {generics parameters body : List Node}
      (kind : function.kind = .functionDecl name generics parameters ascription body) :
      Passes environment (some function) (.mk id (.returnStatement (some value))) value ascription
  | received {function? : Option Node} {id : NodeId} {callee called value ascription : Node}
      {arguments : List Node} {position : Nat} {label? : Option String}
      (reference : IsReference callee)
      (refers : environment.declaration? callee.id = some called)
      (slot : (slotAscriptions called)[position]? = some (some ascription))
      (given : (receivedArguments environment callee arguments)[position]? =
        some (label?, some value)) :
      Passes environment function? (.mk id (.call callee arguments)) value ascription

/-- What is passed on is come to as well. -/
theorem Passes.reached {environment : Environment} {root : Node} {function? : Option Node}
    {node value ascription : Node} (passes : Passes environment function? node value ascription)
    (place : (function?, node) ∈ reached none root) :
    (function?, value) ∈ Inference.reached none root := by
  have visit : value ∈ visited node := by
    cases passes with
    | received reference refers slot given =>
      exact List.mem_cons_of_mem _ (mem_of_mem_receivedArguments (List.mem_of_getElem? given))
    | _ => simp [visited, passesOver, Node.children, Kind.children]
  have below := mem_reached_of_visited place visit
  cases passes <;> exact below

/-- An annotation that names a record or an enumeration denotes a constant of its name. -/
theorem Annotates.constant {environment : Environment} {ascription declaration : Node}
    {name : String} {type : StaticType} (annotates : Annotates environment ascription declaration)
    (named : declaredTypeName? declaration = some name)
    (denotes : Denotes environment ascription type) :
    ∃ parameters, type = .constant name parameters := by
  obtain ⟨⟨_, _, kind⟩, refers⟩ := annotates
  cases denotes with
  | generic refers' kind' =>
    rw [Node.id_mk, refers'] at refers
    cases refers
    simp [declaredTypeName?, kind'] at named
  | declared refers' named' =>
    rw [Node.id_mk, refers'] at refers
    cases refers
    rw [named'] at named
    cases named
    exact ⟨_, rfl⟩
  | undeclared refers' =>
    rw [Node.id_mk, refers'] at refers
    cases refers
  | function => cases kind
  | nothing silent =>
    rw [isMeaningful, kind] at silent
    simp only [refers] at silent
    split at silent
    · cases silent
    · simp [named] at silent

/-- A variable or a parameter with an annotation has the type that the annotation denotes. -/
theorem denotes_of_ascription {environment : Environment} {holder ascription : Node}
    {type : StaticType} (written : ascription? holder = some ascription)
    (declared : DeclaredAs environment holder type) : Denotes environment ascription type := by
  obtain ⟨id, kind⟩ := holder
  cases kind with
  | parameter =>
    cases written
    exact declared
  | variableDecl name type? =>
    cases written
    exact declared
  | _ => cases written

/-- The parameters of the type of a callee are what the annotations at its slots denote. -/
theorem denotes_of_slot {environment : Environment} {callee ascription : Node}
    {received : List (Option String × StaticType)} {result : StaticType}
    (declared : DeclaredAs environment callee (.function received result))
    (composed : Composed environment callee (.function received result)) {position : Nat}
    (slot : (slotAscriptions callee)[position]? = some (some ascription)) :
    ∃ parameter, received[position]? = some parameter ∧
      Denotes environment ascription parameter.2 := by
  -- The parts of a function or a record, each with the type that it is declared with.
  have among {parts : List Node}
      (typed : List.Forall₂ (fun part slot => DeclaredAs environment part slot.2) parts received)
      (written : (parts.map ascription?)[position]? = some (some ascription)) :
      ∃ parameter, received[position]? = some parameter ∧
        Denotes environment ascription parameter.2 := by
    rw [List.getElem?_map, Option.map_eq_some_iff] at written
    obtain ⟨part, here, written⟩ := written
    obtain ⟨parameter, there, declared⟩ := forall₂_getElem? typed here
    exact ⟨parameter, there, denotes_of_ascription written declared⟩
  obtain ⟨id, kind⟩ := callee
  cases kind with
  | functionDecl name generics parameters =>
    obtain ⟨_, _, same, typed⟩ := composed
    cases same
    exact among typed slot
  | recordDecl name generics declarations =>
    obtain ⟨_, _, same, typed⟩ := composed
    cases same
    exact among typed slot
  | enumerationCase name values =>
    obtain ⟨types, _, same, denoted⟩ := declared
    cases same
    rw [slotAscriptions, Node.kind_mk, List.getElem?_map, Option.map_eq_some_iff] at slot
    obtain ⟨value, here, same⟩ := slot
    cases same
    obtain ⟨type, there, denotes⟩ := forall₂_getElem? denoted here
    exact ⟨(none, type), by rw [List.getElem?_map, there]; rfl, denotes⟩
  | _ => cases slot

/-- A type that is put together from parts is the type of a function. -/
theorem function_of_composed {environment : Environment} {node : Node} {type : StaticType}
    (composed : Composed environment node type) (made : isComposed node = true) :
    ∃ received result, type = .function received result := by
  obtain ⟨id, kind⟩ := node
  cases kind with
  | functionDecl | recordDecl | enumerationCase =>
    obtain ⟨received, result, same, -⟩ := composed
    exact ⟨received, result, same⟩
  | _ => cases made

/-- What has annotated slots is put together from parts. -/
theorem isComposed_of_slot {callee ascription : Node} {position : Nat}
    (slot : (slotAscriptions callee)[position]? = some (some ascription)) :
    isComposed callee = true := by
  obtain ⟨id, kind⟩ := callee
  cases kind <;> first | rfl | cases slot

theorem isComposed_of_constructor {index : NodeIndex} {declaration constructor : Node}
    (constructs : HasConstructor index declaration constructor) :
    isComposed constructor = true := by
  rcases constructs with ⟨rfl, _, _, _, kind⟩ | ⟨-, -, _, _, kind⟩ <;> rw [isComposed, kind]

/-- A constructor gives back the constant of its declaration. -/
theorem constant_of_constructor {environment : Environment} {declaration constructor : Node}
    {name : String} {received : List (Option String × StaticType)} {result : StaticType}
    (constructs : HasConstructor environment.index declaration constructor)
    (named : declaredTypeName? declaration = some name)
    (declared : DeclaredAs environment constructor (.function received result))
    (composed : Composed environment constructor (.function received result)) :
    ∃ parameters, result = .constant name parameters := by
  rcases constructs with ⟨rfl, _, _, _, kind⟩ | ⟨above, ⟨_, _, _, kind⟩, _, _, case_⟩
  · rw [DeclaredAs, kind] at declared
    obtain ⟨_, same, -⟩ := declared
    rw [declaredTypeName?, kind] at named
    cases same
    cases named
    exact ⟨_, rfl⟩
  · rw [Composed, case_] at composed
    obtain ⟨_, _, same, enumeration⟩ := composed
    cases same
    have around := enumeration declaration (by simp [typedParts, case_, above])
    rw [DeclaredAs, kind] at around
    rw [declaredTypeName?, kind] at named
    cases named
    exact ⟨_, around⟩

end Inference

open Inference

section Solved

variable {typing : Typing} {environment : Environment} {root : Node}

/-- Constants that are solved to the same type have the same name. -/
theorem Typing.name_eq_of_same {name other : String} {parameters arguments : List StaticType}
    (h : (typing.solvedJudgment environment).same (.constant name parameters)
      (.constant other arguments)) : name = other := by
  simp only [solvedJudgment, StaticType.Agrees, Substitution.apply, StaticType.mapLeaves,
    StaticType.unlabeled, StaticType.constant.injEq] at h
  exact h.1

/-- Functions that are solved to the same type have the same results and parameters. -/
theorem Typing.parts_of_same {received slots : List (Option String × StaticType)}
    {result returned : StaticType}
    (h : (typing.solvedJudgment environment).same (.function received result)
      (.function slots returned)) :
    (typing.solvedJudgment environment).same result returned ∧
      ∀ {position : Nat} {parameter slot : Option String × StaticType},
        received[position]? = some parameter → slots[position]? = some slot →
          (typing.solvedJudgment environment).same parameter.2 slot.2 := by
  simp only [solvedJudgment, StaticType.Agrees, Substitution.apply, StaticType.mapLeaves,
    StaticType.unlabeled, StaticType.function.injEq, List.map_map] at h
  refine ⟨h.2, fun {position parameter slot} here there => ?_⟩
  have entry := congrArg (fun entries => entries[position]?) h.1
  simpa [here, there, solvedJudgment, StaticType.Agrees, Substitution.apply] using entry

variable (typing environment root) in
/-- What is known of the types of a tree once its constraints are solved. -/
structure Typing.Solved : Prop where
  rules : ∀ place ∈ reached none root, isTyped place.2 = true →
    ∃ own, typing.nodes[place.2.id]? = some own ∧
      (typing.solvedJudgment environment).Rule place.1 place.2 own
  suitable : Suitable environment root typing.declarations
  inside : ∀ id declaration, environment.declaration? id = some declaration →
    declaration ∈ root.preorder

/-- A node has one type. -/
theorem Typing.same_of_hasType {node : Node} {type other : StaticType}
    (h : (typing.solvedJudgment environment).HasType node type)
    (h' : (typing.solvedJudgment environment).HasType node other) :
    (typing.solvedJudgment environment).same type other := by
  obtain ⟨own, known, same⟩ := h
  obtain ⟨_, known', same'⟩ := h'
  cases known.symm.trans known'
  exact StaticType.Agrees.trans same.symm same'

theorem Typing.hasType_of_same {node : Node} {type other : StaticType}
    (h : (typing.solvedJudgment environment).HasType node type)
    (same : (typing.solvedJudgment environment).same type other) :
    (typing.solvedJudgment environment).HasType node other := by
  obtain ⟨own, known, agrees⟩ := h
  exact ⟨own, known, StaticType.Agrees.trans agrees same⟩

namespace Typing.Solved

variable (solved : typing.Solved environment root) {function? : Option Node}

include solved

/-- A reference has the type of its declaration, with something in place of the generic
parameters. -/
theorem reference {node declaration : Node} (place : (function?, node) ∈ reached none root)
    (isReference : IsReference node)
    (refers : environment.declaration? node.id = some declaration) :
    ∃ type, (typing.solvedJudgment environment).Declares declaration type ∧
      (isPolymorphic declaration = false →
        (typing.solvedJudgment environment).HasType node type) ∧
      ∃ replacement, (typing.solvedJudgment environment).HasType node
        (type.replaceGenerics replacement) := by
  have typed : isTyped node = true := by
    rcases isReference with ⟨_, kind⟩ | ⟨_, _, kind⟩ <;> rw [isTyped, kind]
  obtain ⟨own, known, rule⟩ := solved.rules _ place typed
  have refers' : (typing.solvedJudgment environment).Refers node.id own := by
    rcases isReference with ⟨_, kind⟩ | ⟨_, _, kind⟩ <;> rwa [Judgment.Rule, kind] at rule
  unfold Judgment.Refers at refers'
  have found : (typing.solvedJudgment environment).environment.declaration? node.id =
      some declaration := refers
  rw [found] at refers'
  obtain ⟨type, declares, instance_⟩ := refers'
  refine ⟨type, declares, ?_⟩
  split at instance_
  · rename_i polymorphic
    obtain ⟨replacement, same⟩ := instance_
    exact ⟨fun other => absurd polymorphic (by simp [other]), replacement, own, known, same⟩
  · refine ⟨fun _ => ⟨own, known, instance_⟩, fun _ => none, own, known, ?_⟩
    rwa [StaticType.replaceGenerics_none]

/-- A call has the type that its callee gives back, and its arguments have the types that the callee
receives, with something in place of the generic parameters. -/
theorem call {id : NodeId} {callee called : Node} {arguments : List Node}
    (place : (function?, .mk id (.call callee arguments)) ∈ reached none root)
    (isReference : IsReference callee)
    (refers : environment.declaration? callee.id = some called) :
    ∃ type, (typing.solvedJudgment environment).Declares called type ∧ ∃ replacement,
      ∀ received result, type = .function received result →
        (typing.solvedJudgment environment).HasType (.mk id (.call callee arguments))
          (result.replaceGenerics replacement) ∧
        ∀ (position : Nat) (parameter : Option String × StaticType) (label? : Option String)
          (value : Node), received[position]? = some parameter →
            (receivedArguments environment callee arguments)[position]? =
              some (label?, some value) →
            (typing.solvedJudgment environment).HasType value
              (parameter.2.replaceGenerics replacement) := by
  obtain ⟨own, known, slots, given, same, hasType, receives⟩ := solved.rules _ place rfl
  have below : (function?, callee) ∈ reached none root :=
    mem_reached_of_visited place List.mem_cons_self
  obtain ⟨type, declares, -, replacement, instance_⟩ := solved.reference below isReference refers
  refine ⟨type, declares, replacement, fun received result shape => ?_⟩
  subst shape
  have both := same_of_hasType hasType instance_
  rw [StaticType.replaceGenerics, StaticType.mapLeaves] at both
  obtain ⟨results, parameters⟩ := parts_of_same both
  refine ⟨⟨own, known, StaticType.Agrees.trans same results⟩, ?_⟩
  intro position parameter label? value here passed
  obtain ⟨slot, there, -, typed⟩ := forall₂_getElem? receives passed
  exact hasType_of_same (typed value rfl) (parameters there (by rw [List.getElem?_map, here]; rfl))

/-- A stored type suits its declaration. -/
theorem composed {declaration : Node} {type : StaticType} {id : NodeId}
    (refers : environment.declaration? id = some declaration)
    (declares : (typing.solvedJudgment environment).Declares declaration type) :
    Composed environment declaration type :=
  (solved.suitable declaration (solved.inside _ _ refers) type declares.1).2

/-- What stands for a value of a record or an enumeration has a type of its name. -/
theorem hasType_of_yields {declaration value : Node} {name : String}
    (named : declaredTypeName? declaration = some name)
    (yields : Yields environment root declaration value)
    (place : (function?, value) ∈ reached none root) :
    ∃ parameters,
      (typing.solvedJudgment environment).HasType value (.constant name parameters) := by
  induction yields generalizing function? with
  | @constructed id callee constructor arguments reference refers constructs =>
    obtain ⟨type, declares, replacement, typed⟩ := solved.call place reference refers
    have composed := solved.composed refers declares
    obtain ⟨received, result, rfl⟩ :=
      function_of_composed composed (isComposed_of_constructor constructs)
    obtain ⟨parameters, rfl⟩ := constant_of_constructor constructs named declares.2 composed
    have own := (typed _ _ rfl).1
    rw [StaticType.replaceGenerics_constant] at own
    exact ⟨_, own⟩
  | @returned id callee function result arguments _ _ _ _ reference refers kind annotated =>
    obtain ⟨type, declares, replacement, typed⟩ := solved.call place reference refers
    have declared := declares.2
    rw [DeclaredAs, kind] at declared
    obtain ⟨received, returned, rfl, -, denotes⟩ := declared
    obtain ⟨parameters, rfl⟩ := annotated.constant named denotes
    have own := (typed _ _ rfl).1
    rw [StaticType.replaceGenerics_constant] at own
    exact ⟨_, own⟩
  | annotated reference refers written annotated =>
    obtain ⟨type, declares, -, replacement, typed⟩ := solved.reference place reference refers
    obtain ⟨parameters, rfl⟩ := annotated.constant named (denotes_of_ascription written declares.2)
    rw [StaticType.replaceGenerics_constant] at typed
    exact ⟨_, typed⟩
  | @initialized reference holder initializer _ _ isReference refers inside kind value ih =>
    obtain ⟨type, declares, typed, -⟩ := solved.reference place isReference refers
    obtain ⟨own, known, rule⟩ := solved.rules _ inside (by rw [isTyped, kind])
    rw [Judgment.Rule, kind] at rule
    obtain ⟨stored, holds, -, initialized⟩ := rule
    cases declares.1.symm.trans holds.1
    have visit : initializer ∈ visited holder := by
      simp [visited, passesOver, Node.children, kind, Kind.children]
    obtain ⟨parameters, hasType⟩ := ih (mem_reached_of_visited inside visit)
    have same := same_of_hasType (initialized initializer rfl) hasType
    exact ⟨parameters, hasType_of_same (typed (by rw [isPolymorphic, kind])) same⟩
  | @argument id label? expression value ih =>
    obtain ⟨parameters, hasType⟩ := ih (mem_reached_of_visited place List.mem_cons_self)
    obtain ⟨own, known, rule⟩ := solved.rules _ place rfl
    have same := same_of_hasType rule hasType
    exact ⟨parameters, own, known, same⟩

/-- What is passed to where an annotation stands has the type that the annotation denotes, with
something in place of the generic parameters. -/
theorem hasType_of_passes {node value ascription : Node}
    (passes : Passes environment function? node value ascription)
    (place : (function?, node) ∈ reached none root) :
    ∃ type, Denotes environment ascription type ∧ ∃ replacement,
      (typing.solvedJudgment environment).HasType value (type.replaceGenerics replacement) := by
  have plain {type : StaticType} (h : (typing.solvedJudgment environment).HasType value type) :
      ∃ replacement, (typing.solvedJudgment environment).HasType value
        (type.replaceGenerics replacement) := by
    refine ⟨fun _ => none, ?_⟩
    rwa [StaticType.replaceGenerics_none]
  cases passes with
  | initializer =>
    obtain ⟨own, known, type, declares, same, initialized⟩ := solved.rules _ place rfl
    exact ⟨type, declares.2, plain (initialized value rfl)⟩
  | byDefault =>
    obtain ⟨own, known, type, declares, same, initialized⟩ := solved.rules _ place rfl
    exact ⟨type, declares.2, plain (initialized value rfl)⟩
  | @assigned _ id target _ holder _ reference refers written =>
    obtain ⟨own, known, same, type, left, right⟩ := solved.rules _ place rfl
    have below : (function?, target) ∈ reached none root :=
      mem_reached_of_visited place List.mem_cons_self
    obtain ⟨declared, declares, -, replacement, hasType⟩ :=
      solved.reference below reference refers
    exact ⟨declared, denotes_of_ascription written declares.2, replacement,
      hasType_of_same right (same_of_hasType left hasType)⟩
  | @returned id _ function _ name generics parameters body kind =>
    obtain ⟨own, known, same, returns⟩ := solved.rules _ place rfl
    obtain ⟨received, result, declares, given⟩ := returns function rfl
    have declared := declares.2
    rw [DeclaredAs, kind] at declared
    obtain ⟨_, _, shape, -, denotes⟩ := declared
    cases shape
    exact ⟨result, denotes, plain given⟩
  | @received _ id callee called _ _ arguments position label? reference refers slot given =>
    obtain ⟨type, declares, replacement, typed⟩ := solved.call place reference refers
    have composed := solved.composed refers declares
    obtain ⟨received, result, rfl⟩ := function_of_composed composed (isComposed_of_slot slot)
    obtain ⟨parameter, here, denotes⟩ := denotes_of_slot declares.2 composed slot
    exact ⟨parameter.2, denotes, replacement,
      (typed received result rfl).2 position parameter label? value here given⟩

end Typing.Solved

end Solved

namespace Compilation

/-- A constructor of the declaration makes values of the type, with something in place of the
generic parameters. -/
def Builds (compilation : Compilation) (declaration : Node) (type : StaticType) : Prop :=
  ∃ constructor ∈ compilation.root.preorder,
    HasConstructor compilation.index declaration constructor ∧
      ∃ received result, compilation.typing.declarations[constructor.id]? =
        some (.function received result) ∧
      ∃ replacement, type = result.replaceGenerics replacement

section Compiled

variable {options : Options} {root : Node} {focus : Option NodeId} {before after : Reports}
  {compilation : Compilation}
  (compiled : ofTree options root focus before = (.ok compilation, after))

include compiled

/-- The constraints of a compiled program are solved in order. -/
theorem unifier_of_ofTree :
    compilation.unifier = ({} : Unifier).solveAll compilation.typing.constraints.toList := by
  unfold ofTree at compiled
  obtain ⟨index, _, -, compiled⟩ := Step.bind_ok_inv compiled
  obtain ⟨names, _, -, compiled⟩ := Step.bind_ok_inv compiled
  obtain ⟨scope, _, -, compiled⟩ := Step.bind_ok_inv compiled
  obtain ⟨unifier, _, solves, compiled⟩ := Step.bind_ok_inv compiled
  cases compiled
  obtain ⟨_, _, -, solves⟩ := Step.bind_ok_inv solves
  cases solves
  rfl

/-- In a program that compiles without a type error, the typing rules hold of the solved types. -/
theorem rules_of_ofTree (accepted : compilation.unifier.errors = #[])
    {place : Option Node × Node} (mem : place ∈ reached none compilation.root)
    (typed : isTyped place.2 = true) :
    ∃ own, compilation.typing.nodes[place.2.id]? = some own ∧
      (compilation.typing.solvedJudgment compilation.environment).Rule place.1 place.2 own := by
  obtain ⟨-, built, supply, inferred⟩ := typing_of_ofTree compiled
  rw [unifier_of_ofTree compiled, inferred] at accepted
  rw [inferred]
  exact Typing.rules_of_solved (consistent_of_ofTree compiled).distinct built accepted mem typed

variable (regular : Regular compilation.index compilation.root)

include regular

theorem suitable_of_ofTree :
    Suitable compilation.environment compilation.root compilation.typing.declarations := by
  obtain ⟨-, built, supply, inferred⟩ := typing_of_ofTree compiled
  rw [inferred]
  exact Typing.suitable_infer (consistent_of_ofTree compiled).distinct built regular
    compilation.scope supply

/-- A program that compiles without a type error is solved. -/
theorem solved_of_ofTree (accepted : compilation.unifier.errors = #[]) :
    compilation.typing.Solved compilation.environment compilation.root where
  rules _ mem typed := rules_of_ofTree compiled accepted mem typed
  suitable := suitable_of_ofTree compiled regular
  inside id declaration refers := by
    obtain ⟨-, built, -⟩ := typing_of_ofTree compiled
    obtain ⟨_, _, got⟩ := Option.bind_eq_some_iff.1 refers
    exact (NodeIndex.mem_of_get? built got).1

/-- The type that constructors build is a constant of the name of the declaration. -/
theorem constant_of_builds {declaration : Node} {name : String} {type : StaticType}
    (named : declaredTypeName? declaration = some name)
    (builds : compilation.Builds declaration type) :
    ∃ parameters, type = .constant name parameters := by
  obtain ⟨constructor, inside, constructs, received, result, stored, replacement, rfl⟩ := builds
  obtain ⟨declared, composed⟩ := suitable_of_ofTree compiled regular constructor inside _ stored
  obtain ⟨parameters, rfl⟩ := constant_of_constructor constructs named declared composed
  exact ⟨_, StaticType.replaceGenerics_constant name parameters replacement⟩

/-- Records and enumerations with different names are told apart.  The types that their constructors
build cannot be made to agree, and a value of the one where the other is annotated is an error.

The names are those of the declarations alone: two declarations that have the same name in different
namespaces are not told apart. -/
theorem apart_of_names {first second : Node} {name other : String}
    (named : declaredTypeName? first = some name) (called : declaredTypeName? second = some other)
    (different : name ≠ other) :
    (∀ type type', compilation.Builds first type → compilation.Builds second type' →
      ∀ assignment assignment' : Assignment,
        ¬(type.instantiate assignment).Agrees (type'.instantiate assignment')) ∧
    ∀ function? node value ascription, (function?, node) ∈ reached none compilation.root →
      Passes compilation.environment function? node value ascription →
      Yields compilation.environment compilation.root first value →
      Annotates compilation.environment ascription second →
        compilation.unifier.errors ≠ #[] := by
  constructor
  · intro type type' builds builds' assignment assignment' agrees
    obtain ⟨_, rfl⟩ := constant_of_builds compiled regular named builds
    obtain ⟨_, rfl⟩ := constant_of_builds compiled regular called builds'
    simp only [StaticType.instantiate, StaticType.mapLeaves, StaticType.Agrees,
      StaticType.unlabeled, StaticType.constant.injEq] at agrees
    exact different agrees.1
  · intro function? node value ascription place passes yields annotates accepted
    have solved := solved_of_ofTree compiled regular accepted
    obtain ⟨type, denotes, replacement, there⟩ := solved.hasType_of_passes passes place
    obtain ⟨_, rfl⟩ := annotates.constant called denotes
    rw [StaticType.replaceGenerics_constant] at there
    obtain ⟨_, here⟩ := solved.hasType_of_yields named yields (passes.reached place)
    exact different (Typing.name_eq_of_same (Typing.same_of_hasType here there))

end Compiled

/-- In a compiled tree, a node is known by its identity. -/
theorem found_of_id {options : Options} {root : Node} {focus : Option NodeId}
    {before after : Reports} {compilation : Compilation}
    (compiled : ofTree options root focus before = (.ok compilation, after)) {node : Node}
    (inside : node ∈ root.preorder) {resolved? : Option NodeId}
    (same : (resolved?.bind compilation.index.get?).map Node.id = some node.id) :
    resolved?.bind compilation.index.get? = some node := by
  obtain ⟨own, built, -⟩ := typing_of_ofTree compiled
  rw [own] at built
  obtain ⟨found, got, id⟩ := Option.map_eq_some_iff.1 same
  obtain ⟨_, -, here⟩ := Option.bind_eq_some_iff.1 got
  have distinct := (consistent_of_ofTree compiled).distinct
  rw [own] at distinct
  rw [got, Node.eq_of_id_eq distinct (NodeIndex.mem_of_get? built here).1 inside id]

/-- A tree without functions and enumeration cases is regular. -/
theorem regular_of_absent {index : NodeIndex} {root : Node}
    (absent : ∀ node ∈ root.preorder, ¬node.IsFunction ∧
      ∀ name values, node.kind ≠ .enumerationCase name values) : Regular index root where
  parameters node mem _ _ _ _ _ kind := absurd ⟨_, _, _, _, _, kind⟩ (absent node mem).1
  cases node mem name values kind := absurd kind ((absent node mem).2 name values)

/-- A record without fields. -/
def emptyRecord (id : NodeId) (name : String) : Node :=
  .mk id (.recordDecl name [] [])

/-- A variable that is annotated with one record and holds a value of the other. -/
def mixedVariable : Node :=
  .mk 3 (.variableDecl "x" (some (.mk 4 (.typeName "Point" [])))
    (some (.mk 5 (.call (.mk 6 (.identifier "Line")) []))))

/-- Two records and the variable. -/
def mixedRecords : Node :=
  .mk 0 (.program [emptyRecord 1 "Point", emptyRecord 2 "Line", mixedVariable])

theorem preorder_mixedRecords : mixedRecords.preorder =
    [mixedRecords, emptyRecord 1 "Point", emptyRecord 2 "Line", mixedVariable,
      .mk 4 (.typeName "Point" []), .mk 5 (.call (.mk 6 (.identifier "Line")) []),
      .mk 6 (.identifier "Line")] := by cbv

/-- The value is reported, and the types of the records are told apart. -/
theorem apart_of_names_mixedRecords :
    ∃ compilation after, ofTree {} mixedRecords none {} = (.ok compilation, after) ∧
      compilation.unifier.errors ≠ #[] ∧
      ∀ type type', compilation.Builds (emptyRecord 2 "Line") type →
        compilation.Builds (emptyRecord 1 "Point") type' →
          ∀ assignment assignment' : Assignment,
            ¬(type.instantiate assignment).Agrees (type'.instantiate assignment') := by
  have checked : ((ofTree {} mixedRecords none {}).1.toOption.bind fun compilation =>
      some ((compilation.environment.declaration? 6).map Node.id,
        (compilation.environment.typeDeclaration? 4).map Node.id)) = some (some 2, some 1) := by
    decide +kernel
  obtain ⟨compilation, compiled, holds⟩ := compiled_of_toOption checked
  simp only [Option.some.injEq, Prod.mk.injEq] at holds
  obtain ⟨constructs, annotates⟩ := holds
  have own := (typing_of_ofTree compiled).1
  have regular : Regular compilation.index compilation.root := by
    rw [own]
    refine regular_of_absent fun node mem => ?_
    rw [preorder_mixedRecords] at mem
    simp only [List.mem_cons, List.not_mem_nil, or_false] at mem
    rcases mem with rfl | rfl | rfl | rfl | rfl | rfl | rfl <;>
      exact ⟨nofun, nofun⟩
  have line : compilation.environment.declaration? 6 = some (emptyRecord 2 "Line") :=
    found_of_id compiled (by simp [preorder_mixedRecords]) constructs
  have point : compilation.environment.typeDeclaration? 4 = some (emptyRecord 1 "Point") :=
    found_of_id compiled (by simp [preorder_mixedRecords]) annotates
  have place : (none, mixedVariable) ∈ reached none compilation.root := by
    rw [own]
    exact mem_reached_of_visited (self_mem_reached none mixedRecords) (by simp [mixedRecords,
      visited, passesOver, Node.children, Kind.children])
  have named (id : NodeId) (name : String) : declaredTypeName? (emptyRecord id name) = some name :=
    rfl
  obtain ⟨apart, reports⟩ := apart_of_names compiled regular (named 2 "Line") (named 1 "Point")
    (by decide)
  exact ⟨compilation, _, compiled, reports none mixedVariable _ _ place .initializer
    (.constructed (.inl ⟨_, rfl⟩) line (.inl ⟨rfl, _, _, _, rfl⟩)) ⟨⟨_, _, rfl⟩, point⟩, apart⟩

/-- A variable that is annotated with the record of one namespace and holds a value of the record of
another. -/
def sameNamedVariable : Node :=
  .mk 5 (.variableDecl "x" (some (.mk 6 (.typeName "A.R" [])))
    (some (.mk 7 (.call (.mk 8 (.member (.mk 9 (.identifier "B")) "R")) []))))

/-- Two namespaces with a record of the same name each, and the variable. -/
def sameNamedRecords : Node :=
  .mk 0 (.program
    [.mk 1 (.namespaceDecl "A" [emptyRecord 2 "R"]),
      .mk 3 (.namespaceDecl "B" [emptyRecord 4 "R"]), sameNamedVariable])

/-- The records are different declarations, but their constructors build one type, and the value of
the one is accepted where the other is annotated. -/
theorem sameNamedRecords_accepted :
    ∃ compilation after, ofTree {} sameNamedRecords none {} = (.ok compilation, after) ∧
      compilation.names.values["A.R"]? = some 2 ∧ compilation.names.values["B.R"]? = some 4 ∧
      (∃ type, compilation.Builds (emptyRecord 2 "R") type ∧
        compilation.Builds (emptyRecord 4 "R") type) ∧
      (∃ value ascription, (none, sameNamedVariable) ∈ reached none compilation.root ∧
        Passes compilation.environment none sameNamedVariable value ascription ∧
        Yields compilation.environment compilation.root (emptyRecord 4 "R") value ∧
        Annotates compilation.environment ascription (emptyRecord 2 "R")) ∧
      compilation.unifier.errors = #[] := by
  have checked : ((ofTree {} sameNamedRecords none {}).1.toOption.bind fun compilation =>
      some (((compilation.environment.declaration? 8).map Node.id == some 4 &&
          (compilation.environment.typeDeclaration? 6).map Node.id == some 2) &&
        (compilation.names.values["A.R"]? == some 2 &&
          compilation.names.values["B.R"]? == some 4) &&
        (compilation.typing.declarations[2]? == some (.function [] (.named "R")) &&
          compilation.typing.declarations[4]? == some (.function [] (.named "R"))) &&
        compilation.unifier.errors.isEmpty)) = some true := by
    decide +kernel
  obtain ⟨compilation, compiled, holds⟩ := compiled_of_toOption checked
  simp only [Option.some.injEq, Bool.and_eq_true, beq_iff_eq, Array.isEmpty_iff] at holds
  obtain ⟨⟨⟨⟨constructs, annotates⟩, first, second⟩, typed, typed'⟩, accepted⟩ := holds
  have own := (typing_of_ofTree compiled).1
  have preorder : sameNamedRecords.preorder =
      [sameNamedRecords, .mk 1 (.namespaceDecl "A" [emptyRecord 2 "R"]), emptyRecord 2 "R",
        .mk 3 (.namespaceDecl "B" [emptyRecord 4 "R"]), emptyRecord 4 "R", sameNamedVariable,
        .mk 6 (.typeName "A.R" []),
        .mk 7 (.call (.mk 8 (.member (.mk 9 (.identifier "B")) "R")) []),
        .mk 8 (.member (.mk 9 (.identifier "B")) "R"), .mk 9 (.identifier "B")] := by cbv
  have builds {id : NodeId} (inside : emptyRecord id "R" ∈ sameNamedRecords.preorder)
      (stored : compilation.typing.declarations[id]? = some (.function [] (.named "R"))) :
      compilation.Builds (emptyRecord id "R") (.named "R") :=
    ⟨_, own.symm ▸ inside, .inl ⟨rfl, _, _, _, rfl⟩, [], _, stored, fun _ => none, by simp⟩
  have inA : emptyRecord 2 "R" ∈ sameNamedRecords.preorder := by simp [preorder]
  have inB : emptyRecord 4 "R" ∈ sameNamedRecords.preorder := by simp [preorder]
  have place : (none, sameNamedVariable) ∈ reached none compilation.root := by
    rw [own]
    exact mem_reached_of_visited (self_mem_reached none sameNamedRecords) (by simp
      [sameNamedRecords, visited, passesOver, Node.children, Kind.children])
  have constructor_ : compilation.environment.declaration? 8 = some (emptyRecord 4 "R") :=
    found_of_id compiled inB constructs
  have annotation : compilation.environment.typeDeclaration? 6 = some (emptyRecord 2 "R") :=
    found_of_id compiled inA annotates
  exact ⟨compilation, _, compiled, first, second, ⟨_, builds inA typed, builds inB typed'⟩,
    ⟨_, _, place, .initializer, .constructed (.inr ⟨_, _, rfl⟩) constructor_
      (.inl ⟨rfl, _, _, _, rfl⟩), ⟨⟨_, _, rfl⟩, annotation⟩⟩, accepted⟩

end Compilation

end DeclLang
