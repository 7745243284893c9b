import DeclLang.Proofs.FittingValues
import DeclLang.Proofs.ReferringNodes
import DeclLang.Proofs.Reordering

/-!
# Disciplined programs

What the types of a program do not watch over, and programs that take care of it themselves.

**Input.**  A compiled program.

**Judgment.**  `Compilation.Disciplined`: operands are expressions, and every node takes the care
that belongs to its kind (`Compilation.Heeds`).
* A native function is declared without defaults, with the types that it takes and gives.
* Any other function is not generic: a generic parameter is a name without a scope, and two of them
  with the same name are the same type.
* It returns a value if its result is of a type that is looked into: types do not see that a body can
  end without a `return`.
* Only the constructor of a type that the language gives no meaning to is referred to: a record or
  an enumeration with a name like `Boolean` would be taken for that type.
* Labels and placeholders are written where the callee refers to the declaration whose slots they
  are meant for: native functions and function values in variables do not look at names.
* Only variables and parameters are assigned.

**Results.**  `Compilation.checked_of_ofTree`: what is known of a disciplined program that compiles
without a type error.
-/

namespace DeclLang

open Inference (reached isTyped isPolymorphic Regular Plain Linked Suitable IsReference)

namespace Node

def isExpression (node : Node) : Bool :=
  match node.kind with
  | .identifier _ | .member .. | .call .. | .argument .. | .placeholder | .binary ..
  | .assignment .. | .literal _ | .array _ => true
  | _ => false

/-- Whether values of a type are made of the declaration. -/
def isConstructor (node : Node) : Bool :=
  match node.kind with
  | .recordDecl .. | .enumerationCase .. => true
  | _ => false

/-- Whether the declaration holds a value that can be replaced. -/
def holdsValue (node : Node) : Bool :=
  match node.kind with
  | .parameter .. | .variableDecl .. => true
  | _ => false

def isReturn (node : Node) : Bool :=
  match node.kind with
  | .returnStatement _ => true
  | _ => false

/-- Whether the argument has neither a label nor a placeholder. -/
def isPlainArgument (node : Node) : Bool :=
  let written := Registration.labeledExpression node
  written.1.isNone && !Registration.isPlaceholder written.2

theorem mem_visited_of_mem_operands {node operand : Node} (mem : operand ∈ node.operands) :
    operand ∈ Inference.visited node := by
  obtain ⟨id, kind⟩ := node
  cases kind with
  | parameter name type default? => exact List.mem_cons_of_mem _ mem
  | variableDecl name type? initializer? => exact List.mem_append_right _ mem
  | branch condition block | loop condition block =>
    exact List.mem_cons.2 (.inl (List.mem_singleton.1 mem))
  | returnStatement | call | expressionStatement | argument | binary | assignment | array =>
    exact mem
  | _ => cases mem

variable {node : Node} (expression : node.isExpression = true)

include expression

theorem isTyped_of_isExpression : isTyped node = true := by
  obtain ⟨id, kind⟩ := node
  cases kind <;> first | rfl | cases expression

theorem declaredName?_of_isExpression : node.declaredName? = none := by
  obtain ⟨id, kind⟩ := node
  cases kind <;> first | rfl | cases expression

theorem isPolymorphic_of_isExpression : isPolymorphic node = false := by
  obtain ⟨id, kind⟩ := node
  cases kind <;> first | rfl | cases expression

theorem holdsValue_of_isExpression : node.holdsValue = false := by
  obtain ⟨id, kind⟩ := node
  cases kind <;> first | rfl | cases expression

omit expression

theorem isPolymorphic_of_holdsValue (holds : node.holdsValue = true) :
    isPolymorphic node = false := by
  obtain ⟨id, kind⟩ := node
  cases kind <;> first | rfl | cases holds

theorem isExpression_of_isReference (isReference : IsReference node) :
    node.isExpression = true := by
  rcases isReference with ⟨_, kind⟩ | ⟨_, _, kind⟩ <;> rw [isExpression, kind]

theorem not_isReference_mk {id : NodeId} {kind : Kind Node}
    (other : (kind matches .identifier _ | .member ..) = false) : ¬IsReference (.mk id kind) := by
  rintro (⟨_, same⟩ | ⟨_, _, same⟩) <;> cases same <;> cases other

end Node

namespace Compilation

variable (compilation : Compilation)

/-- The path of the native function that a declaration stands for. -/
def native? (declaration : Node) : Option String :=
  match (compilation.context.value? declaration.id).map Value.content with
  | some (.builtin path) => some path
  | _ => none

/-- What a function or a constructor takes and gives, before types are solved. -/
def signature? (declaration : Node) : Option (List StaticType × StaticType) :=
  match compilation.typing.declarations[declaration.id]? with
  | some (.function received result) => some (received.map Prod.snd, result)
  | _ => none

/-- The node takes care of what types do not watch over at nodes of its kind. -/
def Heeds (node : Node) : Prop :=
  match node.kind with
  | .functionDecl _ _ parameters _ body =>
    (∀ parameter ∈ parameters, parameter.IsParameter) ∧
      match compilation.native? node with
      | some path => (∀ parameter ∈ Call.parametersOf node, parameter.2 = false) ∧
        ∀ signature ∈ compilation.signature? node, Builtin.Takes path signature.1 signature.2
      | none => ∀ signature ∈ compilation.signature? node,
        (∀ type ∈ signature.2 :: signature.1, type.generics = []) ∧
          (signature.2.isNominal = true ∨ ∃ statement ∈ body, statement.isReturn = true)
  | .enumerationCase .. => ∀ parent ∈ compilation.index.parent? node.id, parent.IsEnumeration
  | .identifier _ | .member .. =>
    ∀ declaration ∈ compilation.environment.declaration? node.id,
      declaration.isConstructor = true →
        ∀ signature ∈ compilation.signature? declaration, signature.2.isNominal = true
  | .call callee arguments =>
    (∃ declaration ∈ compilation.environment.declaration? callee.id,
      isPolymorphic declaration = true ∧ compilation.native? declaration = none) ∨
      ∀ argument ∈ arguments, argument.isPlainArgument = true
  | .assignment target _ =>
    ∀ declaration ∈ compilation.environment.declaration? target.id,
      declaration.holdsValue = true
  | _ => True

/-- The program takes care of what its types do not watch over. -/
structure Disciplined : Prop where
  operands : ∀ node ∈ compilation.root.preorder, ∀ operand ∈ node.operands,
    operand.isExpression = true
  heeds : ∀ node ∈ compilation.root.preorder, compilation.Heeds node

section Decidable

instance (node : Node) : Decidable node.IsEnumeration :=
  node.decidableOfKind (· matches .enumerationDecl ..) fun _ kind => by
    cases kind <;> simp [Node.IsEnumeration]

instance (node : Node) : Decidable (compilation.Heeds node) :=
  match node with
  | .mk id (.functionDecl name generics parameters returnType body) =>
    @instDecidableAnd _ _ _
      (match compilation.native? (.mk id (.functionDecl name generics parameters returnType body)) with
      | some _ => inferInstanceAs (Decidable (_ ∧ _))
      | none => inferInstanceAs (Decidable (∀ signature ∈ _, _ ∧ _)))
  | .mk id (.enumerationCase ..) =>
    inferInstanceAs (Decidable (∀ parent ∈ compilation.index.parent? id, parent.IsEnumeration))
  | .mk _ (.identifier _) | .mk _ (.member ..) =>
    inferInstanceAs (Decidable (∀ declaration ∈ compilation.environment.declaration? _,
      declaration.isConstructor = true → _))
  | .mk _ (.call ..) => inferInstanceAs (Decidable (_ ∨ _))
  | .mk _ (.assignment ..) =>
    inferInstanceAs (Decidable (∀ declaration ∈ _, Node.holdsValue declaration = true))
  | .mk _ (.program _) | .mk _ (.namespaceDecl ..) | .mk _ (.importDecl _) | .mk _ (.parameter ..)
  | .mk _ (.genericParameter _) | .mk _ (.recordDecl ..) | .mk _ (.enumerationDecl ..)
  | .mk _ (.variableDecl ..) | .mk _ (.branch ..) | .mk _ (.loop ..) | .mk _ (.returnStatement _)
  | .mk _ (.expressionStatement _) | .mk _ (.argument ..) | .mk _ .placeholder | .mk _ (.binary ..)
  | .mk _ (.literal _) | .mk _ (.array _) | .mk _ (.typeName ..) | .mk _ (.functionType ..) =>
    .isTrue trivial

instance : Decidable compilation.Disciplined :=
  decidable_of_iff (_ ∧ _) ⟨fun h => ⟨h.1, h.2⟩, fun h => ⟨h.operands, h.heeds⟩⟩

end Decidable

/-- Types are the same if they are solved to the same type. -/
def judgment : Judgment where
  environment := compilation.environment
  typing := compilation.typing
  same s t := compilation.erased s = compilation.erased t

/-- What is known of a disciplined program that compiles without a type error. -/
structure Checked : Prop where
  consistent : compilation.Consistent
  built : NodeIndex.build compilation.root = .ok compilation.index
  disciplined : compilation.Disciplined
  rules : ∀ place ∈ reached none compilation.root, isTyped place.2 = true →
    ∃ own, compilation.typing.nodes[place.2.id]? = some own ∧
      compilation.judgment.Rule place.1 place.2 own
  suitable : Suitable compilation.environment compilation.root compilation.typing.declarations
  linked : Linked compilation.root compilation.typing.declarations
  references : ∀ node ∈ compilation.root.preorder, ∀ declaration,
    compilation.environment.declaration? node.id = some declaration → IsReference node

variable {compilation}

theorem Disciplined.regular (disciplined : compilation.Disciplined) :
    Regular compilation.index compilation.root where
  parameters node mem name generics parameters result body kind := by
    have heeds := disciplined.heeds node mem
    rw [Heeds, kind] at heeds
    exact heeds.1
  cases node mem name values kind parent above := by
    have heeds := disciplined.heeds node mem
    rw [Heeds, kind] at heeds
    exact heeds parent above

section Disciplined

variable (disciplined : compilation.Disciplined) {node : Node}
  (inside : node ∈ compilation.root.preorder)

include disciplined inside

/-- A native function is declared without defaults, with the types that it takes and gives. -/
theorem Disciplined.native (function : node.IsFunction) {path : String}
    (native : compilation.native? node = some path) :
    (∀ parameter ∈ Call.parametersOf node, parameter.2 = false) ∧
      ∀ signature ∈ compilation.signature? node, Builtin.Takes path signature.1 signature.2 := by
  obtain ⟨name, generics, parameters, returnType, body, kind⟩ := function
  have heeds := disciplined.heeds node inside
  rw [Heeds, kind] at heeds
  have care := heeds.2
  rwa [native] at care

/-- Any other function is not generic, and returns a value if types look into its result. -/
theorem Disciplined.foreign (function : node.IsFunction)
    (foreign : compilation.native? node = none) {signature : List StaticType × StaticType}
    (signed : compilation.signature? node = some signature) :
    (∀ type ∈ signature.2 :: signature.1, type.generics = []) ∧
      (signature.2.isNominal = true ∨
        ∃ statement ∈ Call.bodyOf node, statement.isReturn = true) := by
  obtain ⟨name, generics, parameters, returnType, body, kind⟩ := function
  have heeds := disciplined.heeds node inside
  rw [Heeds, kind] at heeds
  have care := heeds.2
  rw [foreign] at care
  rw [Call.bodyOf, kind]
  exact care signature signed

theorem Disciplined.constructor (isReference : IsReference node) {declaration : Node}
    (refers : compilation.environment.declaration? node.id = some declaration)
    (constructs : declaration.isConstructor = true) {signature : List StaticType × StaticType}
    (signed : compilation.signature? declaration = some signature) :
    signature.2.isNominal = true := by
  have heeds := disciplined.heeds node inside
  rcases isReference with ⟨_, kind⟩ | ⟨_, _, kind⟩ <;> rw [Heeds, kind] at heeds <;>
    exact heeds declaration refers constructs signature signed

theorem Disciplined.call {callee : Node} {arguments : List Node}
    (kind : node.kind = .call callee arguments) :
    (∃ declaration, compilation.environment.declaration? callee.id = some declaration ∧
      isPolymorphic declaration = true ∧ compilation.native? declaration = none) ∨
      ∀ argument ∈ arguments, argument.isPlainArgument = true := by
  have heeds := disciplined.heeds node inside
  rw [Heeds, kind] at heeds
  exact heeds

theorem Disciplined.assignment {target value declaration : Node}
    (kind : node.kind = .assignment target value)
    (refers : compilation.environment.declaration? target.id = some declaration) :
    declaration.holdsValue = true := by
  have heeds := disciplined.heeds node inside
  rw [Heeds, kind] at heeds
  exact heeds declaration refers

end Disciplined

/-- Disciplined programs that compile without a type error. -/
theorem checked_of_ofTree {options : Options} {root : Node} {focus : Option NodeId}
    {before after : Reports} (compiled : ofTree options root focus before = (.ok compilation, after))
    (accepted : compilation.unifier.errors = #[]) (disciplined : compilation.Disciplined) :
    compilation.Checked := by
  have regular := disciplined.regular
  have consistent := consistent_of_ofTree compiled
  obtain ⟨-, built, supply, inferred⟩ := typing_of_ofTree compiled
  have judgment : compilation.typing.solvedJudgment compilation.environment =
      compilation.judgment := by
    unfold Typing.solvedJudgment Compilation.judgment StaticType.Agrees erased
    rw [solution_of_ofTree compiled, unifier_of_ofTree compiled]
  have plain : Plain compilation.index compilation.root :=
    { parameters := fun node mem name generics parameters result body kind parameter among => by
        obtain ⟨_, _, _, own⟩ := regular.parameters node mem name generics parameters result body
          kind parameter among
        rintro ⟨_, _, _, _, _, other⟩
        rw [own] at other
        cases other
      cases := fun node mem name values kind parent above => by
        obtain ⟨_, _, _, own⟩ := regular.cases node mem name values kind parent above
        rintro ⟨_, _, _, _, _, other⟩
        rw [own] at other
        cases other }
  exact
    { consistent
      built
      disciplined
      rules := fun place mem typed => judgment ▸ rules_of_ofTree compiled accepted mem typed
      suitable := suitable_of_ofTree compiled regular
      linked := by
        rw [inferred]
        exact Typing.linked_infer consistent.distinct built plain compilation.scope supply
      references := fun node mem declaration refers =>
        isReference_of_declaration compiled mem refers }

end Compilation

end DeclLang
