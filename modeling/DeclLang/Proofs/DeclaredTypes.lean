import DeclLang.Proofs.ParameterTypes

/-!
# The types of declarations and of their parts

The type of a function is put together from those of its parameters, the type of a record from those
of its fields, and the type of an enumeration case leads to the enumeration around it.

**Input.**  A tree with distinct identities, in which the types of the parts of declarations do not
lead on: for example one in which the parameters of functions are parameters and enumeration cases
belong to enumerations.

**Invariant.**  `Inference.Suitable`: every type that is stored for a declaration has the shape that
the declaration is written with, and so have the types that it is put together from
(`Inference.Composed`).

**Results.**  `Typing.suitable_infer`: the invariant holds after inference.
-/

namespace DeclLang

namespace Inference

/-- Whether the type of the node is put together from types of other declarations. -/
def isComposed (node : Node) : Bool :=
  match node.kind with
  | .functionDecl .. | .recordDecl .. | .enumerationCase .. => true
  | _ => false

/-- The types of the parts of declarations do not lead on. -/
def Shallow (index : NodeIndex) (root : Node) : Prop :=
  ∀ node ∈ root.preorder, ∀ part ∈ typedParts index node,
    part ∈ root.preorder ∧ isComposed part = false

/-- The types of the parts of a declaration are declared as the parts are. -/
def Composed (environment : Environment) (node : Node) (type : StaticType) : Prop :=
  match node.kind with
  | .functionDecl .. | .recordDecl .. => ∃ received result, type = .function received result ∧
    List.Forall₂ (fun part slot => DeclaredAs environment part slot.2)
      (typedParts environment.index node) received
  | .enumerationCase .. => ∃ received result, type = .function received result ∧
    ∀ parent ∈ typedParts environment.index node, DeclaredAs environment parent result
  | _ => True

/-- Declarations and their parts have the types that they are declared with. -/
def Suitable (environment : Environment) (root : Node)
    (declarations : Std.TreeMap NodeId StaticType) : Prop :=
  ∀ node ∈ root.preorder, ∀ type, declarations[node.id]? = some type →
    DeclaredAs environment node type ∧ Composed environment node type

variable {environment : Environment} {root : Node}

theorem Keeps.inv {holds : Std.TreeMap NodeId StaticType → Prop} {α : Type} {step : Infer α}
    {before after : State} {a : α} (keeps : Keeps holds step)
    (start : holds before.typing.declarations) (ran : step before = (a, after)) :
    holds after.typing.declarations := by
  have kept := keeps before start
  rwa [ran] at kept

/-- The type of a declaration is stored already, or it is written down and stored. -/
theorem declarationType_cases {steps : Nat} {node : Node} {before after : State}
    {type : StaticType} (h : declarationType environment (steps + 1) node before = (type, after)) :
    (before.typing.declarations[node.id]? = some type ∧ after = before) ∨
      ∃ middle, writtenType environment steps node before = (type, middle) ∧
        setDeclarationType node.id type middle = ((), after) := by
  rw [declarationType_succ] at h
  obtain ⟨state, middle, got, h⟩ := bind_inv h
  cases got
  cases stored : before.typing.declarations[node.id]? with
  | some known =>
    rw [stored] at h
    cases h
    exact .inl ⟨rfl, rfl⟩
  | none =>
    rw [stored] at h
    obtain ⟨own, middle, written, h⟩ := bind_inv h
    obtain ⟨done, last, set, h⟩ := bind_inv h
    cases h
    exact .inr ⟨middle, written, set⟩

section Declarations

variable (built : NodeIndex.build root = .ok environment.index) (distinct : root.Distinct)

include built in
/-- A type that was worked out has the shape that its declaration is written with. -/
theorem declaredAs_of_declarationType {steps : Nat} {node : Node} (inside : node ∈ root.preorder)
    {before after : State} {type : StaticType}
    (kept : Suitable environment root after.typing.declarations)
    (h : declarationType environment (steps + 1) node before = (type, after)) :
    DeclaredAs environment node type := by
  have grown : Extends environment root [] [] before after ∧ _ := declarationType_inv built inside h
  exact (kept node inside type (grown.2 (Nat.succ_pos _))).1

include distinct in
/-- Storing a type keeps what holds of all stored types if it holds of the new one. -/
theorem keeps_setDeclarationType_of {good : Node → StaticType → Prop} {node : Node}
    (inside : node ∈ root.preorder) {type : StaticType} (fits : good node type) :
    Keeps (fun declarations => ∀ other ∈ root.preorder, ∀ found,
      declarations[other.id]? = some found → good other found)
      (setDeclarationType node.id type) := by
  intro state holds other mem found h
  have stored : (state.typing.declarations.insert node.id type)[other.id]? = some found := h
  rw [Std.TreeMap.getElem?_insert] at stored
  split at stored
  · rename_i same
    rw [Nat.compare_eq_eq] at same
    obtain rfl := Node.eq_of_id_eq distinct inside mem same
    obtain rfl := Option.some.inj stored
    exact fits
  · exact holds other mem found stored

include distinct in
/-- Storing a type keeps the invariant if the type is what the declaration and its parts are
declared with. -/
theorem suitable_setDeclarationType {node : Node} (inside : node ∈ root.preorder)
    {type : StaticType} (declared : DeclaredAs environment node type)
    (composed : Composed environment node type) :
    Keeps (Suitable environment root) (setDeclarationType node.id type) :=
  keeps_setDeclarationType_of distinct inside ⟨declared, composed⟩

include built distinct in
/-- Working out the type of a declaration keeps the invariant if writing the type down does. -/
theorem suitable_of_writtenType {steps : Nat} {node : Node} (inside : node ∈ root.preorder)
    (writes : ∀ before type after, Suitable environment root before.typing.declarations →
      writtenType environment steps node before = (type, after) →
        Suitable environment root after.typing.declarations ∧ Composed environment node type) :
    Keeps (Suitable environment root) (declarationType environment (steps + 1) node) := by
  intro before holds
  cases h : declarationType environment (steps + 1) node before with
  | mk type after =>
    rcases declarationType_cases h with ⟨-, rfl⟩ | ⟨middle, written, set⟩
    · exact holds
    · obtain ⟨kept, composed⟩ := writes before type middle holds written
      have shape : Extends environment root [] [] before middle ∧ _ := writtenType_inv built inside
        (fun part mem _ _ _ h => (declarationType_inv built mem h).1) written
      exact (suitable_setDeclarationType distinct inside shape.2 composed).inv kept set

include built distinct in
/-- The types of other declarations do not lead on. -/
theorem suitable_simple (steps : Nat) {node : Node} (inside : node ∈ root.preorder)
    (simple : isComposed node = false) :
    Keeps (Suitable environment root) (declarationType environment steps node) := by
  cases steps with
  | zero =>
    rw [declarationType]
    exact Keeps.bind (keeps_modify fun _ => rfl) fun _ => keeps_fresh
  | succ steps =>
    refine suitable_of_writtenType built distinct inside fun before type after holds written => ?_
    have keeps : Keeps (Suitable environment root) (writtenType environment steps node) := by
      obtain ⟨id, kind⟩ := node
      cases kind with
      | functionDecl | recordDecl | enumerationCase => cases simple
      | parameter => exact keeps_annotationType _ _
      | variableDecl name ascription? =>
        cases ascription? with
        | some ascription => exact keeps_annotationType _ _
        | none => exact keeps_fresh
      | enumerationDecl | genericParameter => exact keeps_pure _
      | _ => exact keeps_fresh
    refine ⟨keeps.inv holds written, ?_⟩
    unfold Composed isComposed at *
    split <;> simp_all

include built in
/-- The parts of a declaration are in the tree, and do not lead on. -/
theorem Regular.shallow (regular : Regular environment.index root) :
    Shallow environment.index root := by
  intro node inside part mem
  refine ⟨mem_preorder_of_mem_typedParts built inside mem, ?_⟩
  obtain ⟨id, kind⟩ := node
  cases kind with
  | functionDecl name generics parameters result body =>
    obtain ⟨_, _, _, kind⟩ := regular.parameters _ inside name generics parameters result body rfl
      part mem
    rw [isComposed, kind]
  | recordDecl name generics declarations =>
    have slot := (List.mem_filter.1 mem).2
    obtain ⟨_, kind⟩ := part
    cases kind <;> first | rfl | cases slot
  | enumerationCase name values =>
    obtain ⟨_, _, _, kind⟩ := regular.cases _ inside name values rfl part (Option.mem_toList.1 mem)
    rw [isComposed, kind]
  | _ => cases mem

include built distinct in
/-- Working out the types of parts keeps the invariant, and every part gets the type that it is
declared with. -/
theorem suitable_labeledTypes {steps : Nat} {parts : List Node}
    (simple : ∀ part ∈ parts, part ∈ root.preorder ∧ isComposed part = false)
    {before after : State} {typed : List (Option String × StaticType)}
    (holds : Suitable environment root before.typing.declarations)
    (h : labeledTypes environment (steps + 1) parts before = (typed, after)) :
    Suitable environment root after.typing.declarations ∧
      List.Forall₂ (fun part slot => DeclaredAs environment part slot.2) parts typed := by
  unfold labeledTypes at h
  induction parts generalizing before typed with
  | nil =>
    cases h
    exact ⟨holds, .nil⟩
  | cons part parts ih =>
    rw [List.mapM_cons] at h
    obtain ⟨labeled, middle, first, h⟩ := bind_inv h
    obtain ⟨type, _, found, first⟩ := bind_inv first
    cases first
    obtain ⟨others, last, rest, h⟩ := bind_inv h
    cases h
    obtain ⟨inside, alone⟩ := simple part List.mem_cons_self
    have kept := (suitable_simple built distinct (steps + 1) inside alone).inv holds found
    obtain ⟨keptRest, declared⟩ :=
      ih (fun other mem => simple other (List.mem_cons_of_mem _ mem)) kept rest
    exact ⟨keptRest, .cons (declaredAs_of_declarationType built inside kept found) declared⟩

variable (shallow : Shallow environment.index root)

include built distinct shallow

/-- Writing down a type that is put together keeps the invariant. -/
theorem suitable_writtenType {steps : Nat} {node : Node} (inside : node ∈ root.preorder)
    (composed : isComposed node = true) {before after : State} {type : StaticType}
    (holds : Suitable environment root before.typing.declarations)
    (h : writtenType environment (steps + 1) node before = (type, after)) :
    Suitable environment root after.typing.declarations ∧ Composed environment node type := by
  have simple := shallow node inside
  obtain ⟨id, kind⟩ := node
  cases kind with
  | functionDecl name generics parameters result body =>
    obtain ⟨received, middle, receives, h⟩ := bind_inv h
    obtain ⟨returned, _, annotated, h⟩ := bind_inv h
    cases h
    obtain ⟨kept, declared⟩ := suitable_labeledTypes built distinct simple holds receives
    exact ⟨(keeps_annotationType _ _).inv kept annotated, received, returned, rfl, declared⟩
  | recordDecl name generics declarations =>
    obtain ⟨fields, middle, typed, h⟩ := bind_inv h
    cases h
    obtain ⟨kept, declared⟩ := suitable_labeledTypes built distinct simple holds typed
    exact ⟨kept, fields, _, rfl, declared⟩
  | enumerationCase name values =>
    obtain ⟨enumeration, middle, around, h⟩ := bind_inv h
    obtain ⟨received, _, written, h⟩ := bind_inv h
    cases h
    have valuesKeep : Keeps (Suitable environment root) (values.mapM fun value => do
        return ((none : Option String), ← annotationType environment value)) :=
      keeps_mapM fun value _ => (keeps_annotationType environment value).bind fun _ =>
        keeps_pure _
    cases found : environment.index.parent? id with
    | none =>
      simp only [Node.id_mk, found] at around
      refine ⟨valuesKeep.inv (keeps_fresh.inv holds around) written, received, enumeration, rfl, ?_⟩
      simp [typedParts, found]
    | some parent =>
      simp only [Node.id_mk, found] at around
      obtain ⟨above, alone⟩ := simple parent (by simp [typedParts, found])
      have kept := (suitable_simple built distinct (steps + 1) above alone).inv holds around
      refine ⟨valuesKeep.inv kept written, received, enumeration, rfl, ?_⟩
      have declared := declaredAs_of_declarationType built above kept around
      simpa [typedParts, found] using declared
  | _ => cases composed

theorem suitable_typeOfDeclaration {node : Node} (inside : node ∈ root.preorder) :
    Keeps (Suitable environment root) (typeOfDeclaration environment node) := by
  have positive := size_ne_zero built
  obtain ⟨steps, twice⟩ : ∃ steps, 2 * environment.index.size + 1 = steps + 2 :=
    ⟨2 * environment.index.size - 1, by omega⟩
  unfold typeOfDeclaration
  rw [twice]
  cases composed : isComposed node with
  | false => exact suitable_simple built distinct _ inside composed
  | true =>
    exact suitable_of_writtenType built distinct inside fun _ _ _ holds written =>
      suitable_writtenType built distinct shallow inside composed holds written

end Declarations

end Inference

open Inference

/-- Declarations and their parts have the types that they are declared with. -/
theorem Typing.suitable_infer_of_shallow {root : Node} {index : NodeIndex}
    (distinct : root.Distinct) (built : NodeIndex.build root = .ok index)
    (shallow : Shallow index root) (scope : Scope) (supply : VariableSupply) :
    Suitable { scope, index } root (Typing.infer root scope index supply).declarations := by
  have declares (node : Node) (inside : node ∈ root.preorder) :=
    @suitable_typeOfDeclaration { scope, index } root built distinct shallow node inside
  exact collect_keeps
    (fun state : State => Suitable { scope, index } root state.typing.declarations)
    (enter_descends { scope, index }) (enter_within { scope, index })
    (fun _ (mem : _ ∈ reached none root) state holds =>
      keeps_enter declares (mem_preorder_of_mem_reached mem) state holds)
    (fun _ mem state holds =>
      keeps_leave declares built (mem_preorder_of_mem_reached mem) state holds)
    (fun _ _ _ found => by cases found)

theorem Typing.suitable_infer {root : Node} {index : NodeIndex} (distinct : root.Distinct)
    (built : NodeIndex.build root = .ok index) (regular : Regular index root) (scope : Scope)
    (supply : VariableSupply) :
    Suitable { scope, index } root (Typing.infer root scope index supply).declarations :=
  suitable_infer_of_shallow distinct built
    (@Regular.shallow { scope, index } root built regular) scope supply

end DeclLang
