import DeclLang.Proofs.Registered
import DeclLang.Proofs.TypingSoundness

/-!
# The types of functions and of their parameters

**Input.**  A tree with distinct identities, in which neither the parameters of functions nor what
enumeration cases belong to are functions.

**Invariant.**  `Inference.Linked`: the type that is stored for a function takes, parameter by
parameter, the types that are stored for its parameters.

**Results.**  `Typing.linked_infer`: the invariant holds after inference.
-/

namespace DeclLang

namespace Inference

/-- The declarations whose types the type of a declaration is put together from. -/
def typedParts (index : NodeIndex) (node : Node) : List Node :=
  match node.kind with
  | .functionDecl _ _ parameters .. => parameters
  | .recordDecl _ _ declarations => declarations.filter fun field => field.fieldSlot?.isSome
  | .enumerationCase .. => (index.parent? node.id).toList
  | _ => []

/-- What declarations stand where they belong. -/
structure Regular (index : NodeIndex) (root : Node) : Prop where
  parameters : ∀ node ∈ root.preorder, ∀ name generics parameters result body,
    node.kind = .functionDecl name generics parameters result body →
      ∀ parameter ∈ parameters, parameter.IsParameter
  cases : ∀ node ∈ root.preorder, ∀ name values, node.kind = .enumerationCase name values →
    ∀ parent, index.parent? node.id = some parent → parent.IsEnumeration

/-- The type of a declaration does not lead to functions. -/
structure Plain (index : NodeIndex) (root : Node) : Prop where
  parameters : ∀ node ∈ root.preorder, ∀ name generics parameters result body,
    node.kind = .functionDecl name generics parameters result body →
      ∀ parameter ∈ parameters, ¬parameter.IsFunction
  cases : ∀ node ∈ root.preorder, ∀ name values, node.kind = .enumerationCase name values →
    ∀ parent, index.parent? node.id = some parent → ¬parent.IsFunction

/-- The type of a function takes the types of its parameters. -/
def Linked (root : Node) (declarations : Std.TreeMap NodeId StaticType) : Prop :=
  ∀ node ∈ root.preorder, ∀ name generics parameters result body,
    node.kind = .functionDecl name generics parameters result body →
      ∀ type, declarations[node.id]? = some type → ∃ received returned,
        type = .function received returned ∧
          List.Forall₂ (fun (parameter : Node) slot =>
            declarations[parameter.id]? = some slot.2) parameters received

section Fresh

variable {environment : Environment} {holds : State → Prop}

theorem brings_each {α β : Type} {items : List α} {step : α → Infer β}
    (each : ∀ a ∈ items, Brings holds (step a) fun _ => True) :
    Brings holds (items.mapM step) fun _ => True :=
  (brings_mapM each).imp fun _ _ => trivial

variable (kept : Brings holds fresh fun _ => True)

include kept

/-- Working out what an annotation denotes keeps what taking fresh variables keeps. -/
theorem brings_annotationType_of_fresh (node : Node) :
    Brings holds (annotationType environment node) fun _ => True := by
  induction node using Node.children_induction with
  | step node ih =>
    obtain ⟨id, kind⟩ := node
    rw [annotationType_eq]
    cases kind with
    | typeName name arguments =>
      refine (brings_each ih).bind fun parameters _ => ?_
      split
      · exact brings_pure trivial
      · exact brings_pure trivial
      · exact brings_pure trivial
      · exact kept
      · exact brings_pure trivial
    | functionType arguments result =>
      have received : Brings holds (arguments.mapM fun argument => do
          return ((none : Option String), ← annotationType environment argument))
          fun _ => True :=
        brings_each fun argument mem =>
          (ih argument (List.mem_append_left _ mem)).bind fun _ _ => brings_pure trivial
      exact received.bind fun _ _ =>
        (ih result (List.mem_append_right _ (List.mem_singleton_self _))).bind fun _ _ =>
          brings_pure trivial
    | _ => exact kept

/-- Working out what a declaration is written with keeps what taking fresh variables and working out
the types of its parts keep. -/
theorem brings_writtenType_of_fresh {steps : Nat} {node : Node}
    (each : ∀ part ∈ typedParts environment.index node,
      Brings holds (declarationType environment steps part) fun _ => True) :
    Brings holds (writtenType environment steps node) fun _ => True := by
  have denoted (node : Node) : Brings holds (annotationType environment node) fun _ => True :=
    brings_annotationType_of_fresh kept node
  have parts : Brings holds (labeledTypes environment steps (typedParts environment.index node))
      fun _ => True :=
    brings_each fun part mem => (each part mem).bind fun _ _ => brings_pure trivial
  obtain ⟨id, kind⟩ := node
  cases kind with
  | functionDecl =>
    exact parts.bind fun _ _ => (denoted _).bind fun _ _ => brings_pure trivial
  | recordDecl => exact parts.bind fun _ _ => brings_pure trivial
  | enumerationCase name values =>
    have enumeration : Brings holds
        (((environment.index.parent? id).map (declarationType environment steps)).getD fresh)
        fun _ => True := by
      cases found : environment.index.parent? id with
      | none => exact kept
      | some parent => exact each parent (Option.mem_toList.2 found)
    have slots : Brings holds (values.mapM fun value => do
        return ((none : Option String), ← annotationType environment value))
        fun _ => True :=
      brings_each fun value _ => (denoted value).bind fun _ _ => brings_pure trivial
    exact enumeration.bind fun _ _ => slots.bind fun _ _ => brings_pure trivial
  | parameter => exact denoted _
  | variableDecl name ascription? =>
    cases ascription? with
    | some ascription => exact denoted _
    | none => exact kept
  | enumerationDecl | genericParameter => exact brings_pure trivial
  | _ => exact kept

end Fresh

section Keeps

/-- The step keeps a property of the types of declarations. -/
def Keeps {α : Type} (holds : Std.TreeMap NodeId StaticType → Prop) (step : Infer α) : Prop :=
  ∀ state : State, holds state.typing.declarations → holds (step state).2.typing.declarations

variable {α β : Type} {holds : Std.TreeMap NodeId StaticType → Prop}

theorem keeps_of_brings {step : Infer α} {gives : α → Prop}
    (h : Brings (fun state => holds state.typing.declarations) step gives) : Keeps holds step :=
  fun state kept => (h state kept).1

theorem Keeps.brings {step : Infer α} {gives : α → Prop} (keeps : Keeps holds step)
    (all : ∀ state, gives (step state).1) :
    Brings (fun state => holds state.typing.declarations) step gives :=
  fun state kept => ⟨keeps state kept, all state⟩

theorem keeps_pure (a : α) : Keeps holds (pure a : Infer α) :=
  fun _ kept => kept

theorem keeps_get : Keeps holds (get : Infer State) :=
  fun _ kept => kept

theorem keeps_modify {f : State → State}
    (same : ∀ state, (f state).typing.declarations = state.typing.declarations) :
    Keeps holds (modify f : Infer PUnit) := by
  intro state kept
  change holds (f state).typing.declarations
  rw [same]
  exact kept

theorem Keeps.bind {first : Infer α} {rest : α → Infer β} (h : Keeps holds first)
    (next : ∀ a, Keeps holds (rest a)) : Keeps holds (first >>= rest) :=
  fun state kept => next _ _ (h state kept)

theorem keeps_mapM {items : List α} {step : α → Infer β}
    (each : ∀ a ∈ items, Keeps holds (step a)) : Keeps holds (items.mapM step) :=
  keeps_of_brings (brings_each fun a mem => (each a mem).brings fun _ => trivial)

theorem keeps_forIn {items : List α} {body : α → PUnit → Infer (ForInStep PUnit)}
    (each : ∀ a ∈ items, Keeps holds (body a PUnit.unit)) :
    Keeps holds (forIn items PUnit.unit body) :=
  keeps_of_brings (brings_forIn fun a mem => (each a mem).brings fun _ => trivial)

theorem keeps_fresh : Keeps holds fresh :=
  fun _ kept => kept

theorem keeps_constrain (head tail : StaticType) (origin : NodeId) :
    Keeps holds (constrain head tail origin) :=
  keeps_modify fun _ => rfl

theorem keeps_setNodeType (id : NodeId) (type : StaticType) : Keeps holds (setNodeType id type) :=
  keeps_modify fun _ => rfl

theorem keeps_typeOf (node : Node) : Keeps holds (typeOf node) := by
  refine keeps_get.bind fun state => ?_
  split
  · exact keeps_pure _
  · exact keeps_fresh.bind fun type => (keeps_setNodeType _ _).bind fun _ => keeps_pure _

theorem keeps_freshFor (names : List String) : Keeps holds (freshFor names) := by
  induction names with
  | nil => exact keeps_pure _
  | cons name names ih => exact keeps_fresh.bind fun _ => ih.bind fun _ => keeps_pure _

variable (environment : Environment)

theorem keeps_annotationType (node : Node) : Keeps holds (annotationType environment node) :=
  keeps_of_brings (brings_annotationType_of_fresh (keeps_fresh.brings fun _ => trivial) node)

theorem keeps_arrayType (node : Node) (elements : List Node) :
    Keeps holds (arrayType node elements) :=
  keeps_fresh.bind fun _ => (keeps_forIn fun item _ => (keeps_typeOf item).bind fun _ =>
    (keeps_constrain _ _ _).bind fun _ => keeps_pure _).bind fun _ => keeps_pure _

theorem keeps_argumentSlots (received : List (Option String × Option Node)) :
    Keeps holds (argumentSlots received) := by
  induction received with
  | nil => exact keeps_pure _
  | cons entry received ih =>
    obtain ⟨label?, argument?⟩ := entry
    refine keeps_fresh.bind fun slot => ?_
    cases argument? with
    | none => exact (keeps_pure _).bind fun _ => ih.bind fun _ => keeps_pure _
    | some argument =>
      exact (keeps_typeOf argument).bind fun _ => (keeps_pure _).bind fun _ =>
        ih.bind fun _ => keeps_pure _

theorem keeps_callType (node callee : Node) (arguments : List Node) :
    Keeps holds (callType environment node callee arguments) := by
  refine keeps_fresh.bind fun result => (keeps_typeOf callee).bind fun type =>
    (keeps_argumentSlots _).bind fun received => ?_
  obtain ⟨slots, constraints⟩ := received
  refine (keeps_constrain _ _ _).bind fun _ => Keeps.bind ?_ fun _ => keeps_pure _
  exact keeps_forIn fun demand _ => (keeps_constrain _ _ _).bind fun _ => keeps_pure _

theorem keeps_binaryType (node : Node) (operator : Operator) (left right : Node) :
    Keeps holds (binaryType node operator left right) := by
  refine (keeps_typeOf left).bind fun _ => (keeps_typeOf right).bind fun _ => ?_
  split
  · exact (keeps_constrain _ _ _).bind fun _ => keeps_pure _
  · exact (keeps_constrain _ _ _).bind fun _ => keeps_pure _
  · exact (keeps_constrain _ _ _).bind fun _ => (keeps_constrain _ _ _).bind fun _ => keeps_pure _

section Tour

variable {environment} {root : Node} (declares : ∀ node ∈ root.preorder,
  Keeps holds (typeOfDeclaration environment node))
  (built : NodeIndex.build root = .ok environment.index)

include declares

theorem keeps_initializedType {node : Node} (inside : node ∈ root.preorder)
    (initializer? : Option Node) :
    Keeps holds (initializedType environment node initializer?) := by
  refine (declares node inside).bind fun _ => ?_
  split
  · exact (keeps_typeOf _).bind fun _ => (keeps_constrain _ _ _).bind fun _ => keeps_pure _
  · exact keeps_pure _

theorem keeps_enter {node : Node} (inside : node ∈ root.preorder) :
    Keeps holds (enter environment node) := by
  unfold enter
  split
  · have pushes (result : StaticType) : Keeps holds (do
        modify fun state => { state with returnTypes := result :: state.returnTypes }
        return .descend : Infer Direction) :=
      Keeps.bind (keeps_modify fun _ => rfl) fun _ => keeps_pure _
    refine (declares node inside).bind fun type => ?_
    split
    · exact pushes _
    · exact keeps_fresh.bind pushes
  · exact (declares node inside).bind fun _ => keeps_pure _
  · exact (declares node inside).bind fun _ => keeps_pure _
  · exact Keeps.bind (keeps_modify fun _ => rfl) fun _ => keeps_pure _
  · exact Keeps.bind (keeps_modify fun _ => rfl) fun _ => keeps_pure _
  all_goals exact keeps_pure _

include built

theorem keeps_referenceType (id : NodeId) : Keeps holds (referenceType environment id) := by
  unfold referenceType
  cases refers : environment.declaration? id with
  | none => exact keeps_fresh
  | some declaration =>
    obtain ⟨_, _, got⟩ := Option.bind_eq_some_iff.1 refers
    refine (declares declaration (NodeIndex.mem_of_get? built got).1).bind fun type => ?_
    split
    · exact (keeps_freshFor _).bind fun _ => keeps_pure _
    · exact keeps_pure _

omit built declares in
/-- What a function gives back is held against what is expected. -/
theorem keeps_returned (id : NodeId) (returned : StaticType) :
    Keeps holds (do
      if let some expected := (← get).returnTypes.head? then
        constrain expected returned id
      return some StaticType.unit : Infer (Option StaticType)) := by
  refine keeps_get.bind fun state => ?_
  split
  · exact (keeps_constrain _ _ _).bind fun _ => keeps_pure _
  · exact keeps_pure _

theorem keeps_leftType? {node : Node} (inside : node ∈ root.preorder) :
    Keeps holds (leftType? environment node) := by
  obtain ⟨id, kind⟩ := node
  cases kind with
  | array elements => exact (keeps_arrayType _ _).bind fun _ => keeps_pure _
  | identifier name => exact (keeps_referenceType declares built id).bind fun _ => keeps_pure _
  | member object name => exact (keeps_referenceType declares built id).bind fun _ => keeps_pure _
  | call callee arguments => exact (keeps_callType _ _ _ _).bind fun _ => keeps_pure _
  | argument label? expression => exact (keeps_typeOf _).bind fun _ => keeps_pure _
  | expressionStatement expression => exact (keeps_typeOf _).bind fun _ => keeps_pure _
  | placeholder => exact keeps_fresh.bind fun _ => keeps_pure _
  | binary operator left right => exact (keeps_binaryType _ _ _ _).bind fun _ => keeps_pure _
  | assignment target value =>
    exact (keeps_typeOf _).bind fun _ => (keeps_typeOf _).bind fun _ =>
      (keeps_constrain _ _ _).bind fun _ => keeps_pure _
  | functionDecl =>
    exact Keeps.bind (keeps_modify fun _ => rfl) fun _ =>
      (declares _ inside).bind fun _ => keeps_pure _
  | recordDecl | enumerationDecl | enumerationCase =>
    exact (declares _ inside).bind fun _ => keeps_pure _
  | variableDecl | parameter =>
    exact (keeps_initializedType declares inside _).bind fun _ => keeps_pure _
  | returnStatement expression? =>
    cases expression? with
    | none => exact (keeps_pure _).bind fun _ => keeps_returned id _
    | some expression => exact (keeps_typeOf expression).bind fun _ => keeps_returned id _
  | _ => exact keeps_pure _

theorem keeps_leave {node : Node} (inside : node ∈ root.preorder) :
    Keeps holds (leave environment node) := by
  refine (keeps_leftType? declares built inside).bind fun type? => ?_
  split
  · refine keeps_get.bind fun state => ?_
    split
    · exact Keeps.bind (keeps_modify fun _ => rfl) fun _ => (keeps_constrain _ _ _).bind fun _ =>
        keeps_setNodeType _ _
    · exact keeps_setNodeType _ _
  · exact keeps_pure _

end Tour

end Keeps

section Links

/-- The types of functions are as they were before. -/
def SameFunctions (root : Node) (before after : Std.TreeMap NodeId StaticType) : Prop :=
  ∀ node ∈ root.preorder, node.IsFunction → after[node.id]? = before[node.id]?

variable {environment : Environment} {root : Node}

/-- Parameters keep the types that they are linked to. -/
theorem Linked.grows {before after : Std.TreeMap NodeId StaticType} (linked : Linked root before)
    (kept : ∀ (id : NodeId) (type : StaticType), before[id]? = some type → after[id]? = some type)
    (same : SameFunctions root before after) : Linked root after := by
  intro node mem name generics parameters result body kind type found
  rw [same node mem ⟨_, _, _, _, _, kind⟩] at found
  obtain ⟨received, returned, shape, links⟩ :=
    linked node mem name generics parameters result body kind type found
  exact ⟨received, returned, shape, links.imp fun _ _ link => kept _ _ link⟩

variable (built : NodeIndex.build root = .ok environment.index) (distinct : root.Distinct)
  (plain : Plain environment.index root)

include distinct in
theorem keeps_setDeclarationType {node : Node} (inside : node ∈ root.preorder)
    (other : ¬node.IsFunction) (before : Std.TreeMap NodeId StaticType) (type : StaticType) :
    Keeps (SameFunctions root before) (setDeclarationType node.id type) := by
  intro state same function mem declares
  refine Eq.trans (Std.TreeMap.getElem?_insert (a := function.id)) ?_
  rw [if_neg, same function mem declares]
  intro equal
  rw [Nat.compare_eq_eq] at equal
  exact other (Node.eq_of_id_eq distinct inside mem equal ▸ declares)

/-- Writing down the type of a declaration keeps what working out the types of its parts keeps. -/
theorem keeps_writtenType {holds : Std.TreeMap NodeId StaticType → Prop} {steps : Nat} {node : Node}
    (each : ∀ part ∈ typedParts environment.index node,
      Keeps holds (declarationType environment steps part)) :
    Keeps holds (writtenType environment steps node) :=
  keeps_of_brings (brings_writtenType_of_fresh (keeps_fresh.brings fun _ => trivial)
    fun part mem => (each part mem).brings fun _ => trivial)

include built in
/-- The parts of a declaration are in the tree. -/
theorem mem_preorder_of_mem_typedParts {node part : Node} (inside : node ∈ root.preorder)
    (mem : part ∈ typedParts environment.index node) : part ∈ root.preorder := by
  have child (below : part ∈ node.children) : part ∈ root.preorder :=
    Node.mem_preorder_trans inside (Node.mem_preorder_of_mem_children below part.self_mem_preorder)
  obtain ⟨id, kind⟩ := node
  cases kind with
  | functionDecl name generics parameters =>
    have mem : part ∈ parameters := mem
    exact child (by simp [Node.children, Kind.children, mem])
  | recordDecl => exact child (List.mem_append_right _ (List.mem_filter.1 mem).1)
  | enumerationCase => exact NodeIndex.mem_of_parent? built (Option.mem_toList.1 mem)
  | _ => cases mem

include plain in
/-- The types of other declarations are not put together from types of functions. -/
theorem Plain.parts {node part : Node} (inside : node ∈ root.preorder) (other : ¬node.IsFunction)
    (mem : part ∈ typedParts environment.index node) : ¬part.IsFunction := by
  obtain ⟨id, kind⟩ := node
  cases kind with
  | functionDecl => exact absurd ⟨_, _, _, _, _, rfl⟩ other
  | recordDecl name generics declarations =>
    have slot := (List.mem_filter.1 mem).2
    rintro ⟨_, _, _, _, _, kind⟩
    rw [Node.fieldSlot?, kind] at slot
    cases slot
  | enumerationCase => exact plain.cases _ inside _ _ rfl part (Option.mem_toList.1 mem)
  | _ => cases mem

include built in
/-- The index of a tree is not empty. -/
theorem size_ne_zero : environment.index.size ≠ 0 := by
  intro empty
  have none : environment.index.nodes.isEmpty = true := by
    rw [Std.TreeMap.isEmpty_eq_size_eq_zero]
    exact beq_iff_eq.2 empty
  have absent := Std.TreeMap.getElem?_of_isEmpty none (a := root.id)
  have found := NodeIndex.get?_of_mem built root.self_mem_preorder
  rw [NodeIndex.get?, absent] at found
  cases found

include built distinct plain

/-- The type of another declaration is worked out without changing those of functions. -/
theorem keeps_declarationType (before : Std.TreeMap NodeId StaticType) {node : Node}
    (inside : node ∈ root.preorder) (other : ¬node.IsFunction) (steps : Nat) :
    Keeps (SameFunctions root before) (declarationType environment steps node) := by
  induction steps generalizing node with
  | zero =>
    rw [declarationType]
    exact Keeps.bind (keeps_modify fun _ => rfl) fun _ => keeps_fresh
  | succ steps ih =>
    rw [declarationType_succ]
    refine keeps_get.bind fun state => ?_
    split
    · exact keeps_pure _
    · refine (keeps_writtenType fun part mem => ih (mem_preorder_of_mem_typedParts built inside mem)
        (plain.parts inside other mem)).bind fun type => ?_
      exact (keeps_setDeclarationType distinct inside other before type).bind fun _ =>
        keeps_pure _

/-- Parameters are given types of their own. -/
theorem labeledTypes_links {steps : Nat} {parameters : List Node}
    (inside : ∀ parameter ∈ parameters, parameter ∈ root.preorder ∧ ¬parameter.IsFunction)
    {before after : State} {typed : List (Option String × StaticType)}
    (h : labeledTypes environment (steps + 1) parameters before = (typed, after)) :
    Extends environment root [] [] before after ∧
      SameFunctions root before.typing.declarations after.typing.declarations ∧
      List.Forall₂ (fun (parameter : Node) slot =>
        after.typing.declarations[parameter.id]? = some slot.2) parameters typed := by
  unfold labeledTypes at h
  induction parameters generalizing before typed with
  | nil =>
    cases h
    exact ⟨.refl, fun _ _ _ => rfl, .nil⟩
  | cons parameter parameters ih =>
    rw [List.mapM_cons] at h
    obtain ⟨labeled, middle, first, h⟩ := bind_inv h
    obtain ⟨type, _, found, first⟩ := bind_inv first
    cases first
    obtain ⟨others, last, rest, h⟩ := bind_inv h
    cases h
    obtain ⟨mem, other⟩ := inside parameter List.mem_cons_self
    obtain ⟨extends_, stored⟩ := declarationType_inv built mem found
    obtain ⟨extendsRest, sameRest, links⟩ :=
      ih (fun part mem => inside part (List.mem_cons_of_mem _ mem)) rest
    have same := keeps_declarationType built distinct plain before.typing.declarations mem other
      (steps + 1) before fun _ _ _ => rfl
    rw [found] at same
    refine ⟨extends_.trans extendsRest, fun node mem function => ?_, .cons ?_ links⟩
    · exact (sameRest node mem function).trans (same node mem function)
    · exact extendsRest.declarations _ _ (stored (Nat.succ_pos _))

/-- A function that is given a type is linked to its parameters. -/
theorem linked_declarationType {steps : Nat} {node : Node} (inside : node ∈ root.preorder)
    (declares : node.IsFunction) {before after : State} {type : StaticType}
    (linked : Linked root before.typing.declarations)
    (h : declarationType environment (steps + 2) node before = (type, after)) :
    Linked root after.typing.declarations := by
  rw [declarationType_succ] at h
  obtain ⟨state, middle, got, h⟩ := bind_inv h
  cases got
  cases missing : before.typing.declarations[node.id]? with
  | some known =>
    rw [missing] at h
    cases h
    exact linked
  | none =>
    rw [missing] at h
    obtain ⟨own, last, written, h⟩ := bind_inv h
    obtain ⟨_, _, set, h⟩ := bind_inv h
    cases set
    cases h
    obtain ⟨name, generics, parameters, result, body, kind⟩ := declares
    rw [writtenType, kind] at written
    obtain ⟨received, next, receives, written⟩ := bind_inv written
    obtain ⟨returned, _, annotated, written⟩ := bind_inv written
    cases written
    obtain ⟨extends_, same, links⟩ := labeledTypes_links built distinct plain
      (fun parameter mem => ⟨Node.mem_preorder_trans inside (Node.mem_preorder_of_mem_children
        (by simp [Node.children, kind, Kind.children, mem]) parameter.self_mem_preorder),
        plain.parameters node inside name generics parameters result body kind parameter mem⟩)
      receives
    have unchanged : last.typing.declarations = next.typing.declarations := by
      have kept := @keeps_annotationType (fun declarations =>
        declarations = next.typing.declarations) environment result next rfl
      rwa [annotated] at kept
    rw [← unchanged] at links same
    have kept (id : NodeId) (type : StaticType)
        (found : before.typing.declarations[id]? = some type) :
        last.typing.declarations[id]? = some type :=
      unchanged ▸ extends_.declarations id type found
    have other {id : NodeId} (different : id ≠ node.id) :
        (last.typing.declarations.insert node.id (.function received returned))[id]? =
          last.typing.declarations[id]? := by
      rw [Std.TreeMap.getElem?_insert, if_neg]
      rw [Nat.compare_eq_eq]
      exact different.symm
    intro function mem name' generics' parameters' result' body' kind' type found
    dsimp only at found ⊢
    by_cases own : function.id = node.id
    · obtain rfl := Node.eq_of_id_eq distinct mem inside own
      rw [Std.TreeMap.getElem?_insert_self] at found
      cases found
      cases kind.symm.trans kind'
      refine ⟨received, returned, rfl, forall₂_imp_of_mem links fun parameter mem slot link => ?_⟩
      have notFunction :=
        plain.parameters function inside name generics parameters result body kind parameter mem
      rw [other, link]
      intro same
      have equal := Node.eq_of_id_eq distinct (Node.mem_preorder_trans inside
        (Node.mem_preorder_of_mem_children (by simp [Node.children, kind, Kind.children, mem])
          parameter.self_mem_preorder)) inside same
      rw [equal] at notFunction
      exact notFunction ⟨_, _, _, _, _, kind⟩
    · rw [other own, same function mem ⟨_, _, _, _, _, kind'⟩] at found
      obtain ⟨received', returned', shape, links'⟩ :=
        linked function mem name' generics' parameters' result' body' kind' type found
      refine ⟨received', returned', shape, links'.imp fun parameter slot link => ?_⟩
      rw [other, kept _ _ link]
      intro same
      rw [same, missing] at link
      cases link

theorem keeps_typeOfDeclaration {node : Node} (inside : node ∈ root.preorder) :
    Keeps (Linked root) (typeOfDeclaration environment node) := by
  intro before linked
  have positive := size_ne_zero built
  obtain ⟨steps, twice⟩ : ∃ steps, 2 * environment.index.size + 1 = steps + 2 :=
    ⟨2 * environment.index.size - 1, by omega⟩
  unfold typeOfDeclaration
  rw [twice]
  by_cases declares : node.IsFunction
  · exact linked_declarationType built distinct plain inside declares linked rfl
  · have kept : Extends environment root [] [] before
      (declarationType environment (steps + 2) node before).2 ∧ _ :=
      declarationType_inv built inside rfl
    exact linked.grows kept.1.declarations
      (keeps_declarationType built distinct plain _ inside declares _ before fun _ _ _ => rfl)

end Links

end Inference

open Inference

/-- Inference only goes where it is typed. -/
theorem Inference.enter_within (environment : Environment) (node : Node) (state : State)
    (descends : (enter environment node state).1 = .descend) : passesOver node = false := by
  obtain ⟨id, kind⟩ := node
  cases kind with
  | member | enumerationCase | typeName | functionType => cases descends
  | _ => rfl

/-- The types of functions take the types of their parameters. -/
theorem Typing.linked_infer {root : Node} {index : NodeIndex} (distinct : root.Distinct)
    (built : NodeIndex.build root = .ok index) (plain : Plain index root) (scope : Scope)
    (supply : VariableSupply) :
    Linked root (Typing.infer root scope index supply).declarations := by
  have declares (node : Node) (inside : node ∈ root.preorder) :=
    @keeps_typeOfDeclaration { scope, index } root built distinct plain node inside
  exact collect_keeps (fun state : State => Linked root state.typing.declarations)
    (enter_descends { scope, index }) (enter_within { scope, index })
    (fun _ (mem : _ ∈ reached none root) state linked =>
      keeps_enter declares (mem_preorder_of_mem_reached mem) state linked)
    (fun _ mem state linked =>
      keeps_leave declares built (mem_preorder_of_mem_reached mem) state linked)
    (fun _ _ _ _ _ _ _ _ _ found => by cases found)

end DeclLang
