import DeclLang.Proofs.PrincipalTypes
import DeclLang.Proofs.ReorderedScopes

/-!
# Typing rules in rearranged trees

**Input.**  Two rearranged trees, and references that are resolved alike in both
(`SameReferences`).

**Relation.**  `Counterparts`: two nodes are the same, or one is the other with rearranged
declarations.  No typing rule sees the difference, because none of them looks at the statements of a
function, at the block of a branch or a loop, or at declarations among declarations.

**Results.**
* `Counterparts.preorder`, `Counterparts.reached`: every node of the one tree, and every place that
  inference comes to, has a counterpart in the other.
* `SameReferences.rule`: the typing rule of a node is that of its counterpart.
* `Account.Fits.rearranged`: an account that fits a tree fits the rearranged tree.
-/

namespace DeclLang

open Inference

/-- The nodes are the same, or one of them is the other with rearranged declarations. -/
def Counterparts (left right : Node) : Prop :=
  left = right ∨ ∃ place, Rearranged place left right

namespace Counterparts

variable {left right : Node}

theorem refl (node : Node) : Counterparts node node :=
  .inl rfl

theorem symm (h : Counterparts left right) : Counterparts right left := by
  rcases h with rfl | ⟨place, h⟩
  · exact .refl _
  · exact .inr ⟨place, h.symm⟩

theorem id_eq (h : Counterparts left right) : left.id = right.id := by
  rcases h with rfl | ⟨place, h⟩
  · rfl
  · exact h.id_eq

/-- Every child of a node has a counterpart among the children of the other. -/
theorem child (h : Counterparts left right) {inner : Node} (mem : inner ∈ right.children) :
    ∃ outer ∈ left.children, Counterparts outer inner := by
  rcases h with rfl | ⟨place, h⟩
  · exact ⟨inner, mem, .refl _⟩
  · have among {inner : Surroundings} {pairs : List (Node × Node)} {child : Node}
        (parts : ∀ pair ∈ pairs, Rearranged inner pair.1 pair.2)
        (mem : child ∈ pairs.map Prod.snd) :
        ∃ outer ∈ pairs.map Prod.fst, Counterparts outer child := by
      obtain ⟨pair, here, rfl⟩ := List.mem_map.1 mem
      exact ⟨pair.1, List.mem_map_of_mem here, .inr ⟨_, parts pair here⟩⟩
    cases h with
    | operand | enumerationDecl | variableDecl => exact ⟨inner, mem, .refl _⟩
    | program setting parts order | namespaceDecl named parts order =>
      exact among parts ((order.map Prod.snd).mem_iff.2 mem)
    | functionDecl setting operands receives parts =>
      rcases List.mem_append.1 mem with mem | mem
      · exact ⟨inner, List.mem_append_left _ mem, .refl _⟩
      · rcases List.mem_cons.1 mem with rfl | mem
        · exact ⟨_, List.mem_append_right _ List.mem_cons_self, .refl _⟩
        · obtain ⟨outer, here, counterparts⟩ := among parts mem
          exact ⟨outer, List.mem_append_right _ (List.mem_cons_of_mem _ here), counterparts⟩
    | recordDecl operands parts =>
      rcases List.mem_append.1 mem with mem | mem
      · exact ⟨inner, List.mem_append_left _ mem, .refl _⟩
      · obtain ⟨outer, here, counterparts⟩ := among parts mem
        exact ⟨outer, List.mem_append_right _ here, counterparts⟩
    | branch operand parts | loop operand parts =>
      rcases List.mem_cons.1 mem with rfl | mem
      · exact ⟨_, List.mem_cons_self, .refl _⟩
      · obtain ⟨outer, here, counterparts⟩ := among parts mem
        exact ⟨outer, List.mem_cons_of_mem _ here, counterparts⟩

/-- Every node of a tree has a counterpart in the other. -/
theorem preorder (h : Counterparts left right) {inner : Node} (mem : inner ∈ right.preorder) :
    ∃ outer ∈ left.preorder, Counterparts outer inner := by
  induction right using Node.children_induction generalizing left with
  | step right ih =>
    rcases Node.mem_preorder_iff.1 mem with rfl | ⟨child, among, below⟩
    · exact ⟨left, left.self_mem_preorder, h⟩
    · obtain ⟨next, here, counterparts⟩ := h.child among
      obtain ⟨outer, deeper, both⟩ := ih child among counterparts below
      exact ⟨outer, Node.mem_preorder_of_mem_children here deeper, both⟩

theorem passesOver_eq (h : Counterparts left right) : passesOver left = passesOver right := by
  rcases h with rfl | ⟨place, h⟩
  · rfl
  · cases h <;> rfl

theorem isTyped_eq (h : Counterparts left right) : isTyped left = isTyped right := by
  rcases h with rfl | ⟨place, h⟩
  · rfl
  · cases h <;> rfl

theorem isPolymorphic_eq (h : Counterparts left right) :
    isPolymorphic left = isPolymorphic right := by
  rcases h with rfl | ⟨place, h⟩
  · rfl
  · cases h <;> rfl

theorem declaredTypeName?_eq (h : Counterparts left right) :
    declaredTypeName? left = declaredTypeName? right := by
  rcases h with rfl | ⟨place, h⟩
  · rfl
  · cases h <;> rfl

/-- A generic parameter is its own counterpart. -/
theorem genericParameter (h : Counterparts left right) {name : String} :
    left.kind = .genericParameter name ↔ right.kind = .genericParameter name := by
  rcases h with rfl | ⟨place, h⟩
  · rfl
  · cases h with
    | operand | enumerationDecl | variableDecl => rfl
    | _ => exact ⟨nofun, nofun⟩

/-- An enumeration is its own counterpart. -/
theorem eq_of_isEnumeration (h : Counterparts left right) (isEnumeration : right.IsEnumeration) :
    left = right := by
  obtain ⟨_, _, _, kind⟩ := isEnumeration
  rcases h with rfl | ⟨place, h⟩
  · rfl
  · cases h with
    | operand | enumerationDecl | variableDecl => rfl
    | _ => cases kind

/-- An enumeration case is its own counterpart. -/
theorem eq_of_isCase (h : Counterparts left right) (isCase : right.IsCase) : left = right := by
  rcases h with rfl | ⟨place, h⟩
  · rfl
  · exact absurd isCase h.symm.not_isCase

/-- A `return` is its own counterpart. -/
theorem returnStatement (h : Counterparts left right) {expression? : Option Node}
    (kind : right.kind = .returnStatement expression?) : left = right := by
  rcases h with rfl | ⟨place, h⟩
  · rfl
  · cases h with
    | operand => rfl
    | _ => cases kind

/-- Counterparts of functions take the same parameters. -/
theorem functionDecl (h : Counterparts left right) {name : String} {generics parameters : List Node}
    {result : Node} {body : List Node}
    (kind : right.kind = .functionDecl name generics parameters result body) :
    ∃ statements, left.kind = .functionDecl name generics parameters result statements := by
  rcases h with rfl | ⟨place, h⟩
  · exact ⟨body, kind⟩
  · cases h with
    | operand => exact ⟨body, kind⟩
    | functionDecl =>
      cases kind
      exact ⟨_, rfl⟩
    | _ => cases kind

/-- Records without fields have no slots. -/
theorem filter_fieldSlot? {place : Surroundings} {pairs : List (Node × Node)}
    (inRecord : place.inRecord = true)
    (parts : ∀ pair ∈ pairs, Rearranged place pair.1 pair.2) :
    (pairs.map Prod.fst).filter (fun field => field.fieldSlot?.isSome) = [] ∧
      (pairs.map Prod.snd).filter (fun field => field.fieldSlot?.isSome) = [] := by
  refine ⟨List.filter_eq_nil_iff.2 (List.forall_mem_map.2 fun pair mem => ?_),
    List.filter_eq_nil_iff.2 (List.forall_mem_map.2 fun pair mem => ?_)⟩
  · rw [(parts pair mem).fieldSlot?_eq_none inRecord]
    decide
  · rw [(parts pair mem).symm.fieldSlot?_eq_none inRecord]
    decide

/-- Calls to counterparts can name the same slots. -/
theorem slots?_eq (h : Counterparts left right) : left.slots? = right.slots? := by
  rcases h with rfl | ⟨place, h⟩
  · rfl
  · cases h with
    | @recordDecl _ _ _ _ pairs operands parts =>
      have none : (pairs.map Prod.fst).filterMap Node.fieldSlot? = [] :=
        List.filterMap_eq_nil_iff.2 (List.forall_mem_map.2 fun pair mem =>
          (parts pair mem).fieldSlot?_eq_none rfl)
      have none' : (pairs.map Prod.snd).filterMap Node.fieldSlot? = [] :=
        List.filterMap_eq_nil_iff.2 (List.forall_mem_map.2 fun pair mem =>
          (parts pair mem).symm.fieldSlot?_eq_none rfl)
      rw [Node.slots?, Node.slots?, Node.kind_mk, Node.kind_mk]
      dsimp only
      rw [none, none']
    | _ => rfl

theorem functionBelow (h : Counterparts left right) {outer? inner? : Option Node}
    (around : Option.Rel Counterparts outer? inner?) :
    Option.Rel Counterparts (functionBelow outer? left) (functionBelow inner? right) := by
  have both := h
  rcases h with rfl | ⟨place, h⟩
  · unfold Inference.functionBelow
    split
    · exact .some both
    · exact around
  · cases h with
    | functionDecl => exact .some both
    | operand | enumerationDecl | variableDecl =>
      unfold Inference.functionBelow
      split
      · exact .some both
      · exact around
    | _ => exact around

/-- Every place that inference comes to has a counterpart in the other tree. -/
theorem reached (h : Counterparts left right) {outer? inner? : Option Node}
    (around : Option.Rel Counterparts outer? inner?) {place : Option Node × Node}
    (mem : place ∈ reached inner? right) :
    ∃ other ∈ reached outer? left, Option.Rel Counterparts other.1 place.1 ∧
      Counterparts other.2 place.2 := by
  induction right using Node.children_induction generalizing left outer? inner? with
  | step right ih =>
    rcases mem_reached_iff.1 mem with rfl | ⟨child, visit, below⟩
    · exact ⟨_, self_mem_reached outer? left, around, h⟩
    · obtain ⟨next, here, counterparts⟩ := h.child (mem_children_of_mem_visited visit)
      have visits : next ∈ visited left := by
        unfold visited at visit ⊢
        rw [h.passesOver_eq]
        split at visit
        · cases visit
        · rename_i goes
          rwa [if_neg goes]
      obtain ⟨other, deeper, both⟩ := ih child (mem_children_of_mem_visited visit) counterparts
        (h.functionBelow around) below
      exact ⟨other, mem_reached_iff.2 (.inr ⟨next, visits, deeper⟩), both⟩

end Counterparts

theorem exists_of_rel_some {α β : Type} {R : α → β → Prop} {a : α} {b? : Option β}
    (h : Option.Rel R (some a) b?) : ∃ b, b? = some b ∧ R a b := by
  cases h with
  | some both => exact ⟨_, rfl, both⟩

theorem eq_none_of_rel_none {α β : Type} {R : α → β → Prop} {b? : Option β}
    (h : Option.Rel R none b?) : b? = none := by
  cases h
  rfl

/-- References are resolved to counterparts. -/
structure SameReferences (environment other : Environment) : Prop where
  declarations : ∀ id,
    Option.Rel Counterparts (environment.declaration? id) (other.declaration? id)
  types : ∀ id,
    Option.Rel Counterparts (environment.typeDeclaration? id) (other.typeDeclaration? id)

namespace SameReferences

variable {environment other : Environment} (same : SameReferences environment other)

include same

theorem typeDeclaration_of_some {id : NodeId} {declaration : Node}
    (refers : environment.typeDeclaration? id = some declaration) :
    ∃ counterpart, other.typeDeclaration? id = some counterpart ∧
      Counterparts declaration counterpart := by
  have both := same.types id
  rw [refers] at both
  exact exists_of_rel_some both

theorem typeDeclaration_of_none {id : NodeId} (refers : environment.typeDeclaration? id = none) :
    other.typeDeclaration? id = none := by
  have both := same.types id
  rw [refers] at both
  exact eq_none_of_rel_none both

theorem isMeaningful_eq (node : Node) :
    isMeaningful environment node = isMeaningful other node := by
  obtain ⟨id, kind⟩ := node
  cases kind with
  | typeName =>
    unfold isMeaningful
    dsimp only [Node.kind_mk, Node.id_mk]
    cases here : environment.typeDeclaration? id with
    | none => rw [same.typeDeclaration_of_none here]
    | some declaration =>
      obtain ⟨counterpart, there, both⟩ := same.typeDeclaration_of_some here
      rw [there]
      rcases both with rfl | ⟨place, rearranged⟩
      · rfl
      · cases rearranged <;> rfl
  | _ => rfl

/-- Annotations denote the same. -/
theorem denotes {node : Node} {type : StaticType} (h : Denotes environment node type) :
    Denotes other node type := by
  induction node using Node.children_induction generalizing type with
  | step node ih =>
    cases h with
    | generic refers kind =>
      obtain ⟨counterpart, there, both⟩ := same.typeDeclaration_of_some refers
      exact .generic there (both.genericParameter.1 kind)
    | declared refers kind denoted =>
      obtain ⟨counterpart, there, both⟩ := same.typeDeclaration_of_some refers
      exact .declared there (both.declaredTypeName?_eq.symm.trans kind)
        (forall₂_imp_of_mem denoted fun argument mem _ denotes => ih argument mem denotes)
    | undeclared refers denoted =>
      exact .undeclared (same.typeDeclaration_of_none refers)
        (forall₂_imp_of_mem denoted fun argument mem _ denotes => ih argument mem denotes)
    | function denoted denotedResult =>
      exact .function (forall₂_imp_of_mem denoted fun argument mem _ denotes =>
          ih argument (List.mem_append_left _ mem) denotes)
        (ih _ (List.mem_append_right _ (List.mem_singleton_self _)) denotedResult)
    | nothing silent => exact .nothing ((same.isMeaningful_eq node).symm.trans silent)

/-- Counterparts are declared with the same types. -/
theorem declaredAs {left right : Node} (h : Counterparts left right) {type : StaticType}
    (declared : DeclaredAs environment left type) : DeclaredAs other right type := by
  have own {node : Node} (declared : DeclaredAs environment node type) :
      DeclaredAs other node type := by
    obtain ⟨id, kind⟩ := node
    cases kind with
    | functionDecl =>
      obtain ⟨received, returned, rfl, labels, denotes⟩ := declared
      exact ⟨received, returned, rfl, labels, same.denotes denotes⟩
    | enumerationCase =>
      obtain ⟨received, enumeration, rfl, denoted⟩ := declared
      exact ⟨received, enumeration, rfl, denoted.imp fun _ _ denotes => same.denotes denotes⟩
    | parameter => exact same.denotes declared
    | variableDecl name ascription? =>
      cases ascription? with
      | none => exact declared
      | some ascription => exact same.denotes declared
    | _ => exact declared
  rcases h with rfl | ⟨place, h⟩
  · exact own declared
  · cases h with
    | operand | enumerationDecl | variableDecl => exact own declared
    | functionDecl =>
      obtain ⟨received, returned, rfl, labels, denotes⟩ := declared
      exact ⟨received, returned, rfl, labels, same.denotes denotes⟩
    | @recordDecl _ _ _ _ pairs operands parts =>
      obtain ⟨none, none'⟩ := Counterparts.filter_fieldSlot? rfl parts
      obtain ⟨fields, rfl, labels⟩ := declared
      refine ⟨fields, rfl, ?_⟩
      rw [labels, none, none']
    | _ => exact declared

/-- The callee receives the same arguments. -/
theorem receivedArguments_eq (callee : Node) (arguments : List Node) :
    receivedArguments environment callee arguments = receivedArguments other callee arguments := by
  have slots : (environment.declaration? callee.id).bind Node.slots? =
      (other.declaration? callee.id).bind Node.slots? := by
    have both := same.declarations callee.id
    cases here : environment.declaration? callee.id with
    | none =>
      rw [here] at both
      rw [eq_none_of_rel_none both]
    | some declaration =>
      rw [here] at both
      obtain ⟨counterpart, there, both⟩ := exists_of_rel_some both
      rw [there]
      exact both.slots?_eq
  unfold receivedArguments
  rw [slots]

section Rules

variable {judgment : Judgment} {left right : Node} {own type : StaticType}

omit same in
theorem declares (same : SameReferences judgment.environment other) (h : Counterparts left right)
    (declares : judgment.Declares left type) :
    { judgment with environment := other }.Declares right type :=
  ⟨h.id_eq ▸ declares.1, same.declaredAs h declares.2⟩

omit same in
/-- References have the same types. -/
theorem refers (same : SameReferences judgment.environment other) {id : NodeId}
    (h : judgment.Refers id own) : { judgment with environment := other }.Refers id own := by
  have both := same.declarations id
  unfold Judgment.Refers at h
  cases here : judgment.environment.declaration? id with
  | none =>
    rw [here] at both
    exact Judgment.refers_of_none (eq_none_of_rel_none both)
  | some declaration =>
    rw [here] at both h
    obtain ⟨counterpart, there, both⟩ := exists_of_rel_some both
    obtain ⟨type, declares, instance_⟩ := h
    refine Judgment.refers_of_some there (same.declares both declares) ?_
    rw [← both.isPolymorphic_eq]
    exact instance_

omit same in
/-- The typing rule of a node is that of its counterpart. -/
theorem rule (same : SameReferences judgment.environment other) (h : Counterparts left right)
    {outer? inner? : Option Node} (around : Option.Rel Counterparts outer? inner?)
    (rule : judgment.Rule outer? left own) :
    { judgment with environment := other }.Rule inner? right own := by
  have declared (h : Counterparts left right)
      (rule : ∃ type, judgment.Declares left type ∧ judgment.same own type) :
      ∃ type, { judgment with environment := other }.Declares right type ∧
        judgment.same own type := by
    obtain ⟨type, declares, agrees⟩ := rule
    exact ⟨type, same.declares h declares, agrees⟩
  have own {node : Node} (rule : judgment.Rule outer? node own) :
      { judgment with environment := other }.Rule inner? node own := by
    obtain ⟨id, kind⟩ := node
    cases kind with
    | identifier | member => exact same.refers rule
    | call callee arguments =>
      obtain ⟨slots, result, agrees, called, receives⟩ := rule
      refine ⟨slots, result, agrees, called, ?_⟩
      rw [same.receivedArguments_eq] at receives
      exact receives
    | functionDecl | recordDecl | enumerationDecl | enumerationCase =>
      obtain ⟨type, declares, agrees⟩ := rule
      exact ⟨type, same.declares (.refl _) declares, agrees⟩
    | variableDecl | parameter =>
      obtain ⟨type, declares, agrees, initialized⟩ := rule
      exact ⟨type, same.declares (.refl _) declares, agrees, initialized⟩
    | returnStatement expression? =>
      refine ⟨rule.1, fun function inside => ?_⟩
      subst inside
      cases around with
      | some both =>
        obtain ⟨received, result, declares, returns⟩ := rule.2 _ rfl
        exact ⟨received, result, same.declares both declares, returns⟩
    | _ => exact rule
  have both := h
  rcases h with rfl | ⟨place, h⟩
  · exact own rule
  · cases h with
    | operand | enumerationDecl | variableDecl => exact own rule
    | functionDecl | recordDecl => exact declared both rule
    | branch | loop => exact rule
    | program | namespaceDecl => trivial

end Rules

end SameReferences

namespace Rearranged

variable {left right : Node} (h : Rearranged .outermost left right) {index others : NodeIndex}
  (built : NodeIndex.build left = .ok index) (again : NodeIndex.build right = .ok others)

include h built again

/-- Both indexes find counterparts. -/
theorem get?_rel (id : NodeId) : Option.Rel Counterparts (index.get? id) (others.get? id) := by
  have both : Counterparts left right := .inr ⟨_, h⟩
  cases here : index.get? id with
  | some node =>
    obtain ⟨mem, rfl⟩ := NodeIndex.mem_of_get? built here
    obtain ⟨counterpart, inside, counterparts⟩ := both.symm.preorder mem
    rw [← counterparts.id_eq, NodeIndex.get?_of_mem again inside]
    exact .some counterparts.symm
  | none =>
    cases there : others.get? id with
    | none => exact .none
    | some node =>
      obtain ⟨mem, rfl⟩ := NodeIndex.mem_of_get? again there
      obtain ⟨counterpart, inside, counterparts⟩ := both.preorder mem
      rw [← counterparts.id_eq, NodeIndex.get?_of_mem built inside] at here
      cases here

/-- If all references are resolved alike, then they are resolved to counterparts. -/
theorem sameReferences {scope other : Scope}
    (known : ∀ kind, (scope.known kind).Equiv (other.known kind)) :
    SameReferences { scope, index } { scope := other, index := others } := by
  have bound {found? found?' : Option NodeId} (same : found? = found?') :
      Option.Rel Counterparts (found?.bind index.get?) (found?'.bind others.get?) := by
    subst same
    cases found? with
    | none => exact .none
    | some found => exact h.get?_rel built again found
  constructor
  · intro id
    refine bound ?_
    have identifiers : scope.identifiers[id]? = other.identifiers[id]? :=
      (known .identifier).getElem?_eq
    have members : scope.members[id]? = other.members[id]? := (known .member).getElem?_eq
    dsimp only [Scope.resolve]
    rw [identifiers, members]
  · intro id
    exact bound (known .typeName).getElem?_eq

/-- Enumeration cases belong to the same enumeration in both trees. -/
theorem parent?_eq {node : Node} (inside : node ∈ right.preorder) (isCase : node.IsCase) :
    ∃ parent, index.parent? node.id = some parent ∧ others.parent? node.id = some parent ∧
      parent.IsEnumeration := by
  obtain ⟨parent, above, among, isEnumeration⟩ :=
    enumeration_of_case h.symm.tidy h.symm.not_isCase inside isCase
  have both : Counterparts left right := .inr ⟨_, h⟩
  obtain ⟨counterpart, there, counterparts⟩ := both.preorder above
  cases counterparts.eq_of_isEnumeration isEnumeration
  exact ⟨parent, NodeIndex.parent?_of_mem built there among,
    NodeIndex.parent?_of_mem again above among, isEnumeration⟩

variable {scope other : Scope}
  (same : SameReferences { scope, index } { scope := other, index := others })

include same

/-- The parts of counterparts are declared with the same types. -/
theorem composed {node counterpart : Node} (both : Counterparts node counterpart)
    (inside : counterpart ∈ right.preorder) {type : StaticType}
    (composed : Composed { scope, index } node type) :
    Composed { scope := other, index := others } counterpart type := by
  have own (composed : Composed { scope, index } counterpart type) :
      Composed { scope := other, index := others } counterpart type := by
    obtain ⟨id, kind⟩ := counterpart
    cases kind with
    | functionDecl | recordDecl =>
      obtain ⟨received, result, rfl, parts⟩ := composed
      exact ⟨received, result, rfl, parts.imp fun _ _ => same.declaredAs (.refl _)⟩
    | enumerationCase name values =>
      obtain ⟨parent, here, there, -⟩ := h.parent?_eq built again inside ⟨name, values, rfl⟩
      obtain ⟨received, result, rfl, parents⟩ := composed
      refine ⟨received, result, rfl, fun part mem => ?_⟩
      cases (Option.mem_toList.1 mem).symm.trans there
      exact same.declaredAs (.refl _) (parents _ (Option.mem_toList.2 here))
    | _ => trivial
  rcases both with rfl | ⟨place, rearranged⟩
  · exact own composed
  · cases rearranged with
    | operand | enumerationDecl | variableDecl => exact own composed
    | functionDecl =>
      obtain ⟨received, result, rfl, parts⟩ := composed
      exact ⟨received, result, rfl, parts.imp fun _ _ => same.declaredAs (.refl _)⟩
    | recordDecl operands parts =>
      obtain ⟨none, none'⟩ := Counterparts.filter_fieldSlot? rfl parts
      obtain ⟨received, result, rfl, declared⟩ := composed
      rw [typedParts, Node.kind_mk] at declared
      dsimp only at declared
      rw [none] at declared
      cases declared
      refine ⟨[], result, rfl, ?_⟩
      rw [typedParts, Node.kind_mk]
      dsimp only
      rw [none']
      exact .nil
    | _ => trivial

/-- An account that fits a tree fits the rearranged tree. -/
theorem fits {typing : Typing} {solution : Assignment}
    (fits : Account.Fits ⟨{ scope, index }, typing, solution⟩ left) :
    Account.Fits ⟨{ scope := other, index := others }, typing, solution⟩ right := by
  have both : Counterparts left right := .inr ⟨_, h⟩
  have tidy := h.symm.tidy
  refine ⟨fun place mem typed => ?_, fun place mem expression kind => ?_, fun node inside type
    known => ?_, ?_, shallow_of_tidy tidy h.symm.not_isCase again, ?_, ?_⟩
  · obtain ⟨origin, there, around, counterparts⟩ := both.reached .none mem
    obtain ⟨own, known, rule⟩ := fits.rules origin there (counterparts.isTyped_eq.trans typed)
    rw [counterparts.id_eq] at known
    exact ⟨own, known, same.rule counterparts around rule⟩
  · obtain ⟨origin, there, -, counterparts⟩ := both.reached .none mem
    exact fits.returned origin there expression
      ((congrArg Node.kind (counterparts.returnStatement kind)).trans kind)
  · obtain ⟨origin, there, counterparts⟩ := both.preorder inside
    rw [← counterparts.id_eq] at known
    obtain ⟨declared, composed⟩ := fits.suitable origin there type known
    exact ⟨same.declaredAs counterparts declared,
      h.composed built again same counterparts inside composed⟩
  · intro node inside name generics parameters result body kind type known
    obtain ⟨origin, there, counterparts⟩ := both.preorder inside
    rw [← counterparts.id_eq] at known
    obtain ⟨statements, kind'⟩ := counterparts.functionDecl kind
    exact fits.linked origin there name generics parameters result statements kind' type known
  · intro node inside name values kind
    obtain ⟨parent, here, above, isEnumeration⟩ :=
      h.parent?_eq built again inside ⟨name, values, kind⟩
    refine ⟨parent, above, isEnumeration, ?_⟩
    obtain ⟨origin, there, counterparts⟩ := both.preorder inside
    cases counterparts.eq_of_isCase ⟨name, values, kind⟩
    obtain ⟨_, known, -, typed⟩ := fits.cases node there name values kind
    cases here.symm.trans known
    exact typed
  · intro node inside name generics declarations kind
    refine List.filter_eq_nil_iff.2 fun child mem => ?_
    rw [(tidy node inside).fieldless name generics declarations kind child mem]
    decide

end Rearranged

end DeclLang
