import DeclLang.Proofs.Findings

/-!
# References do not depend on the order of declarations

**Input.**  Two rearranged trees with distinct identities and proper names.

**Argument.**  At a place among declarations everything that a node binds is already known, because
the frame was filled from the namespace before; so binding it again changes nothing, and the order
in which it is done does not matter.  Among statements the order is the same in both trees.

**Results.**
* `Rearranged.findings_perm`: the same is found out in both trees.
* `Rearranged.names_eq`: they have the same namespace, or none of them has one.
* `Rearranged.scope_eq`: all references are resolved alike.
-/

namespace DeclLang

open Scope

namespace Node

variable {node : Node}

theorem ProperlyNamed.child (proper : node.ProperlyNamed) {child : Node}
    (mem : child ∈ node.children) : child.ProperlyNamed :=
  fun inner below => proper inner (mem_preorder_of_mem_children mem below)

/-- What is bound has a proper name. -/
theorem ProperlyNamed.bindings (proper : node.ProperlyNamed) {name : String} {id : NodeId}
    (mem : (name, id) ∈ node.bindings) : Path.IsName name := by
  induction node using children_induction with
  | step node ih =>
    have inside (mem : (name, id) ∈ node.children.flatMap Node.bindings) : Path.IsName name := by
      obtain ⟨child, among, bound⟩ := List.mem_flatMap.1 mem
      exact ih child among (proper.child among) bound
    have own (declared : node.declaredName? = some name) : Path.IsName name :=
      proper node node.self_mem_preorder name declared
    rw [bindings_eq] at mem
    obtain ⟨own', kind⟩ := node
    cases kind with
    | functionDecl =>
      cases List.mem_singleton.1 mem
      exact own rfl
    | parameter | variableDecl =>
      rcases List.mem_append.1 mem with mem | mem
      · exact inside mem
      · cases List.mem_singleton.1 mem
        exact own rfl
    | namespaceDecl | branch | loop | member => cases mem
    | _ => exact inside mem

end Node

/-- The path of a declaration one name further is the path of a member. -/
theorem Path.join_append_name {enclosing : List String} (proper : ∀ name ∈ enclosing, IsName name)
    (some : enclosing ≠ []) (name : String) :
    join enclosing ++ "." ++ name = qualify enclosing name := by
  rw [qualify_eq_join proper, join_concat some]

namespace Scope

variable {tables : NameKind → String → Option NodeId} {outlook : Outlook}

/-- Binding what is known already changes nothing. -/
theorem Outlook.bind_known {bindings : List (String × NodeId)}
    (known : ∀ name id, (name, id) ∈ bindings → outlook.values name = some id) :
    outlook.bind bindings = outlook := by
  have same : rebound bindings outlook.values = outlook.values := by
    funext name
    unfold rebound
    cases found : bindings.reverse.lookup name with
    | none => rfl
    | some id =>
      obtain ⟨before, after, whole, -⟩ := List.lookup_eq_some_iff.1 found
      have mem : (name, id) ∈ bindings := by
        rw [← List.mem_reverse, whole]
        exact List.mem_append_right _ List.mem_cons_self
      exact (known name id mem).symm
  unfold Outlook.bind
  rw [same]

/-- Among siblings that bind nothing new, each looks around as the first one does. -/
theorem along_known {siblings : List Node}
    (known : ∀ sibling ∈ siblings, ∀ name id, (name, id) ∈ sibling.bindings →
      outlook.values name = some id) :
    along Node.bindings (findings tables) outlook siblings =
      siblings.flatMap (findings tables outlook) := by
  induction siblings with
  | nil => rfl
  | cons sibling siblings ih =>
    rw [along, List.flatMap_cons, Outlook.bind_known (known sibling List.mem_cons_self),
      ih fun other mem => known other (List.mem_cons_of_mem _ mem)]

/-- Pairs of siblings that bind the same find out the same one after the other. -/
theorem along_perm {pairs : List (Node × Node)}
    (same : ∀ pair ∈ pairs, pair.1.bindings = pair.2.bindings)
    (each : ∀ pair ∈ pairs, ∀ next : Outlook, next.enclosing = outlook.enclosing →
      (findings tables next pair.1).Perm (findings tables next pair.2)) :
    (along Node.bindings (findings tables) outlook (pairs.map Prod.fst)).Perm
      (along Node.bindings (findings tables) outlook (pairs.map Prod.snd)) := by
  induction pairs generalizing outlook with
  | nil => exact .nil
  | cons pair pairs ih =>
    rw [List.map_cons, List.map_cons, along, along, same pair List.mem_cons_self]
    exact (each pair List.mem_cons_self outlook rfl).append
      (ih (fun other mem => same other (List.mem_cons_of_mem _ mem)) fun other mem next enclosing =>
        each other (List.mem_cons_of_mem _ mem) next enclosing)

/-- Siblings that bind nothing new may come in any order. -/
theorem along_perm_known {pairs others : List (Node × Node)} (order : pairs.Perm others)
    (known : ∀ pair ∈ pairs, ∀ name id, (name, id) ∈ pair.1.bindings →
      outlook.values name = some id)
    (same : ∀ pair ∈ pairs, pair.1.bindings.Perm pair.2.bindings)
    (each : ∀ pair ∈ pairs,
      (findings tables outlook pair.1).Perm (findings tables outlook pair.2)) :
    (along Node.bindings (findings tables) outlook (pairs.map Prod.fst)).Perm
      (along Node.bindings (findings tables) outlook (others.map Prod.snd)) := by
  rw [along_known (List.forall_mem_map.2 known), along_known]
  · exact flatMap_perm each order
  · refine List.forall_mem_map.2 fun pair mem name id binds => ?_
    have mem := order.mem_iff.2 mem
    exact known pair mem name id ((same pair mem).mem_iff.2 binds)

/-- The same, after siblings that both trees have. -/
theorem along_append_perm {elders : List Node} {pairs : List (Node × Node)}
    (same : ∀ pair ∈ pairs, pair.1.bindings = pair.2.bindings)
    (each : ∀ pair ∈ pairs, ∀ next : Outlook, next.enclosing = outlook.enclosing →
      (findings tables next pair.1).Perm (findings tables next pair.2)) :
    (along Node.bindings (findings tables) outlook (elders ++ pairs.map Prod.fst)).Perm
      (along Node.bindings (findings tables) outlook (elders ++ pairs.map Prod.snd)) := by
  have twice := @along_perm tables outlook (elders.map (fun elder => (elder, elder)) ++ pairs)
  simp only [List.map_append, List.map_map, Function.comp_def, List.map_id'] at twice
  refine twice (fun pair mem => ?_) fun pair mem next enclosing => ?_
  · rcases List.mem_append.1 mem with mem | mem
    · obtain ⟨elder, -, rfl⟩ := List.mem_map.1 mem
      rfl
    · exact same pair mem
  · rcases List.mem_append.1 mem with mem | mem
    · obtain ⟨elder, -, rfl⟩ := List.mem_map.1 mem
      exact .refl _
    · exact each pair mem next enclosing

end Scope

namespace Rearranged

variable {place : Surroundings} {left right : Node}

section Findings

variable (tables : NameKind → String → Option NodeId)

/-- What is known at a place before a node is reached: the names of the enclosing declarations are
proper, what the node registers is in the tables, and among declarations what it binds can be
looked up already. -/
structure Foreseen (place : Surroundings) (outlook : Outlook) (node : Node) : Prop where
  proper : node.ProperlyNamed
  enclosing : ∀ name ∈ outlook.enclosing, Path.IsName name
  registered : place.named = true → ∀ registration ∈ node.registrations outlook.enclosing,
    tables registration.kind registration.path = some registration.id
  known : place.setting = .declarations → ∀ name id, (name, id) ∈ node.bindings →
    outlook.values name = some id

variable {tables} {outlook : Outlook}

/-- What a child registers is registered by the node. -/
theorem registrations_child {node child : Node} (opens : node.opensPaths = true)
    (mem : child ∈ node.children) {enclosing : List String} {registration : Registration}
    (among : registration ∈ child.registrations (enclosing ++ node.qualifier?.toList)) :
    registration ∈ node.registrations enclosing := by
  rw [Node.registrations_eq, if_pos opens]
  exact List.mem_append_left _ (List.mem_append_right _ (List.mem_flatMap.2 ⟨child, mem, among⟩))

theorem Foreseen.enclosing_child {node : Node} (foreseen : Foreseen tables place outlook node) :
    ∀ name ∈ outlook.enclosing ++ node.qualifier?.toList, Path.IsName name := by
  intro name mem
  rcases List.mem_append.1 mem with mem | mem
  · exact foreseen.enclosing name mem
  · refine foreseen.proper node node.self_mem_preorder name ?_
    obtain ⟨id, kind⟩ := node
    cases kind with
    | namespaceDecl | functionDecl | recordDecl | enumerationDecl =>
      cases List.mem_singleton.1 mem
      rfl
    | _ => cases mem

/-- What is foreseen of a node is foreseen of a child, if what the child binds is known there. -/
theorem Foreseen.child {node child : Node} {inner : Surroundings} {next : Outlook}
    (foreseen : Foreseen tables place outlook node) (mem : child ∈ node.children)
    (enclosing : next.enclosing = outlook.enclosing ++ node.qualifier?.toList)
    (named : inner.named = true → place.named = true ∧ node.opensPaths = true)
    (known : inner.setting = .declarations → ∀ name id, (name, id) ∈ child.bindings →
      next.values name = some id) :
    Foreseen tables inner next child where
  proper := foreseen.proper.child mem
  enclosing := enclosing ▸ foreseen.enclosing_child
  registered here registration among := by
    obtain ⟨outside, opens⟩ := named here
    rw [enclosing] at among
    exact foreseen.registered outside registration (registrations_child opens mem among)
  known := known

/-- What a declaration in a namespace binds is a member of the namespace. -/
theorem Foreseen.member_known {id : NodeId} {name : String} {declarations : List Node}
    (foreseen : Foreseen tables place outlook (.mk id (.namespaceDecl name declarations)))
    (named : place.named = true) {child next : Node} (mem : child ∈ declarations)
    (h : Rearranged place.inNamespace child next) {bound : String} {declaration : NodeId}
    (binds : (bound, declaration) ∈ child.bindings) :
    (outlook.inside tables (.mk id (.namespaceDecl name declarations))).values bound =
      some declaration := by
  have plain : '.' ∉ bound.toList := ((foreseen.proper.child mem).bindings binds).2
  have known := foreseen.registered named _ (registrations_child rfl mem
    (h.registered_of_mem_bindings rfl binds (outlook.enclosing ++ [name])))
  unfold Outlook.inside
  dsimp only [Node.kind_mk]
  unfold memberIn
  rw [if_neg plain]
  have path := Path.join_append_name foreseen.enclosing_child (by simp [Node.qualifier?]) bound
  exact (congrArg (Option.or · _) ((congrArg _ path).trans known) :)

/-- The same is found out in the blocks of rearranged branches and loops. -/
theorem Foreseen.block_perm {node condition : Node} {pairs : List (Node × Node)}
    (foreseen : Foreseen tables place outlook node)
    (children : node.children = condition :: pairs.map Prod.fst) (path : node.qualifier? = none)
    (parts : ∀ pair ∈ pairs, Rearranged place.inBlock pair.1 pair.2)
    (each : ∀ pair ∈ pairs, ∀ {next : Outlook}, Foreseen tables place.inBlock next pair.1 →
      (findings tables next pair.1).Perm (findings tables next pair.2)) :
    (along Node.bindings (findings tables) outlook (condition :: pairs.map Prod.fst)).Perm
      (along Node.bindings (findings tables) outlook (condition :: pairs.map Prod.snd)) := by
  refine @along_append_perm tables outlook [condition] pairs
    (fun pair mem => (parts pair mem).bindings_eq rfl) fun pair mem next enclosing =>
      each pair mem (foreseen.child ?_ ?_ nofun nofun)
  · rw [children]
    exact List.mem_cons_of_mem _ (List.mem_map_of_mem mem)
  · rw [enclosing, path]
    exact (List.append_nil _).symm

/-- The same is found out in rearranged trees. -/
theorem findings_perm (h : Rearranged place left right)
    (foreseen : Foreseen tables place outlook left) :
    (findings tables outlook left).Perm (findings tables outlook right) := by
  induction h generalizing outlook with
  | operand | enumerationDecl | variableDecl => exact .refl _
  | @program place id pairs others setting parts order ih =>
    have child (pair : Node × Node) (mem : pair ∈ pairs) :
        Foreseen tables place outlook pair.1 := by
      have among : pair.1 ∈ pairs.map Prod.fst := List.mem_map_of_mem mem
      refine foreseen.child among (List.append_nil _).symm (fun named => ⟨named, rfl⟩)
        fun setting name id binds => foreseen.known setting name id ?_
      rw [Node.bindings_eq]
      exact List.mem_flatMap.2 ⟨pair.1, among, binds⟩
    rw [findings_eq, findings_eq]
    exact (along_perm_known order (fun pair mem => (child pair mem).known setting)
      (fun pair mem => (parts pair mem).bindings_perm) fun pair mem =>
        ih pair mem (child pair mem)).append_left _
  | @namespaceDecl place id name pairs others named parts order ih =>
    have known (pair : Node × Node) (mem : pair ∈ pairs) (bound : String) (declaration : NodeId)
        (binds : (bound, declaration) ∈ pair.1.bindings) :=
      foreseen.member_known named (List.mem_map_of_mem mem) (parts pair mem) binds
    rw [findings_eq, findings_eq]
    exact (along_perm_known order known (fun pair mem => (parts pair mem).bindings_perm)
      fun pair mem => ih pair mem (foreseen.child (List.mem_map_of_mem mem) rfl
        (fun named => ⟨named, rfl⟩) fun _ => known pair mem)).append_left _
  | @functionDecl place id name generics parameters returnType pairs setting operands receives parts
      ih =>
    -- The order of statements stays: only what is inside of them is rearranged.
    rw [findings_eq, findings_eq]
    refine List.Perm.append_left _ (@along_append_perm tables _ (generics ++ parameters)
      ((returnType, returnType) :: pairs) (fun pair mem => ?_) fun pair mem next enclosing => ?_)
    · rcases List.mem_cons.1 mem with rfl | mem
      · rfl
      · exact (parts pair mem).bindings_eq rfl
    · rcases List.mem_cons.1 mem with rfl | mem
      · exact .refl _
      · have among : pair.1 ∈ generics ++ parameters ++ returnType :: pairs.map Prod.fst :=
          List.mem_append_right _ (List.mem_cons_of_mem _ (List.mem_map_of_mem mem))
        exact ih pair mem (foreseen.child among enclosing (fun named => ⟨named, rfl⟩) nofun)
  | @recordDecl place id name generics pairs operands parts ih =>
    rw [findings_eq, findings_eq]
    refine List.Perm.append_left _ (along_append_perm (fun pair mem => ?_)
      fun pair mem next enclosing => ?_)
    · rw [(parts pair mem).bindings_eq_nil rfl rfl, (parts pair mem).symm.bindings_eq_nil rfl rfl]
    · have among : pair.1 ∈ generics ++ pairs.map Prod.fst :=
        List.mem_append_right _ (List.mem_map_of_mem mem)
      exact ih pair mem (foreseen.child among enclosing (fun named => ⟨named, rfl⟩) nofun)
  | branch operand parts ih =>
    rw [findings_eq, findings_eq]
    exact (foreseen.block_perm rfl rfl parts ih).append_left _
  | loop operand parts ih =>
    rw [findings_eq, findings_eq]
    exact (foreseen.block_perm rfl rfl parts ih).append_left _

end Findings

section Built

variable {names others : Namespace}

/-- Rearranged trees both have a namespace, or neither of them has. -/
theorem names_iff (h : Rearranged place left right) :
    (∃ names, Namespace.build left = .ok names) ↔ ∃ names, Namespace.build right = .ok names := by
  rw [Namespace.build_ok_iff, Namespace.build_ok_iff]
  exact ((h.registrations_perm []).map Registration.key).nodup_iff

/-- The paths stand for the same declarations in both trees. -/
theorem lookup_eq (h : Rearranged place left right) (built : Namespace.build left = .ok names)
    (again : Namespace.build right = .ok others) : others.lookup = names.lookup := by
  funext kind path
  refine Option.ext fun id => ?_
  unfold Namespace.lookup
  rw [Namespace.getElem?_of_build built, Namespace.getElem?_of_build again]
  exact (h.registrations_perm []).symm.mem_iff

/-- Everything that rearranged trees bind at top level is known around them. -/
theorem foreseen_outermost (h : Rearranged .outermost left right) (proper : left.ProperlyNamed)
    (built : Namespace.build left = .ok names) :
    Foreseen names.lookup .outermost (.outermost names.lookup) left where
  proper := proper
  enclosing := nofun
  registered _ _ mem := (Namespace.getElem?_of_build built _ _ _).2 mem
  known _ name id mem :=
    (Namespace.getElem?_of_build built .value name id).2 (h.registered_of_mem_bindings rfl mem [])

/-- All references are resolved alike in rearranged trees. -/
theorem scopes_same (h : Rearranged .outermost left right) (distinct : left.Distinct)
    (proper : left.ProperlyNamed) (built : Namespace.build left = .ok names)
    (again : Namespace.build right = .ok others) :
    ∃ scope other, (Scope.build left names none).1 = .ok scope ∧
      (Scope.build right others none).1 = .ok other ∧
      (∀ kind, (scope.known kind).Equiv (other.known kind)) ∧
      ∀ kind, (scope.undefined kind).Equiv (other.undefined kind) := by
  obtain ⟨scope, resolved, known, undefined⟩ := build_finds h distinct names
  obtain ⟨other, resolvedAgain, knownAgain, undefinedAgain⟩ :=
    build_finds h.symm (h.distinct distinct) others
  have found := h.findings_perm (h.foreseen_outermost proper built)
  rw [h.lookup_eq built again] at knownAgain undefinedAgain
  refine ⟨scope, other, resolved, resolvedAgain, fun kind => ?_, fun kind => ?_⟩
  · refine .of_forall_constGet?_eq fun id => Option.ext fun declaration => ?_
    rw [known, knownAgain, found.mem_iff]
  · refine .of_forall_mem_iff fun id => ?_
    rw [undefined, undefinedAgain, found.mem_iff]

end Built

end Rearranged

end DeclLang
