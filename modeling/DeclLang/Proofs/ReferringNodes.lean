import DeclLang.Proofs.NominalTypes
import DeclLang.Proofs.References
import DeclLang.Proofs.ScopeTours

/-!
# Which nodes refer

**Results.**  `Scope.isReference_of_resolve`: what is resolved to a declaration is an identifier or
a member expression of the tree.  So in a compiled program only these have a declaration
(`Compilation.isReference_of_declaration`).
-/

namespace DeclLang

open Inference (IsReference)
open Step (Keeps Ensures)

namespace Scope

/-- Only identifiers and member expressions of the tree are resolved. -/
def Refers (root : Node) (progress : Progress) : Prop :=
  ∀ reference id, progress.scope.resolve reference = some id →
    ∃ node ∈ root.preorder, node.id = reference ∧ IsReference node

section Operations

variable {root : Node}

/-- A change that leaves resolved references as they are. -/
theorem change_refers {f : Scope → Scope}
    (same : ∀ scope reference, (f scope).resolve reference = scope.resolve reference) :
    Keeps (Refers root) (change f) :=
  Step.ensures_modify fun progress refers reference id found =>
    refers reference id ((same progress.scope reference).symm.trans found)

theorem modify_refers {f : Progress → Progress}
    (same : ∀ progress, (f progress).scope = progress.scope) :
    Keeps (Refers root) (modify f : Resolving PUnit) :=
  Step.ensures_modify fun progress refers reference id found => by
    rw [same] at found
    exact refers reference id found

theorem openDeclaration_refers (name : String) : Keeps (Refers root) (openDeclaration name) :=
  modify_refers fun _ => rfl

theorem closeDeclaration_refers : Keeps (Refers root) closeDeclaration :=
  modify_refers fun _ => rfl

theorem openValues_refers : Keeps (Refers root) openValues :=
  change_refers fun _ _ => rfl

theorem openGenerics_refers (generics : List Node) : Keeps (Refers root) (openGenerics generics) :=
  change_refers fun _ _ => rfl

theorem closeValues_refers : Keeps (Refers root) closeValues := by
  refine Step.ensures_get.bind fun progress _ => ?_
  split
  · exact change_refers fun _ _ => rfl
  · exact Step.ensures_throw _

theorem closeTypes_refers : Keeps (Refers root) closeTypes := by
  refine Step.ensures_get.bind fun progress _ => ?_
  split
  · exact change_refers fun _ _ => rfl
  · exact Step.ensures_throw _

theorem bindValue_refers (name : String) (id : NodeId) :
    Keeps (Refers root) (bindValue name id) := by
  refine Step.ensures_get.bind fun progress _ => ?_
  split
  · exact change_refers fun _ _ => rfl
  · exact Step.ensures_throw _

theorem warnUndefined_refers (what name : String) (id : NodeId) :
    Keeps (Refers root) (warnUndefined what name id) :=
  modify_refers fun _ => rfl

/-- An identifier or a member expression of the tree is resolved. -/
theorem insert_refers {node : Node} (mem : node ∈ root.preorder) (isReference : IsReference node)
    {f : Scope → Scope} (same : ∀ scope reference, reference ≠ node.id →
      (f scope).resolve reference = scope.resolve reference) : Keeps (Refers root) (change f) := by
  refine Step.ensures_modify fun progress refers reference id found => ?_
  by_cases own : reference = node.id
  · exact ⟨node, mem, own.symm, isReference⟩
  · exact refers reference id ((same progress.scope reference own).symm.trans found)

theorem resolveIdentifier_refers {id : NodeId} {name : String}
    (mem : .mk id (.identifier name) ∈ root.preorder) :
    Keeps (Refers root) (resolveIdentifier id name) := by
  refine Step.ensures_get.bind fun progress _ => ?_
  split
  · rename_i declaration _
    refine insert_refers mem (.inl ⟨name, rfl⟩) fun scope reference different => ?_
    exact congrArg (Option.or · _) (getElem?_insert_of_ne (Ne.symm different))
  · exact Ensures.bind (change_refers fun _ _ => rfl) fun _ _ => warnUndefined_refers _ _ _

theorem resolveMember_refers (names : Namespace) {id : NodeId} {object : Node} {member : String}
    (mem : .mk id (.member object member) ∈ root.preorder) :
    Keeps (Refers root) (resolveMember names (.mk id (.member object member)) member) := by
  refine Step.ensures_get.bind fun progress _ => ?_
  dsimp only
  split
  · rename_i declaration _
    refine insert_refers mem (.inr ⟨object, member, rfl⟩) fun scope reference different => ?_
    exact congrArg (Option.or _) (getElem?_insert_of_ne (Ne.symm different))
  · exact Ensures.bind (change_refers fun _ _ => rfl) fun _ _ => warnUndefined_refers _ _ _

theorem resolveTypeName_refers (names : Namespace) (id : NodeId) (name : String) :
    Keeps (Refers root) (resolveTypeName names id name) := by
  refine Step.ensures_get.bind fun progress _ => ?_
  split
  · exact change_refers fun _ _ => rfl
  · exact Ensures.bind (change_refers fun _ _ => rfl) fun _ _ => warnUndefined_refers _ _ _

theorem enter_refers {node : Node} (names : Namespace) (mem : node ∈ root.preorder) :
    Keeps (Refers root) (enter names node) := by
  have go (direction : Direction) : Keeps (Refers root) (pure direction : Resolving Direction) :=
    Step.ensures_pure trivial
  obtain ⟨id, kind⟩ := node
  cases kind with
  | namespaceDecl name declarations =>
    exact (openDeclaration_refers name).bind fun _ _ => Step.ensures_get.bind fun _ _ =>
      Ensures.bind (change_refers fun _ _ => rfl) fun _ _ => go _
  | functionDecl name generics parameters result body =>
    exact (bindValue_refers name id).bind fun _ _ => (openDeclaration_refers name).bind
      fun _ _ => openValues_refers.bind fun _ _ => (openGenerics_refers generics).bind
        fun _ _ => go _
  | recordDecl name generics declarations =>
    exact (openDeclaration_refers name).bind fun _ _ => (openGenerics_refers generics).bind
      fun _ _ => Ensures.bind (modify_refers fun _ => rfl) fun _ _ => go _
  | enumerationDecl name generics cases =>
    exact (openDeclaration_refers name).bind fun _ _ => (openGenerics_refers generics).bind
      fun _ _ => go _
  | branch | loop => exact openValues_refers.bind fun _ _ => go _
  | identifier name => exact (resolveIdentifier_refers mem).bind fun _ _ => go _
  | member object name => exact (resolveMember_refers names mem).bind fun _ _ => go _
  | typeName name arguments => exact (resolveTypeName_refers names id name).bind fun _ _ => go _
  | _ => exact go _

theorem leave_refers (node : Node) : Keeps (Refers root) (leave node) := by
  obtain ⟨id, kind⟩ := node
  cases kind with
  | namespaceDecl =>
    exact closeValues_refers.bind fun _ _ => closeTypes_refers.bind fun _ _ =>
      closeDeclaration_refers
  | functionDecl =>
    exact closeTypes_refers.bind fun _ _ => closeValues_refers.bind fun _ _ =>
      closeDeclaration_refers
  | recordDecl =>
    refine closeTypes_refers.bind fun _ _ => closeDeclaration_refers.bind fun _ _ =>
      Step.ensures_get.bind fun progress _ => Ensures.bind (modify_refers fun _ => rfl)
        fun _ _ => Ensures.bind (Step.ensures_forIn fun field _ => ?_) fun _ _ =>
          Step.ensures_pure trivial
    exact (bindValue_refers field.1 field.2).bind fun _ _ => Step.ensures_pure rfl
  | enumerationDecl => exact closeTypes_refers.bind fun _ _ => closeDeclaration_refers
  | branch | loop => exact closeValues_refers
  | parameter name => exact bindValue_refers name id
  | variableDecl name =>
    refine Step.ensures_get.bind fun progress _ => ?_
    split
    · exact modify_refers fun _ => rfl
    · exact bindValue_refers name id
  | _ => exact Step.ensures_pure trivial

end Operations

/-- Only identifiers and member expressions of the tree are resolved to a declaration. -/
theorem isReference_of_resolve {root : Node} {names : Namespace} {focus : Option NodeId}
    {scope : Scope} {diagnostics : Diagnostics}
    (built : build root names focus = (.ok scope, diagnostics)) {reference id : NodeId}
    (resolved : scope.resolve reference = some id) :
    ∃ node ∈ root.preorder, node.id = reference ∧ IsReference node := by
  have toured : Keeps (Refers root) (root.tour (visitor names focus)) := by
    refine Node.tour_ensures (fun node mem => ?_) fun node _ => leave_refers node
    unfold visitor
    dsimp only
    split
    · exact Step.ensures_pure trivial
    · exact enter_refers names mem
  have start : Refers root { scope := outermost names } := nofun
  have kept := (toured _ start).1
  unfold build at built
  split at built
  · rename_i ended
    cases built
    rw [ended] at kept
    exact kept reference id resolved
  · cases built

end Scope

namespace Compilation

/-- In a compiled program, only identifiers and member expressions have a declaration. -/
theorem isReference_of_declaration {options : Options} {root : Node} {focus : Option NodeId}
    {before after : Reports} {compilation : Compilation}
    (compiled : ofTree options root focus before = (.ok compilation, after)) {node : Node}
    (inside : node ∈ compilation.root.preorder) {declaration : Node}
    (refers : compilation.environment.declaration? node.id = some declaration) :
    IsReference node := by
  have distinct := (consistent_of_ofTree compiled).distinct
  unfold ofTree at compiled
  obtain ⟨index, _, -, compiled⟩ := Step.bind_ok_inv compiled
  obtain ⟨names, _, -, compiled⟩ := Step.bind_ok_inv compiled
  obtain ⟨scope, _, resolves, compiled⟩ := Step.bind_ok_inv compiled
  obtain ⟨unifier, _, -, compiled⟩ := Step.bind_ok_inv compiled
  cases compiled
  obtain ⟨_, _, -, resolves⟩ := Step.bind_ok_inv resolves
  obtain ⟨id, resolved, -⟩ := Option.bind_eq_some_iff.1 refers
  obtain ⟨other, mem, same, isReference⟩ :=
    Scope.isReference_of_resolve (Prod.ext (ofExcept_ok resolves) rfl) resolved
  exact Node.eq_of_id_eq distinct mem inside same ▸ isReference

end Compilation

end DeclLang
