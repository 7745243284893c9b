import DeclLang.Proofs.Counterparts
import DeclLang.Proofs.SolvedTypes
import DeclLang.Proofs.TypeVariants

/-!
# Compilation does not depend on the order of declarations

**Input.**  An orderly tree, and the same tree with the declarations of its programs and namespaces
in another order.

**Argument.**  References are resolved alike in both trees, so an account of the types of one tree
fits the other.  The types found by inference are more general than those of every account that
fits.  Hence what is found in each tree is an instance of what is found in the other, and types that
are instances of each other differ in the names of variables only.

**Results.**
* `Typing.Covers.variants`: two typings whose solved types are instances of each other have the same
  solved types, up to one renaming of variables.
* `Compilation.ofTree_reordered`: both trees are compiled or none of them is, to results that say
  the same about names and types.
* `Compilation.order_matters`: no condition on the trees can be dropped.
-/

namespace DeclLang

open Inference

namespace Typing

/-- What the constraints of a typing make of a type. -/
def solve (typing : Typing) (type : StaticType) : StaticType :=
  (({} : Unifier).solveAll typing.constraints.toList).finish.apply type

/-- Whatever has a type in the typing has one in the other typing, and under the assignment its
solved type becomes the solved type there. -/
structure Covers (typing other : Typing) (assignment : Assignment) : Prop where
  nodes : ∀ (id : NodeId) (type : StaticType), typing.nodes[id]? = some type →
    ∃ own, other.nodes[id]? = some own ∧
      ((typing.solve type).instantiate assignment).Agrees (other.solve own)
  declarations : ∀ (id : NodeId) (type : StaticType), typing.declarations[id]? = some type →
    ∃ own, other.declarations[id]? = some own ∧
      ((typing.solve type).instantiate assignment).Agrees (other.solve own)

section Covers

variable {typing other : Typing} {there back : Assignment}

/-- If types that are found on either side are found on the other side too, as instances of each
other, then they are the same up to the names of variables. -/
theorem rel_variants {type? other? : Option StaticType}
    (forth : ∀ type, type? = some type → ∃ own, other? = some own ∧
      ((typing.solve type).instantiate there).Agrees (other.solve own))
    (again : ∀ type, other? = some type → ∃ own, type? = some own ∧
      ((other.solve type).instantiate back).Agrees (typing.solve own)) :
    Option.Rel (fun type own => StaticType.Variants there.rename back.rename
      (typing.solve type) (other.solve own)) type? other? := by
  cases type? with
  | some type =>
    obtain ⟨own, rfl, instanceOf⟩ := forth type rfl
    obtain ⟨_, same, generalizes⟩ := again own rfl
    cases same
    exact .some (StaticType.variants instanceOf generalizes)
  | none =>
    cases other? with
    | none => exact .none
    | some own =>
      obtain ⟨_, absent, -⟩ := again own rfl
      cases absent

/-- Typings that cover each other have the same solved types, up to one renaming of variables. -/
theorem Covers.variants (forth : typing.Covers other there) (again : other.Covers typing back)
    (id : NodeId) :
    Option.Rel (StaticType.Variants there.rename back.rename)
      ((typing.typeOf? id).map typing.solve) ((other.typeOf? id).map other.solve) := by
  have nodes := rel_variants (forth.nodes id) (again.nodes id)
  have declarations := rel_variants (forth.declarations id) (again.declarations id)
  unfold typeOf?
  generalize typing.nodes[id]? = type?, other.nodes[id]? = other? at nodes
  cases nodes with
  | some variants => exact .some variants
  | none =>
    rw [Option.none_or, Option.none_or]
    generalize typing.declarations[id]? = type?, other.declarations[id]? = other? at declarations
    cases declarations with
    | some variants => exact .some variants
    | none => exact .none

end Covers

end Typing

namespace Rearranged

variable {left right : Node} (h : Rearranged .outermost left right) (distinct : left.Distinct)
  {index others : NodeIndex} (built : NodeIndex.build left = .ok index)
  (again : NodeIndex.build right = .ok others) {scope other : Scope}
  (known : ∀ kind, (scope.known kind).Equiv (other.known kind))

include h distinct built again known

/-- If the constraints of a tree are solved without an error, then so are those of the rearranged
tree, whose types are then at least as general. -/
theorem covers (supply supply' : VariableSupply)
    (solved : (({} : Unifier).solveAll
      (Typing.infer left scope index supply).constraints.toList).errors = #[]) :
    (({} : Unifier).solveAll
      (Typing.infer right other others supply').constraints.toList).errors = #[] ∧
    ∃ assignment, (Typing.infer right other others supply').Covers
      (Typing.infer left scope index supply) assignment := by
  have account := h.fits built again (h.sameReferences built again known)
    (Typing.fits_of_solved distinct built h.tidy h.not_isCase solved)
  obtain ⟨assignment, unifies, nodes, declarations⟩ := account.realized again supply'
  obtain ⟨errors, acyclic, respects⟩ := Unifier.respects_of_unifies unifies
  refine ⟨errors, assignment, fun id type found => ?_, fun id type found => ?_⟩
  · obtain ⟨own, known, stands⟩ := nodes id type found
    exact ⟨own, known, (Unifier.finish_mostGeneral acyclic respects type).trans stands⟩
  · obtain ⟨own, known, matched⟩ := declarations id type found
    exact ⟨own, known, (Unifier.finish_mostGeneral acyclic respects type).trans matched.stands⟩

end Rearranged

/-- The namespaces have the same declarations. -/
def Namespace.Equiv (names others : Namespace) : Prop :=
  ∀ kind, (names.table kind).Equiv (others.table kind)

/-- Two outcomes agree if none of them is a success, or if both are and their results are
related. -/
inductive OutcomesAgree {ε α : Type} (R : α → α → Prop) : Except ε α → Except ε α → Prop
  | failed (error other : ε) : OutcomesAgree R (.error error) (.error other)
  | succeeded {result other : α} (related : R result other) :
    OutcomesAgree R (.ok result) (.ok other)

section Outcomes

variable {ε α : Type} {R : α → α → Prop}

theorem OutcomesAgree.refl (related : ∀ result, R result result) (outcome : Except ε α) :
    OutcomesAgree R outcome outcome := by
  cases outcome with
  | error error => exact .failed error error
  | ok result => exact .succeeded (related result)

theorem OutcomesAgree.of_iff {outcome other : Except ε α}
    (both : (∃ result, outcome = .ok result) ↔ ∃ result, other = .ok result)
    (related : ∀ result result', outcome = .ok result → other = .ok result' → R result result') :
    OutcomesAgree R outcome other := by
  cases outcome with
  | ok result =>
    obtain ⟨result', rfl⟩ := both.1 ⟨result, rfl⟩
    exact .succeeded (related result result' rfl rfl)
  | error error =>
    cases other with
    | error error' => exact .failed error error'
    | ok result' =>
      obtain ⟨_, succeeds⟩ := both.2 ⟨result', rfl⟩
      cases succeeds

end Outcomes

namespace Compilation

/-- The compilations say the same about names and types.  Variables that were not solved may have
other names, but the names are changed in the same way in all types. -/
structure Alike (left right : Compilation) : Prop where
  names : left.names.Equiv right.names
  known : ∀ kind, (left.scope.known kind).Equiv (right.scope.known kind)
  undefined : ∀ kind, (left.scope.undefined kind).Equiv (right.scope.undefined kind)
  accepted : left.unifier.errors = #[] ↔ right.unifier.errors = #[]
  types : left.unifier.errors = #[] → ∃ rename back, ∀ id,
    Option.Rel (StaticType.Variants rename back) (left.solvedType? id) (right.solvedType? id) ∧
    (left.passes ≠ 0 → right.passes ≠ 0 →
      Option.Rel (StaticType.Variants rename back) (left.resolvedType? id)
        (right.resolvedType? id))

theorem Alike.refl (compilation : Compilation) : Alike compilation compilation where
  names _ := .rfl
  known _ := .rfl
  undefined _ := .rfl
  accepted := .rfl
  types _ := by
    have same (type? : Option StaticType) : Option.Rel (StaticType.Variants id id) type? type? := by
      cases type? with
      | none => exact .none
      | some type => exact .some ⟨congrArg _ type.mapLeaves_leaves, fun _ _ => rfl⟩
    exact ⟨id, id, fun _ => ⟨same _, fun _ _ => same _⟩⟩

section Stages

variable {options : Options} {root : Node} {focus : Option NodeId} {before after : Reports}
  {compilation : Compilation}
  (compiled : ofTree options root focus before = (.ok compilation, after))

include compiled

theorem names_of_ofTree : Namespace.build root = .ok compilation.names := by
  unfold ofTree at compiled
  obtain ⟨index, _, -, compiled⟩ := Step.bind_ok_inv compiled
  obtain ⟨names, _, named, compiled⟩ := Step.bind_ok_inv compiled
  obtain ⟨scope, _, -, compiled⟩ := Step.bind_ok_inv compiled
  obtain ⟨unifier, _, -, compiled⟩ := Step.bind_ok_inv compiled
  cases compiled
  exact ofExcept_ok named

theorem scope_of_ofTree :
    (Scope.build root compilation.names focus).1 = .ok compilation.scope := by
  unfold ofTree at compiled
  obtain ⟨index, _, -, compiled⟩ := Step.bind_ok_inv compiled
  obtain ⟨names, _, -, compiled⟩ := Step.bind_ok_inv compiled
  obtain ⟨scope, _, resolved, compiled⟩ := Step.bind_ok_inv compiled
  obtain ⟨unifier, _, -, compiled⟩ := Step.bind_ok_inv compiled
  cases compiled
  unfold resolveNames at resolved
  obtain ⟨_, _, -, resolved⟩ := Step.bind_ok_inv resolved
  exact ofExcept_ok resolved

theorem solvedType?_eq (id : NodeId) : compilation.solvedType? id =
    (compilation.typing.typeOf? id).map compilation.typing.solve := by
  unfold solvedType?
  rw [solution_of_ofTree compiled, unifier_of_ofTree compiled]
  rfl

end Stages

/-- A tree is compiled if its identities are distinct and its declarations do not collide. -/
theorem compiles_iff (options : Options) (root : Node) (before : Reports) :
    (∃ compilation, (ofTree options root none before).1 = .ok compilation) ↔
      root.Distinct ∧ ∃ names, Namespace.build root = .ok names := by
  constructor
  · rintro ⟨compilation, succeeds⟩
    have compiled : ofTree options root none before = (.ok compilation, _) := Prod.ext succeeds rfl
    have distinct := (consistent_of_ofTree compiled).distinct
    rw [root_of_ofTree compiled] at distinct
    exact ⟨distinct, _, names_of_ofTree compiled⟩
  · rintro ⟨distinct, names, named⟩
    obtain ⟨index, indexed⟩ := NodeIndex.build_ok distinct
    obtain ⟨scope, diagnostics, resolved⟩ := Scope.build_balanced root names none
    obtain ⟨compilation, after, compiled, -⟩ :=
      ofTree_ok indexed named (congrArg Prod.fst resolved) options before
    exact ⟨compilation, congrArg Prod.fst compiled⟩

section Reordered

variable {options : Options} {root other : Node} {before : Reports}

/-- Rearranged trees have the same names. -/
theorem names_equiv (h : Rearranged .outermost root other) {names others : Namespace}
    (built : Namespace.build root = .ok names) (again : Namespace.build other = .ok others) :
    names.Equiv others := by
  intro kind
  refine .of_forall_constGet?_eq fun path => ?_
  exact (congrFun (congrFun (h.lookup_eq built again) kind) path).symm

/-- Rearranged trees are compiled to results that say the same. -/
theorem alike_of_rearranged (h : Rearranged .outermost root other) (proper : root.ProperlyNamed)
    {left right : Compilation} {after after' : Reports}
    (compiled : ofTree options root none before = (.ok left, after))
    (again : ofTree options other none before = (.ok right, after')) : Alike left right := by
  obtain ⟨own, built, supply, inferred⟩ := typing_of_ofTree compiled
  obtain ⟨own', built', supply', inferred'⟩ := typing_of_ofTree again
  have distinct := (consistent_of_ofTree compiled).distinct
  rw [own] at built inferred distinct
  rw [own'] at built' inferred'
  have named := names_of_ofTree compiled
  have named' := names_of_ofTree again
  obtain ⟨scope, scope', resolved, resolved', known, undefined⟩ :=
    h.scopes_same distinct proper named named'
  cases resolved.symm.trans (scope_of_ofTree compiled)
  cases resolved'.symm.trans (scope_of_ofTree again)
  -- Each direction of the equivalence gives what the other direction needs.
  have forth := h.symm.covers (h.distinct distinct) built' built (fun kind => (known kind).symm)
    supply' supply
  have back := h.covers distinct built built' known supply supply'
  rw [← inferred, ← inferred'] at forth back
  have accepted : left.unifier.errors = #[] ↔ right.unifier.errors = #[] := by
    rw [unifier_of_ofTree compiled, unifier_of_ofTree again]
    exact ⟨fun solved => (back solved).1, fun solved => (forth solved).1⟩
  refine ⟨names_equiv h named named', known, undefined, accepted, fun solved => ?_⟩
  have solved' := accepted.1 solved
  rw [unifier_of_ofTree compiled] at solved
  rw [unifier_of_ofTree again] at solved'
  obtain ⟨-, there, covers⟩ := forth solved'
  obtain ⟨-, here, covered⟩ := back solved
  refine ⟨there.rename, here.rename, fun id => ?_⟩
  have variants := covers.variants covered id
  rw [← solvedType?_eq compiled, ← solvedType?_eq again] at variants
  refine ⟨variants, fun some some' => ?_⟩
  rw [resolvedType?_eq compiled some, resolvedType?_eq again some']
  exact variants

/-- The order of the declarations in programs and namespaces does not matter. -/
theorem ofTree_reordered {root other : Node} (proper : root.ProperlyNamed) (orderly : root.Orderly)
    (reordered : root.Reordered other) (options : Options) (before : Reports) :
    OutcomesAgree Namespace.Equiv (Namespace.build root) (Namespace.build other) ∧
    OutcomesAgree Alike (ofTree options root none before).1
      (ofTree options other none before).1 := by
  rcases reordered.rearranged orderly with rfl | h
  · exact ⟨.refl (fun _ _ => .rfl) _, .refl .refl _⟩
  constructor
  · exact .of_iff h.names_iff fun _ _ => names_equiv h
  · refine .of_iff ?_ fun left right compiled again => ?_
    · rw [compiles_iff, compiles_iff, h.names_iff]
      exact and_congr_left' ⟨h.distinct, h.symm.distinct⟩
    · exact alike_of_rearranged h proper (Prod.ext compiled rfl) (Prod.ext again rfl)

end Reordered

/-- A variable that reads another one. -/
def reader : Node :=
  .mk 5 (.variableDecl "y" none (some (.mk 6 (.identifier "x"))))

/-- The variable that is read. -/
def source : Node :=
  .mk 7 (.variableDecl "x" none (some (.mk 8 (.literal (.boolean true)))))

/-- Two declarations, the first of them first or last. -/
def either {α : Type} (swapped : Bool) (first second : α) : List α :=
  if swapped then [second, first] else [first, second]

theorem either_perm {α : Type} (first second : α) :
    (either false first second).Perm (either true first second) :=
  .swap _ _ _

theorem either_parts (first second : Node) :
    ∀ pair ∈ either false (first, first) (second, second), pair.1.Reordered pair.2 := by
  simpa [either] using ⟨.refl first, .refl second⟩

/-- A namespace with both variables. -/
def readerSpace (swapped : Bool) : Node :=
  .mk 4 (.namespaceDecl "N" (either swapped reader source))

theorem readerSpace_reordered : (readerSpace false).Reordered (readerSpace true) :=
  @Node.Reordered.mk 4 (.namespaceDecl "N" (either false (reader, reader) (source, source)))
    (.namespaceDecl "N" (either true (reader, reader) (source, source)))
    (.namespaceDecl "N" (either_perm _ _)) (either_parts reader source)

/-- A program of that namespace alone. -/
def readerProgram (swapped : Bool) : Node :=
  .mk 0 (.program [readerSpace swapped])

theorem readerProgram_reordered : (readerProgram false).Reordered (readerProgram true) :=
  @Node.Reordered.mk 0 (.program [(readerSpace false, readerSpace true)]) _ (.refl _)
    (by simpa [Kind.children] using readerSpace_reordered)

/-- It does not matter which of the variables comes first: both programs are compiled, and the
reader stands for the same declaration. -/
theorem ofTree_reordered_reader :
    (readerProgram false).ProperlyNamed ∧ (readerProgram false).Orderly ∧
    ∃ left right after after', ofTree {} (readerProgram false) none {} = (.ok left, after) ∧
      ofTree {} (readerProgram true) none {} = (.ok right, after') ∧ Alike left right ∧
      left.scope.resolve 6 = some 7 := by
  have proper : (readerProgram false).ProperlyNamed := by decide +kernel
  have orderly : (readerProgram false).Orderly := by constructor <;> decide +kernel
  have checked : ((ofTree {} (readerProgram false) none {}).1.toOption.bind fun compilation =>
      some (compilation.scope.resolve 6)) = some (some 7) := by decide +kernel
  obtain ⟨left, compiled, resolved⟩ := compiled_of_toOption checked
  have agree := (ofTree_reordered proper orderly readerProgram_reordered {} {}).2
  rw [compiled] at agree
  generalize again : ofTree {} (readerProgram true) none {} = outcome at agree
  obtain ⟨outcome, after'⟩ := outcome
  cases agree with
  | succeeded alike =>
    exact ⟨proper, orderly, left, _, _, _, compiled, rfl, alike, Option.some.inj resolved⟩

/-- The declarations stand in place and no record has a field, and still a reference stands for
something else when the declarations come in another order. -/
structure OrderMatters (root other : Node) : Prop where
  proper : root.ProperlyNamed
  inPlace : ∀ node ∈ root.preorder, node.DeclaresInPlace
  fieldless : ∀ record ∈ root.preorder, record.IsRecord →
    ∀ child ∈ record.children, child.isVariable = false
  reordered : root.Reordered other
  differ : ∃ left right after after' reference, ofTree {} root none {} = (.ok left, after) ∧
    ofTree {} other none {} = (.ok right, after') ∧
    left.scope.resolve reference ≠ right.scope.resolve reference

/-- The reader, before or after another declaration of the program. -/
def besideReader (declaration : Node) (swapped : Bool) : Node :=
  .mk 0 (.program (either swapped reader declaration))

theorem besideReader_reordered (declaration : Node) :
    (besideReader declaration false).Reordered (besideReader declaration true) :=
  @Node.Reordered.mk 0 (.program (either false (reader, reader) (declaration, declaration)))
    (.program (either true (reader, reader) (declaration, declaration)))
    (.program (either_perm _ _)) (either_parts reader declaration)

/-- A program of one function, whose body is one statement. -/
def insideFunction (statement : Node) : Node :=
  .mk 0 (.program [.mk 1 (.functionDecl "f" [] [] (.mk 2 (.typeName "Unit" [])) [statement])])

theorem insideFunction_reordered {statement other : Node} (h : statement.Reordered other) :
    (insideFunction statement).Reordered (insideFunction other) := by
  have function := @Node.Reordered.mk 1
    (.functionDecl "f" [] [] (.mk 2 (.typeName "Unit" []), .mk 2 (.typeName "Unit" []))
      [(statement, other)]) _ (.refl _) (by simpa [Kind.children] using ⟨.refl _, h⟩)
  exact @Node.Reordered.mk 0 (.program [(_, _)]) _ (.refl _)
    (by simpa [Kind.children, Kind.map] using function)

/-- A record with a function in it, which is bound around the record. -/
def recordWithFunction : Node :=
  .mk 1 (.recordDecl "R" []
    [.mk 2 (.functionDecl "x" [] [] (.mk 3 (.typeName "Unit" [])) [])])

/-- A record in which a function has a local variable, which is bound around the record. -/
def recordWithLocal : Node :=
  .mk 1 (.recordDecl "R" [] [.mk 2 (.namespaceDecl "N"
    [.mk 3 (.functionDecl "f" [] [] (.mk 4 (.typeName "Unit" [])) [source])])])

/-- A branch around a declaration. -/
def inBranch (declaration : Node) : Node :=
  .mk 3 (.branch (.mk 9 (.literal (.boolean true))) [declaration])

theorem inBranch_reordered {declaration other : Node} (h : declaration.Reordered other) :
    (inBranch declaration).Reordered (inBranch other) :=
  @Node.Reordered.mk 3
    (.branch (.mk 9 (.literal (.boolean true)), .mk 9 (.literal (.boolean true)))
      [(declaration, other)]) _ (.refl _) (by simpa [Kind.children] using ⟨.refl _, h⟩)

/-- A program in which one variable reads the other. -/
def innerProgram (swapped : Bool) : Node :=
  .mk 4 (.program (either swapped reader source))

theorem innerProgram_reordered : (innerProgram false).Reordered (innerProgram true) :=
  @Node.Reordered.mk 4 (.program (either false (reader, reader) (source, source)))
    (.program (either true (reader, reader) (source, source)))
    (.program (either_perm _ _)) (either_parts reader source)

theorem orderMatters_of_checked {root other : Node} (reordered : root.Reordered other)
    (wellFormed : root.ProperlyNamed ∧ (∀ node ∈ root.preorder, node.DeclaresInPlace) ∧
      ∀ record ∈ root.preorder, record.IsRecord →
        ∀ child ∈ record.children, child.isVariable = false)
    {declaration? declaration'? : Option NodeId}
    (first : ((ofTree {} root none {}).1.toOption.bind fun compilation =>
      some (compilation.scope.resolve 6)) = some declaration?)
    (second : ((ofTree {} other none {}).1.toOption.bind fun compilation =>
      some (compilation.scope.resolve 6)) = some declaration'?)
    (differ : declaration? ≠ declaration'?) : OrderMatters root other := by
  obtain ⟨left, compiled, resolved⟩ := compiled_of_toOption first
  obtain ⟨right, again, resolved'⟩ := compiled_of_toOption second
  refine ⟨wellFormed.1, wellFormed.2.1, wellFormed.2.2, reordered, left, right, _, _, 6, compiled,
    again, ?_⟩
  rwa [Option.some.inj resolved, Option.some.inj resolved']

/-- Every condition on orderly trees is needed: the order matters if there is a function in a
record, a variable deep in a record, a namespace in a branch, or a program in a function. -/
theorem order_matters :
    OrderMatters (besideReader recordWithFunction false) (besideReader recordWithFunction true) ∧
    OrderMatters (besideReader recordWithLocal false) (besideReader recordWithLocal true) ∧
    OrderMatters (insideFunction (inBranch (readerSpace false)))
      (insideFunction (inBranch (readerSpace true))) ∧
    OrderMatters (insideFunction (innerProgram false)) (insideFunction (innerProgram true)) := by
  refine ⟨?_, ?_, ?_, ?_⟩
  · exact orderMatters_of_checked (besideReader_reordered _) (by decide +kernel)
      (by decide +kernel : _ = some none) (by decide +kernel : _ = some (some 2)) nofun
  · exact orderMatters_of_checked (besideReader_reordered _) (by decide +kernel)
      (by decide +kernel : _ = some none) (by decide +kernel : _ = some (some 7)) nofun
  · exact orderMatters_of_checked
      (insideFunction_reordered (inBranch_reordered readerSpace_reordered)) (by decide +kernel)
      (by decide +kernel : _ = some none) (by decide +kernel : _ = some (some 7)) nofun
  · exact orderMatters_of_checked (insideFunction_reordered innerProgram_reordered)
      (by decide +kernel) (by decide +kernel : _ = some none)
      (by decide +kernel : _ = some (some 7)) nofun

end Compilation

end DeclLang
