import DeclLang.Proofs.AcceptedConstraints
import DeclLang.Proofs.NominalTypes

/-!
# Solved types

**Input.**  Constraints between types, which are solved in order.

**Invariant.**  `Substitution.LabelFree`: no type that a variable is bound to has labels.  Solving
takes types apart and puts their parts in the place of variables, so it brings in no labels.

**Results.**
* `Unifier.labelFree_finish`: if no type in the constraints has labels, no solved type has labels.
* `Compilation.resolvedType?_eq`: the type that a compilation resolves for a node does not depend on
  the number of passes, if there is one.
-/

namespace DeclLang

namespace StaticType

/-- No argument of a function in the type has a label. -/
def LabelFree (type : StaticType) : Prop :=
  type.unlabeled = type

variable {name : String}

theorem labelFree_variable : (StaticType.variable name).LabelFree := by
  rw [LabelFree, unlabeled]

theorem labelFree_generic : (generic name).LabelFree := by
  rw [LabelFree, unlabeled]

theorem labelFree_constant_iff {parameters : List StaticType} :
    (constant name parameters).LabelFree ↔ ∀ type ∈ parameters, type.LabelFree := by
  unfold LabelFree
  rw [unlabeled, constant.injEq, eq_self_iff_true, true_and]
  constructor
  · intro same type mem
    exact List.map_inj_left.1 (same.trans (List.map_id _).symm) type mem
  · exact fun free => (List.map_congr_left free).trans (List.map_id _)

theorem labelFree_function_iff {arguments : List (Option String × StaticType)}
    {result : StaticType} : (function arguments result).LabelFree ↔
      (∀ argument ∈ arguments, argument.1 = none ∧ argument.2.LabelFree) ∧ result.LabelFree := by
  have each (argument : Option String × StaticType) :
      (none, argument.2.unlabeled) = argument ↔
        argument.1 = none ∧ argument.2.LabelFree := by
    obtain ⟨label?, type⟩ := argument
    rw [Prod.mk.injEq]
    exact and_congr_left fun _ => eq_comm
  unfold LabelFree
  rw [unlabeled, function.injEq]
  refine and_congr_left fun _ => ?_
  constructor
  · intro same argument mem
    exact (each argument).1 (List.map_inj_left.1 (same.trans (List.map_id _).symm) argument mem)
  · intro free
    exact (List.map_congr_left fun argument mem => (each argument).2 (free argument mem)).trans
      (List.map_id _)

theorem LabelFree.mapLeaves {onVariable onGeneric : String → StaticType} {type : StaticType}
    (free : type.LabelFree) (freeVariable : ∀ name, (onVariable name).LabelFree)
    (freeGeneric : ∀ name, (onGeneric name).LabelFree) :
    (type.mapLeaves onVariable onGeneric).LabelFree := by
  have same : (fun name => (onVariable name).unlabeled) = onVariable := funext freeVariable
  have same' : (fun name => (onGeneric name).unlabeled) = onGeneric := funext freeGeneric
  unfold LabelFree
  rw [unlabeled_mapLeaves, free, same, same']

end StaticType

namespace Substitution

/-- No type that a variable is bound to has labels. -/
def LabelFree (substitution : Substitution) : Prop :=
  ∀ name type, substitution.get? name = some type → type.LabelFree

variable {substitution : Substitution} (free : substitution.LabelFree) {type : StaticType}

theorem labelFree_empty : ({} : Substitution).LabelFree := by
  intro name type found
  rw [get?_empty] at found
  cases found

include free

theorem LabelFree.apply (typeFree : type.LabelFree) : (substitution.apply type).LabelFree := by
  refine typeFree.mapLeaves (fun name => ?_) fun _ => StaticType.labelFree_generic
  cases found : substitution.get? name with
  | none => exact StaticType.labelFree_variable
  | some bound => exact free name bound found

theorem LabelFree.resolveWithin (passes : Nat) (typeFree : type.LabelFree) :
    (substitution.resolveWithin passes type).LabelFree := by
  induction passes generalizing type with
  | zero => exact typeFree
  | succ passes ih =>
    have next := free.apply typeFree
    rw [Substitution.resolveWithin]
    split
    · exact next
    · exact ih next

theorem LabelFree.bind (name : String) (typeFree : type.LabelFree) :
    (substitution.bind name type).LabelFree := by
  intro other bound found
  rw [get?_bind] at found
  split at found
  · cases found
    exact typeFree
  · exact free other bound found

theorem LabelFree.normalize : substitution.normalize.LabelFree := by
  intro name type found
  rw [get?_normalize] at found
  obtain ⟨bound, known, rfl⟩ := Option.map_eq_some_iff.1 found
  exact free.resolveWithin _ (free name bound known)

end Substitution

namespace Equations

/-- No type in the equations has labels. -/
def LabelFree (equations : Equations) : Prop :=
  ∀ equation ∈ equations, equation.1.LabelFree ∧ equation.2.LabelFree

variable {equations rest : Equations} {name : String} {type : StaticType}

theorem labelFree_zip {left right : List StaticType} (first : ∀ type ∈ left, type.LabelFree)
    (second : ∀ type ∈ right, type.LabelFree) : LabelFree (left.zip right) :=
  fun _ mem => ⟨first _ (List.of_mem_zip mem).1, second _ (List.of_mem_zip mem).2⟩

theorem Splits.labelFree {head tail : StaticType} (splits : Splits head tail equations)
    (first : head.LabelFree) (second : tail.LabelFree) : equations.LabelFree := by
  cases splits with
  | constants =>
    rw [StaticType.labelFree_constant_iff] at first second
    exact labelFree_zip first second
  | functions =>
    rw [StaticType.labelFree_function_iff] at first second
    have parts {arguments : List (Option String × StaticType)}
        (free : ∀ argument ∈ arguments, argument.1 = none ∧ argument.2.LabelFree) :
        ∀ type ∈ arguments.map Prod.snd, type.LabelFree := by
      intro type mem
      obtain ⟨argument, among, rfl⟩ := List.mem_map.1 mem
      exact (free argument among).2
    exact List.forall_mem_cons.2
      ⟨⟨first.2, second.2⟩, labelFree_zip (parts first.1) (parts second.1)⟩

/-- Reduction brings in no labels. -/
theorem LabelFree.reduce (free : equations.LabelFree)
    (h : equations.reduce = .bind name type rest) : type.LabelFree ∧ rest.LabelFree := by
  fun_induction Equations.reduce equations with
  | case1 => cases h
  | case2 head tail equations demanded ih => exact ih (List.forall_mem_cons.1 free).2 h
  | case3 head tail equations other found demanded =>
    cases h
    obtain ⟨⟨first, second⟩, later⟩ := List.forall_mem_cons.1 free
    refine ⟨?_, later⟩
    rcases (demand_binding demanded).1 with ⟨-, rfl⟩ | ⟨-, rfl⟩
    · exact second
    · exact first
  | case4 head tail equations parts demanded ih =>
    obtain ⟨⟨first, second⟩, later⟩ := List.forall_mem_cons.1 free
    exact ih (List.forall_mem_append.2
      ⟨later, (splits_of_demand demanded).labelFree first second⟩) h
  | case5 => cases h

theorem LabelFree.replaceVariable (free : equations.LabelFree) (name : String)
    (typeFree : type.LabelFree) : (equations.replaceVariable name type).LabelFree := by
  have replaced {other : StaticType} (otherFree : other.LabelFree) :
      (other.replaceVariable name type).LabelFree := by
    refine otherFree.mapLeaves (fun _ => ?_) fun _ => StaticType.labelFree_generic
    split
    · exact typeFree
    · exact StaticType.labelFree_variable
  intro equation mem
  obtain ⟨before, among, rfl⟩ := List.mem_map.1 mem
  exact ⟨replaced (free before among).1, replaced (free before among).2⟩

end Equations

/-- Solving equations brings in no labels. -/
theorem Substitution.LabelFree.extend {substitution : Substitution} (free : substitution.LabelFree)
    {equations : Equations} (equationsFree : equations.LabelFree) :
    (substitution.extend equations).2.LabelFree := by
  fun_induction Substitution.extend substitution equations with
  | case1 => exact free
  | case2 => exact free
  | case3 substitution equations name type rest reduced ih =>
    obtain ⟨typeFree, restFree⟩ := equationsFree.reduce reduced
    exact ih (free.bind name typeFree) (restFree.replaceVariable name typeFree)

/-- Neither side of the constraint has labels. -/
def Constraint.LabelFree (constraint : Constraint) : Prop :=
  constraint.head.LabelFree ∧ constraint.tail.LabelFree

namespace Unifier

variable {unifier : Unifier}

theorem labelFree_solve (free : unifier.substitution.LabelFree) {constraint : Constraint}
    (constraintFree : constraint.LabelFree) :
    (unifier.solve constraint).substitution.LabelFree := by
  rw [substitution_solve]
  refine free.extend (List.forall_mem_singleton.2 ⟨?_, ?_⟩)
  · exact free.resolveWithin _ constraintFree.1
  · exact free.resolveWithin _ constraintFree.2

theorem labelFree_solveAll (free : unifier.substitution.LabelFree) {constraints : List Constraint}
    (all : ∀ constraint ∈ constraints, constraint.LabelFree) :
    (unifier.solveAll constraints).substitution.LabelFree := by
  induction constraints generalizing unifier with
  | nil => exact free
  | cons constraint constraints ih =>
    obtain ⟨first, later⟩ := List.forall_mem_cons.1 all
    exact ih (labelFree_solve free first) later

/-- If no type in the constraints has labels, no type in the solution has labels. -/
theorem labelFree_finish {constraints : List Constraint}
    (all : ∀ constraint ∈ constraints, constraint.LabelFree) :
    (({} : Unifier).solveAll constraints).finish.LabelFree :=
  (labelFree_solveAll Substitution.labelFree_empty all).normalize

end Unifier

namespace Compilation

/-- The solved type of a node, however many passes are made. -/
def solvedType? (compilation : Compilation) (id : NodeId) : Option StaticType :=
  (compilation.typing.typeOf? id).map compilation.solution.apply

section

variable {options : Options} {root : Node} {focus : Option NodeId} {before after : Reports}
  {compilation : Compilation}
  (compiled : ofTree options root focus before = (.ok compilation, after))

include compiled

theorem solution_of_ofTree : compilation.solution = compilation.unifier.finish := by
  unfold ofTree at compiled
  obtain ⟨index, _, -, compiled⟩ := Step.bind_ok_inv compiled
  obtain ⟨names, _, -, compiled⟩ := Step.bind_ok_inv compiled
  obtain ⟨scope, _, -, compiled⟩ := Step.bind_ok_inv compiled
  obtain ⟨unifier, _, -, compiled⟩ := Step.bind_ok_inv compiled
  cases compiled
  rfl

/-- What was solved has no cycle, whether or not there were type errors. -/
theorem acyclic_of_ofTree : compilation.unifier.substitution.Acyclic := by
  rw [unifier_of_ofTree compiled]
  exact (Unifier.extends_solveAll Substitution.acyclic_empty _).acyclic

/-- One pass is enough to resolve a type. -/
theorem resolveWithin_solution {passes : Nat} (some : passes ≠ 0) (type : StaticType) :
    compilation.solution.resolveWithin passes type = compilation.solution.apply type := by
  rw [solution_of_ofTree compiled]
  exact Substitution.resolveWithin_normalize (acyclic_of_ofTree compiled) some type

/-- One pass is enough to resolve the type of a node. -/
theorem resolvedType?_eq (some : compilation.passes ≠ 0) (id : NodeId) :
    compilation.resolvedType? id = compilation.solvedType? id := by
  unfold resolvedType? solvedType?
  congr 1
  funext type
  exact resolveWithin_solution compiled some type

end

end Compilation

end DeclLang
