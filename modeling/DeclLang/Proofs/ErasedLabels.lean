import DeclLang.Proofs.FailedConstraints
import DeclLang.Proofs.ResolutionPasses

/-!
# Solving without labels

**Input.**  Two lists of constraints that only differ in the labels of function arguments.

**Argument.**  Each run is compared with the run on the constraints without labels.  Sides that are
the same without labels may still have different ones; such an equation is taken apart where the
other run drops it, but its parts are again the same without labels.  So the two queues always agree
in the equations between different types (`Equations.essential`), which is what reduction looks at.

**Results.**
* `Equations.demand_unlabeled`: sides that do not agree demand the same with and without labels.
* `Equations.reduce_unlabeled`: reduction comes to the same variable, or to the same failure.
* `Unifier.failures_unlabeled`: a run without labels has the same failures and the same bindings, up
  to labels.
* `Unifier.labels_irrelevant`: constraints with other labels fail in the same places for the same
  reasons, and the finished substitutions bind the same variables to types that agree.
-/

namespace DeclLang

open StaticType

namespace StaticType

/-- Labels are no variables. -/
theorem freeVariables_unlabeled (type : StaticType) :
    type.unlabeled.freeVariables = type.freeVariables := by
  induction type using parts_induction with
  | onVariable name => rw [unlabeled]
  | onGeneric name => rw [unlabeled]
  | onConstant name parameters ih =>
    rw [unlabeled, freeVariables, freeVariables, List.flatMap_map]
    exact List.flatMap_congr ih
  | onFunction arguments result ihArguments ihResult =>
    rw [unlabeled, freeVariables, freeVariables, List.flatMap_map, ihResult]
    exact congrArg (· ++ _) (List.flatMap_congr ihArguments)

theorem occurs_unlabeled (name : String) (type : StaticType) :
    type.unlabeled.occurs name = type.occurs name := by
  rw [occurs, occurs, freeVariables_unlabeled]

theorem unlabeled_replaceVariable (name : String) (replacement type : StaticType) :
    (type.replaceVariable name replacement).unlabeled =
      type.unlabeled.replaceVariable name replacement.unlabeled := by
  unfold replaceVariable
  rw [unlabeled_mapLeaves]
  refine mapLeaves_congr (fun other _ => ?_) fun other _ => ?_
  · split
    · rfl
    · rw [unlabeled]
  · rw [unlabeled]

end StaticType

/-- The error without the labels in its types. -/
def UnificationError.unlabeled : UnificationError → UnificationError
  | mismatch expected found => mismatch expected.unlabeled found.unlabeled
  | occursCheck name type => occursCheck name type.unlabeled
  | error => error

namespace Equations

/-- The equations without labels. -/
def unlabeled (equations : Equations) : Equations :=
  equations.map fun equation => (equation.1.unlabeled, equation.2.unlabeled)

theorem unlabeled_cons (head tail : StaticType) (rest : Equations) :
    unlabeled ((head, tail) :: rest) = (head.unlabeled, tail.unlabeled) :: rest.unlabeled :=
  rfl

theorem unlabeled_append (front back : Equations) :
    unlabeled (front ++ back) = front.unlabeled ++ back.unlabeled :=
  List.map_append ..

theorem unlabeled_zip (left right : List StaticType) :
    unlabeled (left.zip right) =
      (left.map StaticType.unlabeled).zip (right.map StaticType.unlabeled) := by
  rw [unlabeled, List.zip_map]
  rfl

theorem unlabeled_replaceVariable (name : String) (type : StaticType) (equations : Equations) :
    (equations.replaceVariable name type).unlabeled =
      equations.unlabeled.replaceVariable name type.unlabeled := by
  unfold unlabeled replaceVariable
  rw [List.map_map, List.map_map]
  refine List.map_congr_left fun equation _ => ?_
  simp only [Function.comp_apply, StaticType.unlabeled_replaceVariable]

/-- The demand without labels. -/
def Demand.unlabeled : Demand → Demand
  | nothing => nothing
  | binding name type => binding name type.unlabeled
  | parts equations => parts equations.unlabeled
  | impossible error => impossible error.unlabeled

/-- A variable on the right is bound if there is none on the left. -/
theorem demand_variable_right {name : String} {type : StaticType}
    (other : ∀ name, type ≠ .variable name) :
    demand type (.variable name) =
      if type.occurs name then .impossible (.occursCheck name type) else .binding name type := by
  unfold demand
  rw [if_neg (other name)]
  cases type using parts_induction with
  | onVariable name => exact absurd rfl (other name)
  | onGeneric => rfl
  | onConstant => rfl
  | onFunction => rfl

/-- Sides that do not agree demand the same with and without labels. -/
theorem demand_unlabeled {head tail : StaticType} (differ : ¬ head.Agrees tail) :
    demand head.unlabeled tail.unlabeled = (demand head tail).unlabeled := by
  have erased : head.unlabeled ≠ tail.unlabeled := differ
  have different : head ≠ tail := by
    rintro rfl
    exact differ (.refl _)
  by_cases left : ∃ name, head = .variable name
  · obtain ⟨name, rfl⟩ := left
    rw [StaticType.unlabeled] at erased ⊢
    rw [demand_variable erased, demand_variable different, occurs_unlabeled]
    split <;> rfl
  by_cases right : ∃ name, tail = .variable name
  · obtain ⟨name, rfl⟩ := right
    have other (name : String) (same : head.unlabeled = .variable name) : False := by
      cases head using parts_induction with
      | onVariable name => exact left ⟨name, rfl⟩
      | onGeneric | onConstant | onFunction => simp [StaticType.unlabeled] at same
    rw [StaticType.unlabeled, demand_variable_right other,
      demand_variable_right (fun name same => left ⟨name, same⟩), occurs_unlabeled]
    split <;> rfl
  unfold demand
  rw [if_neg different, if_neg erased]
  -- What is left has a head on both sides, which stays when labels are erased.
  cases head using parts_induction with
  | onVariable name => exact absurd ⟨name, rfl⟩ left
  | onGeneric name =>
    cases tail using parts_induction with
    | onVariable other => exact absurd ⟨other, rfl⟩ right
    | onGeneric | onConstant | onFunction =>
      simp only [StaticType.unlabeled, Demand.unlabeled, UnificationError.unlabeled]
  | onConstant name parameters =>
    cases tail using parts_induction with
    | onVariable other => exact absurd ⟨other, rfl⟩ right
    | onGeneric | onFunction =>
      simp only [StaticType.unlabeled, Demand.unlabeled, UnificationError.unlabeled]
    | onConstant other arguments =>
      simp only [StaticType.unlabeled, List.length_map, ← unlabeled_zip]
      split
      · simp only [Demand.unlabeled, UnificationError.unlabeled, StaticType.unlabeled]
      · split <;> rfl
  | onFunction parameters result =>
    cases tail using parts_induction with
    | onVariable other => exact absurd ⟨other, rfl⟩ right
    | onGeneric | onConstant =>
      simp only [StaticType.unlabeled, Demand.unlabeled, UnificationError.unlabeled]
    | onFunction arguments returned =>
      simp only [StaticType.unlabeled, List.length_map, List.map_map]
      split
      · rfl
      · rw [Demand.unlabeled, unlabeled_cons, unlabeled_zip, List.map_map, List.map_map]
        rfl

/-- Types without labels are taken apart in the same way. -/
theorem Splits.unlabeled {head tail : StaticType} {equations : Equations}
    (splits : Splits head tail equations) :
    Splits head.unlabeled tail.unlabeled equations.unlabeled :=
  splits.map (fun _ => none) (fun _ _ => by rw [StaticType.unlabeled])
    fun _ _ => by rw [StaticType.unlabeled]

/-- Only sides that do not agree ask for a binding. -/
theorem not_agrees_of_binding {head tail type : StaticType} {name : String}
    (h : demand head tail = .binding name type) : ¬ head.Agrees tail := by
  intro agrees
  obtain ⟨sides, absent⟩ := demand_binding h
  have erased : type.unlabeled = .variable name := by
    rcases sides with ⟨rfl, rfl⟩ | ⟨rfl, rfl⟩
    · rw [← agrees, StaticType.unlabeled]
    · rw [agrees, StaticType.unlabeled]
  refine absent ?_
  rw [← freeVariables_unlabeled, erased, StaticType.freeVariables]
  exact List.mem_singleton_self name

/-- Only sides that do not agree fail. -/
theorem not_agrees_of_failure {head tail : StaticType} {error : UnificationError}
    (h : demand head tail = .impossible error) : ¬ head.Agrees tail := by
  have never : ¬ (head.instantiate .variable).Agrees (tail.instantiate .variable) :=
    not_agrees_of_impossible h
  rwa [instantiate, instantiate, mapLeaves_leaves, mapLeaves_leaves] at never

/-- The parts of sides that agree are the same without labels. -/
theorem essential_parts {head tail : StaticType} {parts : Equations} (agrees : head.Agrees tail)
    (h : demand head tail = .parts parts) : parts.unlabeled.essential = [] := by
  have splits := (splits_of_demand h).unlabeled
  rw [show head.unlabeled = tail.unlabeled from agrees] at splits
  exact List.filter_eq_nil_iff.2 fun equation mem => by simpa using splits.same equation mem

/-- How a reduction ends, without labels. -/
def Reduction.unlabeled : Reduction → Reduction
  | solved => solved
  | bind name type rest => bind name type.unlabeled rest.unlabeled
  | failed error => failed error.unlabeled

theorem Reduction.Alike.trans {first second third : Reduction} (left : first.Alike second)
    (right : second.Alike third) : first.Alike third := by
  cases left with
  | solved => exact right
  | failed => exact right
  | bind name type same =>
    cases right with
    | bind _ _ further => exact .bind name type (same.trans further)

/-- Equations reduce alike with and without labels: to the same variable, or to the same failure. -/
theorem reduce_unlabeled (equations : Equations) :
    (reduce equations).unlabeled.Alike (reduce equations.unlabeled) := by
  fun_induction reduce equations with
  | case1 =>
    rw [show unlabeled [] = [] from rfl, reduce]
    exact .solved
  | case2 head tail rest demanded ih =>
    cases eq_of_demand_nothing demanded
    rw [unlabeled_cons, reduce_cons_self]
    exact ih
  | case3 head tail rest name type demanded =>
    rw [unlabeled_cons, reduce_cons, demand_unlabeled (not_agrees_of_binding demanded), demanded]
    exact .bind name type.unlabeled rfl
  | case4 head tail rest parts demanded ih =>
    rw [unlabeled_append] at ih
    by_cases agrees : head.Agrees tail
    · -- Without labels the equation is dropped, and the parts hold anyway.
      rw [unlabeled_cons, show head.unlabeled = tail.unlabeled from agrees, reduce_cons_self]
      refine ih.trans (reduce_alike ?_)
      rw [essential_append, essential_parts agrees demanded, List.append_nil]
    · rw [unlabeled_cons, reduce_cons, demand_unlabeled agrees, demanded]
      exact ih
  | case5 head tail rest error demanded =>
    rw [unlabeled_cons, reduce_cons, demand_unlabeled (not_agrees_of_failure demanded), demanded]
    exact .failed error.unlabeled

end Equations

namespace Substitution

/-- The first substitution binds what the second one binds, to the same types without labels. -/
def Erases (erased substitution : Substitution) : Prop :=
  ∀ name, erased.get? name = (substitution.get? name).map unlabeled

section Erases

variable {erased substitution : Substitution}

theorem erases_empty : Erases {} {} := by
  intro name
  rw [get?_empty, Option.map_none]

theorem Erases.bind (erases : Erases erased substitution) (name : String) (type : StaticType) :
    Erases (erased.bind name type.unlabeled) (substitution.bind name type) := by
  intro other
  rw [get?_bind, get?_bind, erases other]
  split <;> rfl

theorem Erases.size_eq (erases : Erases erased substitution) :
    erased.size = substitution.size := by
  rw [← length_boundNames, ← length_boundNames]
  refine List.Perm.length_eq ((List.perm_ext_iff_of_nodup ?_ ?_).2 fun name => ?_)
  · exact Std.TreeMap.nodup_keys
  · exact Std.TreeMap.nodup_keys
  · rw [mem_boundNames, mem_boundNames, erases name, Option.isSome_map]

theorem Erases.apply (erases : Erases erased substitution) (type : StaticType) :
    erased.apply type.unlabeled = (substitution.apply type).unlabeled := by
  unfold Substitution.apply
  rw [unlabeled_mapLeaves]
  refine mapLeaves_congr (fun name _ => ?_) fun name _ => ?_
  · rw [erases name]
    cases substitution.get? name with
    | none => rw [Option.map_none, Option.getD_none, unlabeled]
    | some type => rfl
  · rw [unlabeled]

theorem Erases.iterate (erases : Erases erased substitution) (passes : Nat) (type : StaticType) :
    erased.apply^[passes] type.unlabeled = (substitution.apply^[passes] type).unlabeled := by
  induction passes generalizing type with
  | zero => rfl
  | succ passes ih =>
    rw [Function.iterate_succ_apply, Function.iterate_succ_apply, erases.apply, ih]

/-- Resolving does not look at labels. -/
theorem Erases.resolveAll (erases : Erases erased substitution) (type : StaticType) :
    erased.resolveAll type.unlabeled = (substitution.resolveAll type).unlabeled := by
  unfold Substitution.resolveAll
  rw [resolveWithin_eq_iterate, resolveWithin_eq_iterate, erases.size_eq, erases.iterate]

theorem Erases.normalize (erases : Erases erased substitution) :
    Erases erased.normalize substitution.normalize := by
  intro name
  rw [get?_normalize, get?_normalize, erases name]
  cases substitution.get? name with
  | none => rfl
  | some type => exact congrArg some (erases.resolveAll type)

/-- Solving equations without labels ends in the same way. -/
theorem Erases.extend (erases : Erases erased substitution) (equations : Equations) :
    (erased.extend equations.unlabeled).1 =
        (substitution.extend equations).1.mapError UnificationError.unlabeled ∧
      Erases (erased.extend equations.unlabeled).2 (substitution.extend equations).2 := by
  fun_induction Substitution.extend substitution equations generalizing erased with
  | case1 substitution equations reduced =>
    have alike := equations.reduce_unlabeled
    rw [reduced] at alike
    rw [extend_eq]
    generalize equations.unlabeled.reduce = reduction at alike ⊢
    cases alike
    exact ⟨rfl, erases⟩
  | case2 substitution equations error reduced =>
    have alike := equations.reduce_unlabeled
    rw [reduced] at alike
    rw [extend_eq]
    generalize equations.unlabeled.reduce = reduction at alike ⊢
    cases alike
    exact ⟨rfl, erases⟩
  | case3 substitution equations name type rest reduced ih =>
    have alike := equations.reduce_unlabeled
    rw [reduced] at alike
    rw [extend_eq erased]
    generalize equations.unlabeled.reduce = reduction at alike ⊢
    cases alike with
    | bind _ _ same =>
      have ends := ih (erases.bind name type)
      rw [Equations.unlabeled_replaceVariable] at ends
      rwa [extend_alike (Equations.essential_replaceVariable name type.unlabeled same)] at ends

end Erases

end Substitution

/-- The constraint without labels. -/
def Constraint.unlabeled (constraint : Constraint) : Constraint :=
  ⟨constraint.head.unlabeled, constraint.tail.unlabeled, constraint.origin⟩

/-- The constraints differ in labels only. -/
structure Constraint.Relabeled (constraint other : Constraint) : Prop where
  head : constraint.head.Agrees other.head
  tail : constraint.tail.Agrees other.tail
  origin : constraint.origin = other.origin

theorem Constraint.Relabeled.unlabeled_eq {constraint other : Constraint}
    (relabeled : constraint.Relabeled other) : constraint.unlabeled = other.unlabeled := by
  unfold Constraint.unlabeled
  rw [relabeled.origin, show constraint.head.unlabeled = _ from relabeled.head,
    show constraint.tail.unlabeled = _ from relabeled.tail]

namespace Unifier

open Substitution

variable {erased unifier : Unifier}

/-- A constraint without labels fails for the same reason, and binds the same. -/
theorem solve_unlabeled (erases : Erases erased.substitution unifier.substitution)
    (constraint : Constraint) :
    erased.failure? constraint.unlabeled = (unifier.failure? constraint).map .unlabeled ∧
      Erases (erased.solve constraint.unlabeled).substitution
        (unifier.solve constraint).substitution := by
  have pending : erased.pending constraint.unlabeled = (unifier.pending constraint).unlabeled := by
    simp only [Unifier.pending, Equations.unlabeled, Constraint.unlabeled, List.map_cons,
      List.map_nil, erases.resolveAll]
  obtain ⟨ends, bound⟩ := erases.extend (unifier.pending constraint)
  rw [← pending] at ends bound
  refine ⟨?_, ?_⟩
  · rw [failure?, failure?, ends]
    cases (unifier.substitution.extend (unifier.pending constraint)).1 <;> rfl
  · rw [substitution_solve, substitution_solve]
    exact bound

/-- A run without labels has the same failures and the same bindings, up to labels. -/
theorem failures_unlabeled (erases : Erases erased.substitution unifier.substitution)
    (constraints : List Constraint) :
    erased.failures (constraints.map Constraint.unlabeled) =
        (unifier.failures constraints).map (Option.map .unlabeled) ∧
      Erases (erased.solveAll (constraints.map Constraint.unlabeled)).substitution
        (unifier.solveAll constraints).substitution := by
  induction constraints generalizing erased unifier with
  | nil => exact ⟨rfl, erases⟩
  | cons constraint constraints ih =>
    obtain ⟨first, bound⟩ := solve_unlabeled erases constraint
    obtain ⟨rest, final⟩ := ih bound
    exact ⟨by rw [List.map_cons, failures, failures, List.map_cons, first, rest], final⟩

theorem blame_unlabeled (constraints : List Constraint)
    (failures : List (Option UnificationError)) :
    blame (constraints.map Constraint.unlabeled) (failures.map (Option.map .unlabeled)) =
      (blame constraints failures).map (Prod.map id .unlabeled) := by
  induction constraints generalizing failures with
  | nil => rfl
  | cons constraint constraints ih =>
    cases failures with
    | nil => rfl
    | cons failure failures =>
      rw [List.map_cons, List.map_cons, blame_cons, blame_cons, ih, List.map_append]
      cases failure <;> rfl

/-- The run on constraints without labels reports the failures without labels, and finishes with the
bindings without labels. -/
theorem solveAll_unlabeled (constraints : List Constraint) :
    let erased := ({} : Unifier).solveAll (constraints.map Constraint.unlabeled)
    let unifier := ({} : Unifier).solveAll constraints
    ({} : Unifier).failures (constraints.map Constraint.unlabeled) =
        (({} : Unifier).failures constraints).map (Option.map .unlabeled) ∧
      erased.errors.toList = unifier.errors.toList.map (Prod.map id .unlabeled) ∧
      Erases erased.finish unifier.finish := by
  have empty : Erases ({} : Unifier).substitution ({} : Unifier).substitution := erases_empty
  obtain ⟨failures, bound⟩ := failures_unlabeled empty constraints
  refine ⟨failures, ?_, bound.normalize⟩
  rw [errors_solveAll, errors_solveAll, failures, blame_unlabeled]
  rfl

/-- Labels decide nothing.  If two lists of constraints differ in the labels of function arguments
only, the same constraints fail, for reasons that are the same up to labels, and blame the same
nodes; and the finished substitutions bind the same variables, to types that are the same up to
labels. -/
theorem labels_irrelevant {constraints others : List Constraint}
    (relabeled : List.Forall₂ Constraint.Relabeled constraints others) :
    let left := ({} : Unifier).solveAll constraints
    let right := ({} : Unifier).solveAll others
    (({} : Unifier).failures constraints).map (Option.map UnificationError.unlabeled) =
      (({} : Unifier).failures others).map (Option.map UnificationError.unlabeled) ∧
    left.errors.toList.map (Prod.map id UnificationError.unlabeled) =
      right.errors.toList.map (Prod.map id UnificationError.unlabeled) ∧
    (∀ name, (left.finish.get? name).isSome = (right.finish.get? name).isSome) ∧
    ∀ name type other, left.finish.get? name = some type → right.finish.get? name = some other →
      type.Agrees other := by
  intro left right
  have same : constraints.map Constraint.unlabeled = others.map Constraint.unlabeled := by
    induction relabeled with
    | nil => rfl
    | cons first _ ih => rw [List.map_cons, List.map_cons, first.unlabeled_eq, ih]
  obtain ⟨leftFailures, leftErrors, leftErases⟩ := solveAll_unlabeled constraints
  obtain ⟨rightFailures, rightErrors, rightErases⟩ := solveAll_unlabeled others
  rw [same] at leftFailures leftErrors leftErases
  have bindings (name : String) :
      (left.finish.get? name).map StaticType.unlabeled =
        (right.finish.get? name).map StaticType.unlabeled :=
    (leftErases name).symm.trans (rightErases name)
  refine ⟨leftFailures.symm.trans rightFailures, leftErrors.symm.trans rightErrors,
    fun name => ?_, fun name type other found foundToo => ?_⟩
  · have defined := congrArg Option.isSome (bindings name)
    rwa [Option.isSome_map, Option.isSome_map] at defined
  · have agree := bindings name
    rw [found, foundToo] at agree
    exact Option.some.inj agree

/-- The type of a function with one argument that has a label. -/
def labeledFunction (label : String) (argument result : StaticType) : StaticType :=
  .function [(some label, argument)] result

/-- Constraints with a label that can be chosen.  The two sides of the third one are the same for
one choice only; the last two constraints cannot be solved. -/
def labeledConstraints (label : String) : List Constraint :=
  [⟨labeledFunction label (.variable "?a") (.variable "?b"),
      labeledFunction "y" .number .string, 1⟩,
    ⟨.variable "?c", labeledFunction label (.variable "?d") .number, 2⟩,
    ⟨labeledFunction "x" (.variable "?e") .number,
      labeledFunction label (.variable "?e") .number, 3⟩,
    ⟨.variable "?c", .string, 4⟩,
    ⟨.variable "?e", labeledFunction label (.variable "?e") .number, 5⟩]

theorem relabeled_labeledConstraints (label other : String) :
    List.Forall₂ Constraint.Relabeled (labeledConstraints label) (labeledConstraints other) := by
  have agrees (argument result : StaticType) :
      (labeledFunction label argument result).Agrees (labeledFunction other argument result) := by
    simp only [labeledFunction, Agrees, unlabeled, List.map_cons, List.map_nil]
  unfold labeledConstraints
  refine .cons ⟨agrees .., .refl _, rfl⟩ <| .cons ⟨.refl _, agrees .., rfl⟩ <|
    .cons ⟨.refl _, agrees .., rfl⟩ <| .cons ⟨.refl _, .refl _, rfl⟩ <|
    .cons ⟨.refl _, agrees .., rfl⟩ .nil

/-- With another label, the errors and the bindings are written differently, and say the same. -/
theorem labels_irrelevant_renamed :
    let left := ({} : Unifier).solveAll (labeledConstraints "x")
    let right := ({} : Unifier).solveAll (labeledConstraints "z")
    List.Forall₂ Constraint.Relabeled (labeledConstraints "x") (labeledConstraints "z") ∧
    left.errors = #[
      (4, .mismatch (labeledFunction "x" (.variable "?d") .number) .string),
      (5, .occursCheck "?e" (labeledFunction "x" (.variable "?e") .number))] ∧
    right.errors ≠ left.errors ∧
    left.errors.toList.map (Prod.map id UnificationError.unlabeled) =
      right.errors.toList.map (Prod.map id UnificationError.unlabeled) ∧
    (right.finish.get? "?a").isSome = true ∧
    left.finish.get? "?c" = some (labeledFunction "x" (.variable "?d") .number) ∧
    right.finish.get? "?c" = some (labeledFunction "z" (.variable "?d") .number) ∧
    (labeledFunction "x" (.variable "?d") .number).Agrees
      (labeledFunction "z" (.variable "?d") .number) := by
  intro left right
  have relabeled := relabeled_labeledConstraints "x" "z"
  obtain ⟨-, errors, bound, agree⟩ := labels_irrelevant relabeled
  have reported : left.errors = #[
      (4, .mismatch (labeledFunction "x" (.variable "?d") .number) .string),
      (5, .occursCheck "?e" (labeledFunction "x" (.variable "?e") .number))] := by
    decide +kernel
  have different : right.errors ≠ left.errors := by decide +kernel
  have here : left.finish.get? "?c" = some (labeledFunction "x" (.variable "?d") .number) := by
    decide +kernel
  have there : right.finish.get? "?c" = some (labeledFunction "z" (.variable "?d") .number) := by
    decide +kernel
  have first : (left.finish.get? "?a").isSome = true := by decide +kernel
  exact ⟨relabeled, reported, different, errors, (bound "?a").symm.trans first, here, there,
    agree "?c" _ _ here there⟩

end Unifier

end DeclLang
