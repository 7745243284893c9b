import DeclLang.Proofs.Resolution
import DeclLang.Types.Unifier

/-!
# Solving constraints

An assignment unifies constraints if it makes head and tail of every constraint agree.

**Invariant.**  The bindings of a unifier have no cycle, and the assignments that respect them are
exactly the assignments that unify the constraints solved so far.  Taking an equation apart keeps
its solutions (`Equations.solves_parts_iff`), an equation that is refused has none
(`Equations.not_agrees_of_impossible`), and binding a variable moves one equation from the queue to
the bindings (`Substitution.extend_ok`).

**Results.**
* `Unifier.solve_ok`, `Unifier.solve_error`: what one constraint does to the solutions.
* `Unifier.solveAll_mostGeneral`: constraints are solved without an error if and only if they have a
  unifier; the finished substitution is then a most general one, and otherwise the first constraint
  without a common unifier is blamed first.
-/

namespace DeclLang

open StaticType

namespace Equations

/-- The assignment makes both sides of every equation agree. -/
def Solves (assignment : Assignment) (equations : Equations) : Prop :=
  ∀ equation ∈ equations,
    (equation.1.instantiate assignment).Agrees (equation.2.instantiate assignment)

section Solves

variable {assignment : Assignment}

theorem solves_nil : Solves assignment [] := by
  intro equation mem
  cases mem

theorem solves_cons_iff {head tail : StaticType} {rest : Equations} :
    Solves assignment ((head, tail) :: rest) ↔
      (head.instantiate assignment).Agrees (tail.instantiate assignment) ∧
        Solves assignment rest := by
  unfold Solves
  rw [List.forall_mem_cons]

theorem solves_append_iff {front back : Equations} :
    Solves assignment (front ++ back) ↔ Solves assignment front ∧ Solves assignment back := by
  unfold Solves
  rw [List.forall_mem_append]

/-- Lists of the same length become equal exactly if their items do, pair by pair. -/
theorem solves_zip_iff :
    ∀ {left right : List StaticType}, left.length = right.length →
      (Solves assignment (left.zip right) ↔
        (left.map (instantiate assignment)).map unlabeled =
          (right.map (instantiate assignment)).map unlabeled)
  | [], [], _ => by simp [Solves]
  | s :: left, t :: right, h => by
    have ih := solves_zip_iff (Nat.succ.inj h)
    rw [List.zip_cons_cons, solves_cons_iff, ih]
    simp only [List.map_cons, List.cons.injEq]
    exact Iff.rfl

/-- Replacing a variable by what the assignment cannot tell from it keeps the solutions. -/
theorem solves_replaceVariable_iff {name : String} {type : StaticType}
    (h : (assignment name).Agrees (type.instantiate assignment)) {equations : Equations} :
    Solves assignment (equations.replaceVariable name type) ↔ Solves assignment equations := by
  unfold Solves replaceVariable
  rw [List.forall_mem_map]
  refine forall₂_congr fun equation _ => ?_
  have left := agrees_replaceVariable h equation.1
  have right := agrees_replaceVariable h equation.2
  constructor
  · intro both
    exact (left.symm.trans both).trans right
  · intro both
    exact (left.trans both).trans right.symm

end Solves

theorem demand_self (type : StaticType) : demand type type = .nothing := by
  unfold demand
  rw [if_pos rfl]

theorem eq_of_demand_nothing {head tail : StaticType} (h : demand head tail = .nothing) :
    head = tail := by
  unfold demand at h
  split at h
  · assumption
  · split at h <;> repeat' split at h
    all_goals cases h

/-- The labels of arguments fall away; what stays are the types of the arguments in order. -/
theorem map_unlabeled_eq_iff (assignment : Assignment)
    {left right : List (Option String × StaticType)} :
    (left.map fun argument => ((none : Option String),
        (argument.2.instantiate assignment).unlabeled)) =
      (right.map fun argument => (none, (argument.2.instantiate assignment).unlabeled)) ↔
      ((left.map Prod.snd).map (instantiate assignment)).map unlabeled =
        ((right.map Prod.snd).map (instantiate assignment)).map unlabeled := by
  induction left generalizing right with
  | nil => cases right <;> simp
  | cons argument left ih =>
    cases right with
    | nil => simp
    | cons other right =>
      simp only [List.map_cons, List.cons.injEq, Prod.mk.injEq, true_and]
      rw [ih]

/-- Taking an equation apart keeps its solutions. -/
theorem solves_parts_iff {assignment : Assignment} {head tail : StaticType}
    {equations : Equations} (h : demand head tail = .parts equations) :
    (head.instantiate assignment).Agrees (tail.instantiate assignment) ↔
      Solves assignment equations := by
  unfold demand at h
  split at h
  · cases h
  · split at h
    · split at h <;> cases h
    · split at h <;> cases h
    · rename_i name parameters other arguments _
      split at h
      · cases h
      · rename_i sameName
        split at h
        · cases h
        · rename_i sameLength
          cases h
          rw [solves_zip_iff (Decidable.not_not.1 sameLength)]
          simp only [Agrees, instantiate, mapLeaves, unlabeled, constant.injEq,
            Decidable.not_not.1 sameName, true_and]
          exact Iff.rfl
    · rename_i parameters result arguments returned _
      split at h
      · cases h
      · rename_i sameLength
        cases h
        rw [solves_cons_iff, solves_zip_iff (by simpa using sameLength),
          ← map_unlabeled_eq_iff]
        simp only [Agrees, instantiate, mapLeaves, unlabeled, function.injEq, List.map_map]
        exact And.comm
    · cases h

/-- Two types of different shapes, none of them a variable, never agree. -/
theorem not_agrees_of_shapes {assignment : Assignment} {head tail : StaticType}
    (different : head ≠ tail)
    (headVariable : ∀ name, head = .variable name → False)
    (tailVariable : ∀ name, tail = .variable name → False)
    (constants : ∀ name parameters other arguments, head = .constant name parameters →
      tail = .constant other arguments → False)
    (functions : ∀ parameters result arguments returned, head = .function parameters result →
      tail = .function arguments returned → False) :
    ¬ (head.instantiate assignment).Agrees (tail.instantiate assignment) := by
  intro both
  unfold Agrees instantiate at both
  cases head using parts_induction with
  | onVariable name => exact headVariable name rfl
  | onGeneric name =>
    cases tail using parts_induction with
    | onVariable other => exact tailVariable other rfl
    | onGeneric other =>
      simp only [mapLeaves, unlabeled, generic.injEq] at both
      exact different (congrArg _ both)
    | onConstant other arguments => simp [mapLeaves, unlabeled] at both
    | onFunction arguments returned => simp [mapLeaves, unlabeled] at both
  | onConstant name parameters =>
    cases tail using parts_induction with
    | onVariable other => exact tailVariable other rfl
    | onGeneric other => simp [mapLeaves, unlabeled] at both
    | onConstant other arguments => exact constants _ _ _ _ rfl rfl
    | onFunction arguments returned => simp [mapLeaves, unlabeled] at both
  | onFunction parameters result =>
    cases tail using parts_induction with
    | onVariable other => exact tailVariable other rfl
    | onGeneric other => simp [mapLeaves, unlabeled] at both
    | onConstant other arguments => simp [mapLeaves, unlabeled] at both
    | onFunction arguments returned => exact functions _ _ _ _ rfl rfl

/-- No assignment makes the two sides of an impossible equation agree. -/
theorem not_agrees_of_impossible {assignment : Assignment} {head tail : StaticType}
    {error : UnificationError} (h : demand head tail = .impossible error) :
    ¬ (head.instantiate assignment).Agrees (tail.instantiate assignment) := by
  intro both
  unfold demand at h
  split at h
  · cases h
  · rename_i different
    split at h
    · rename_i name
      split at h
      · rename_i occurs
        have lighter := weight_instantiate_lt assignment
          (by simpa [StaticType.occurs] using occurs) (Ne.symm different)
        have same := both.weight_eq
        unfold instantiate at same lighter
        simp only [mapLeaves] at same
        omega
      · cases h
    · rename_i name notVariable
      split at h
      · rename_i occurs
        have lighter := weight_instantiate_lt assignment
          (by simpa [StaticType.occurs] using occurs) different
        have same := both.weight_eq
        unfold instantiate at same lighter
        simp only [mapLeaves] at same
        omega
      · cases h
    · simp only [Agrees, instantiate, mapLeaves, unlabeled, constant.injEq] at both
      split at h
      · rename_i differentName
        exact differentName both.1
      · split at h
        · rename_i differentLength
          have := congrArg List.length both.2
          simp only [List.length_map] at this
          exact differentLength this
        · cases h
    · simp only [Agrees, instantiate, mapLeaves, unlabeled, function.injEq] at both
      split at h
      · rename_i differentLength
        have := congrArg List.length both.1
        simp only [List.length_map] at this
        exact differentLength this
      · cases h
    · rename_i notVariable notVariable' notConstants notFunctions
      exact not_agrees_of_shapes different notVariable notVariable' notConstants notFunctions both

/-- Reduction that ends without a binding leaves nothing to solve. -/
theorem solves_of_reduce_solved {assignment : Assignment} {equations : Equations}
    (h : reduce equations = .solved) : Solves assignment equations := by
  fun_induction reduce equations with
  | case1 => exact solves_nil
  | case2 head tail equations demanded ih =>
    rw [solves_cons_iff, eq_of_demand_nothing demanded]
    exact ⟨Agrees.refl _, ih h⟩
  | case3 => cases h
  | case4 head tail equations parts demanded ih =>
    rw [solves_cons_iff, solves_parts_iff demanded]
    exact And.comm.1 (solves_append_iff.1 (ih h))
  | case5 => cases h

/-- Reduction fails on an equation without a solution. -/
theorem not_solves_of_reduce_failed {assignment : Assignment} {equations : Equations}
    {error : UnificationError} (h : reduce equations = .failed error) :
    ¬ Solves assignment equations := by
  fun_induction reduce equations with
  | case1 => cases h
  | case2 head tail equations demanded ih =>
    rw [solves_cons_iff]
    exact fun solved => ih h solved.2
  | case3 => cases h
  | case4 head tail equations parts demanded ih =>
    rw [solves_cons_iff, solves_parts_iff demanded]
    exact fun solved => ih h (solves_append_iff.2 (And.comm.1 solved))
  | case5 head tail equations found demanded =>
    rw [solves_cons_iff]
    exact fun solved => not_agrees_of_impossible demanded solved.1

/-- Reduction up to a binding keeps the solutions. -/
theorem solves_iff_of_reduce_bind {assignment : Assignment} {equations rest : Equations}
    {name : String} {type : StaticType} (h : reduce equations = .bind name type rest) :
    Solves assignment equations ↔
      (assignment name).Agrees (type.instantiate assignment) ∧ Solves assignment rest := by
  fun_induction reduce equations with
  | case1 => cases h
  | case2 head tail equations demanded ih =>
    rw [solves_cons_iff, ih h, eq_of_demand_nothing demanded]
    exact ⟨And.right, fun solved => ⟨Agrees.refl _, solved⟩⟩
  | case3 head tail equations other found demanded =>
    cases h
    obtain ⟨⟨rfl, rfl⟩ | ⟨rfl, rfl⟩, _⟩ := demand_binding demanded
    · rw [solves_cons_iff]
      simp only [instantiate, mapLeaves]
    · rw [solves_cons_iff]
      simp only [instantiate, mapLeaves]
      exact and_congr_left' ⟨Agrees.symm, Agrees.symm⟩
  | case4 head tail equations parts demanded ih =>
    rw [← ih h, solves_cons_iff, solves_parts_iff demanded, solves_append_iff]
    exact And.comm
  | case5 => cases h

end Equations

namespace Substitution

open Equations

/-- No variable of the equations is bound. -/
def SettledIn (substitution : Substitution) (equations : Equations) : Prop :=
  ∀ name ∈ equations.freeVariables, substitution.get? name = none

/-- After a binding is used in the waiting equations, none of their variables is bound. -/
theorem SettledIn.bind {substitution : Substitution} {equations rest : Equations}
    {name : String} {type : StaticType} (settled : substitution.SettledIn equations)
    (h : reduce equations = .bind name type rest) :
    (substitution.bind name type).SettledIn (rest.replaceVariable name type) := by
  obtain ⟨_, absent, types, rests⟩ := reduce_bind h
  intro other mem
  obtain ⟨old, different⟩ := rest.mem_freeVariables_of_replaced absent mem
  rw [get?_bind, if_neg different]
  rcases old with old | old
  · exact settled other (rests old)
  · exact settled other (types old)

/-- What solving equations adds to a substitution without cycles: more bindings, still without a
cycle. -/
theorem Acyclic.extend {substitution : Substitution} {equations : Equations}
    (acyclic : substitution.Acyclic) (settled : substitution.SettledIn equations) :
    (substitution.extend equations).2.Acyclic := by
  fun_induction Substitution.extend substitution equations with
  | case1 => exact acyclic
  | case2 => exact acyclic
  | case3 substitution equations name type rest reduced ih =>
    obtain ⟨mem, absent, types, _⟩ := reduce_bind reduced
    refine ih (acyclic.bind (settled name mem) ?_ absent) (settled.bind reduced)
    exact fun other inType => settled other (types inType)

/-- Equations that are solved become bindings: the solutions stay the same. -/
theorem respects_extend_iff {assignment : Assignment} {substitution extended : Substitution}
    {equations : Equations} (settled : substitution.SettledIn equations)
    (h : substitution.extend equations = (.ok (), extended)) :
    Respects assignment extended ↔
      Respects assignment substitution ∧ Solves assignment equations := by
  fun_induction Substitution.extend substitution equations with
  | case1 substitution equations reduced =>
    cases h
    exact (and_iff_left (solves_of_reduce_solved reduced)).symm
  | case2 => cases h
  | case3 substitution equations name type rest reduced ih =>
    have unbound := settled name (reduce_bind reduced).1
    rw [ih (settled.bind reduced) h, respects_bind_iff unbound,
      solves_iff_of_reduce_bind reduced, and_assoc]
    refine and_congr_right fun _ => and_congr_right fun agrees => ?_
    exact solves_replaceVariable_iff agrees

/-- Equations that fail have no solution that respects the bindings. -/
theorem not_solves_of_extend_error {assignment : Assignment}
    {substitution extended : Substitution} {equations : Equations} {error : UnificationError}
    (settled : substitution.SettledIn equations)
    (h : substitution.extend equations = (.error error, extended))
    (respects : Respects assignment substitution) : ¬ Solves assignment equations := by
  fun_induction Substitution.extend substitution equations with
  | case1 => cases h
  | case2 substitution equations found reduced => exact not_solves_of_reduce_failed reduced
  | case3 substitution equations name type rest reduced ih =>
    rw [solves_iff_of_reduce_bind reduced]
    rintro ⟨agrees, solved⟩
    have unbound := settled name (reduce_bind reduced).1
    refine ih (settled.bind reduced) h ((respects_bind_iff unbound).2 ⟨respects, agrees⟩) ?_
    exact (solves_replaceVariable_iff agrees).2 solved

end Substitution

/-- The assignment makes head and tail of the constraint agree. -/
def Constraint.Holds (constraint : Constraint) (assignment : Assignment) : Prop :=
  (constraint.head.instantiate assignment).Agrees (constraint.tail.instantiate assignment)

/-- The assignment unifies the constraints. -/
def Unifies (assignment : Assignment) (constraints : List Constraint) : Prop :=
  ∀ constraint ∈ constraints, constraint.Holds assignment

namespace Unifier

open Substitution Equations

/-- The equation that a constraint becomes. -/
def pending (unifier : Unifier) (constraint : Constraint) : Equations :=
  [(unifier.substitution.resolveAll constraint.head,
    unifier.substitution.resolveAll constraint.tail)]

section Solve

variable {unifier : Unifier} (acyclic : unifier.substitution.Acyclic) (constraint : Constraint)
include acyclic

theorem settledIn_pending : unifier.substitution.SettledIn (unifier.pending constraint) := by
  intro name mem
  simp only [pending, Equations.freeVariables, List.flatMap_cons, List.flatMap_nil, List.append_nil,
    List.mem_append] at mem
  rcases mem with mem | mem
  · exact settled_resolveAll acyclic _ name mem
  · exact settled_resolveAll acyclic _ name mem

omit acyclic in
/-- The equation asks no more and no less than the constraint. -/
theorem solves_pending_iff {assignment : Assignment}
    (respects : Respects assignment unifier.substitution) :
    Solves assignment (unifier.pending constraint) ↔ constraint.Holds assignment := by
  unfold pending Constraint.Holds
  rw [solves_cons_iff, and_iff_left solves_nil]
  have head := respects.resolveAll constraint.head
  have tail := respects.resolveAll constraint.tail
  constructor
  · intro both
    exact (head.symm.trans both).trans tail
  · intro both
    exact (head.trans both).trans tail.symm

/-- A constraint that is solved adds itself to what the bindings demand. -/
theorem solve_ok {extended : Substitution}
    (h : unifier.substitution.extend (unifier.pending constraint) = (.ok (), extended)) :
    unifier.solve constraint = { unifier with substitution := extended } ∧ extended.Acyclic ∧
      ∀ assignment, Respects assignment extended ↔
        Respects assignment unifier.substitution ∧ constraint.Holds assignment := by
  have settled := settledIn_pending acyclic constraint
  refine ⟨?_, ?_, ?_⟩
  · unfold pending at h
    simp only [solve, h]
  · have := acyclic.extend settled
    rwa [h] at this
  · intro assignment
    rw [respects_extend_iff settled h]
    exact and_congr_right fun respects => solves_pending_iff constraint respects

/-- A constraint that fails holds under no assignment that respects the bindings. -/
theorem solve_error {extended : Substitution} {error : UnificationError}
    (h : unifier.substitution.extend (unifier.pending constraint) = (.error error, extended)) :
    (unifier.solve constraint).errors = unifier.errors.push (constraint.origin, error) ∧
      (unifier.solve constraint).substitution = extended ∧ extended.Acyclic ∧
      ∀ assignment, Respects assignment unifier.substitution → ¬ constraint.Holds assignment := by
  have settled := settledIn_pending acyclic constraint
  refine ⟨?_, ?_, ?_, ?_⟩
  · unfold pending at h
    simp only [solve, h]
  · unfold pending at h
    simp only [solve, h]
  · have := acyclic.extend settled
    rwa [h] at this
  · intro assignment respects holds
    refine not_solves_of_extend_error settled h respects ?_
    exact (solves_pending_iff constraint respects).2 holds

end Solve

@[simp] theorem solveAll_nil (unifier : Unifier) : unifier.solveAll [] = unifier :=
  rfl

@[simp] theorem solveAll_cons (unifier : Unifier) (constraint : Constraint)
    (constraints : List Constraint) :
    unifier.solveAll (constraint :: constraints) =
      (unifier.solve constraint).solveAll constraints :=
  rfl

/-- Errors that were found stay, in the order in which they were found. -/
theorem errors_solve_prefix (unifier : Unifier) (constraint : Constraint) :
    ∃ more, (unifier.solve constraint).errors = unifier.errors ++ more := by
  unfold solve
  dsimp only
  split
  · exact ⟨#[], by simp⟩
  · exact ⟨#[_], Array.push_eq_append⟩

theorem errors_solveAll_prefix (unifier : Unifier) (constraints : List Constraint) :
    ∃ more, (unifier.solveAll constraints).errors = unifier.errors ++ more := by
  induction constraints generalizing unifier with
  | nil => exact ⟨#[], by simp⟩
  | cons constraint constraints ih =>
    obtain ⟨first, solved⟩ := errors_solve_prefix unifier constraint
    obtain ⟨more, rest⟩ := ih (unifier.solve constraint)
    refine ⟨first ++ more, ?_⟩
    rw [solveAll_cons, rest, solved, Array.append_assoc]

/-- The first failure of a run: the constraints before the blamed one hold together under some
assignment that respects the bindings, and under none with the blamed one. -/
structure FirstFailure (unifier : Unifier) (constraints before : List Constraint)
    (blamed : Constraint) (after : List Constraint) (error : UnificationError) : Prop where
  split : constraints = before ++ blamed :: after
  solved : (unifier.solveAll before).errors = unifier.errors
  failed : (unifier.solveAll (before ++ [blamed])).errors =
    unifier.errors.push (blamed.origin, error)
  satisfiable : ∃ assignment, Respects assignment unifier.substitution ∧ Unifies assignment before
  unsatisfiable : ¬ ∃ assignment, Respects assignment unifier.substitution ∧
    Unifies assignment (before ++ [blamed])

/-- The run of a unifier without cycles: either every constraint is solved, and what respects the
bindings is what unifies the constraints, or there is a first failure. -/
theorem solveAll_cases {unifier : Unifier} (acyclic : unifier.substitution.Acyclic)
    (constraints : List Constraint) :
    ((unifier.solveAll constraints).errors = unifier.errors ∧
      (unifier.solveAll constraints).substitution.Acyclic ∧
      ∀ assignment, Respects assignment (unifier.solveAll constraints).substitution ↔
        Respects assignment unifier.substitution ∧ Unifies assignment constraints) ∨
    ∃ before blamed after error, FirstFailure unifier constraints before blamed after error := by
  induction constraints generalizing unifier with
  | nil =>
    refine .inl ⟨rfl, acyclic, fun assignment => (and_iff_left ?_).symm⟩
    exact List.forall_mem_nil _
  | cons constraint constraints ih =>
    cases h : unifier.substitution.extend (unifier.pending constraint) with
    | mk outcome extended =>
      cases outcome with
      | ok =>
        obtain ⟨solved, extendedAcyclic, respects⟩ := solve_ok acyclic constraint h
        have cons (assignment : Assignment) (others : List Constraint) :
            Respects assignment extended ∧ Unifies assignment others ↔
              Respects assignment unifier.substitution ∧
                Unifies assignment (constraint :: others) := by
          rw [respects, Unifies, Unifies, List.forall_mem_cons, and_assoc]
        rw [solveAll_cons, solved]
        rcases ih (show ({ unifier with substitution := extended } :
            Unifier).substitution.Acyclic from extendedAcyclic) with
          ⟨errors, finalAcyclic, final⟩ | ⟨before, blamed, after, error, failure⟩
        · refine .inl ⟨errors, finalAcyclic, fun assignment => ?_⟩
          rw [final, cons]
        · refine .inr ⟨constraint :: before, blamed, after, error, ?_, ?_, ?_, ?_, ?_⟩
          · rw [failure.split, List.cons_append]
          · rw [solveAll_cons, solved, failure.solved]
          · rw [List.cons_append, solveAll_cons, solved, failure.failed]
          · obtain ⟨assignment, holds⟩ := failure.satisfiable
            exact ⟨assignment, (cons assignment before).1 holds⟩
          · rintro ⟨assignment, holds⟩
            exact failure.unsatisfiable ⟨assignment, (cons assignment _).2 holds⟩
      | error error =>
        obtain ⟨failed, _, _, unsatisfiable⟩ := solve_error acyclic constraint h
        refine .inr ⟨[], constraint, constraints, error, rfl, rfl, failed, ?_, ?_⟩
        · exact ⟨_, respects_solution acyclic, List.forall_mem_nil _⟩
        · rintro ⟨assignment, respects, holds⟩
          exact unsatisfiable assignment respects (holds constraint (by simp))

/-- After a first failure, the blamed constraint stays the first that is reported. -/
theorem FirstFailure.errors_eq {unifier : Unifier} {constraints before after : List Constraint}
    {blamed : Constraint} {error : UnificationError}
    (failure : FirstFailure unifier constraints before blamed after error) :
    ∃ more, (unifier.solveAll constraints).errors =
      unifier.errors.push (blamed.origin, error) ++ more := by
  obtain ⟨more, rest⟩ := errors_solveAll_prefix (unifier.solveAll (before ++ [blamed])) after
  refine ⟨more, ?_⟩
  rw [← failure.failed, ← rest, solveAll, solveAll, solveAll, ← List.foldl_append, failure.split,
    List.append_assoc, List.singleton_append]

/-- The finished substitution makes head and tail of every constraint agree. -/
theorem finish_agrees {unifier : Unifier} (acyclic : unifier.substitution.Acyclic)
    {constraint : Constraint} (h : constraint.Holds unifier.substitution.solution) :
    (unifier.finish.apply constraint.head).Agrees (unifier.finish.apply constraint.tail) := by
  unfold finish
  rw [apply_normalize acyclic, apply_normalize acyclic]
  exact h

/-- If no error is reported, the finished substitution makes head and tail of every constraint
agree. -/
theorem agrees_of_solved {constraints : List Constraint}
    (solved : (({} : Unifier).solveAll constraints).errors = #[]) {constraint : Constraint}
    (mem : constraint ∈ constraints) :
    ((({} : Unifier).solveAll constraints).finish.apply constraint.head).Agrees
      ((({} : Unifier).solveAll constraints).finish.apply constraint.tail) := by
  have acyclic : ({} : Unifier).substitution.Acyclic := acyclic_empty
  rcases solveAll_cases acyclic constraints with
    ⟨-, acyclic, respects⟩ | ⟨before, blamed, after, error, failure⟩
  · exact finish_agrees acyclic (((respects _).1 (respects_solution acyclic)).2 constraint mem)
  · obtain ⟨more, failed⟩ := failure.errors_eq
    rw [solved] at failed
    have size := congrArg Array.size failed
    simp at size
    omega

/-- Constraints with a unifier are solved without an error, and the unifier respects the
bindings. -/
theorem respects_of_unifies {constraints : List Constraint} {assignment : Assignment}
    (unifies : Unifies assignment constraints) :
    (({} : Unifier).solveAll constraints).errors = #[] ∧
      (({} : Unifier).solveAll constraints).substitution.Acyclic ∧
      Respects assignment (({} : Unifier).solveAll constraints).substitution := by
  rcases solveAll_cases (show ({} : Unifier).substitution.Acyclic from acyclic_empty) constraints
    with ⟨errors, acyclic, respects⟩ | ⟨before, blamed, after, error, failure⟩
  · exact ⟨errors, acyclic, (respects assignment).2 ⟨respects_empty assignment, unifies⟩⟩
  · refine absurd ⟨assignment, respects_empty assignment, ?_⟩ failure.unsatisfiable
    intro constraint mem
    refine unifies constraint ?_
    rw [failure.split]
    rw [List.mem_append, List.mem_singleton] at mem
    rw [List.mem_append, List.mem_cons]
    exact mem.imp_right .inl

/-- Constraints with a unifier are solved without an error. -/
theorem solved_of_unifies {constraints : List Constraint} {assignment : Assignment}
    (unifies : Unifies assignment constraints) :
    (({} : Unifier).solveAll constraints).errors = #[] :=
  (respects_of_unifies unifies).1

/-- The finished substitution is more general than every assignment that respects the bindings. -/
theorem finish_mostGeneral {unifier : Unifier} (acyclic : unifier.substitution.Acyclic)
    {assignment : Assignment} (respects : Respects assignment unifier.substitution)
    (type : StaticType) :
    ((unifier.finish.apply type).instantiate assignment).Agrees
      (type.instantiate assignment) := by
  unfold finish
  rw [apply_normalize acyclic, ← resolveAll_eq]
  exact respects.resolveAll type

/-- Constraints are solved without an error exactly if they have a unifier.  Then the finished
substitution unifies them and every unifier is an instance of it.  Otherwise the error that is
reported first blames the first constraint without a unifier in common with those before it. -/
theorem solveAll_mostGeneral (constraints : List Constraint) :
    let unifier := ({} : Unifier).solveAll constraints
    (unifier.errors = #[] ↔ ∃ assignment, Unifies assignment constraints) ∧
    (unifier.errors = #[] →
      (∀ constraint ∈ constraints,
        (unifier.finish.apply constraint.head).Agrees (unifier.finish.apply constraint.tail)) ∧
      ∀ assignment, Unifies assignment constraints → ∀ type,
        ((unifier.finish.apply type).instantiate assignment).Agrees
          (type.instantiate assignment)) ∧
    (unifier.errors ≠ #[] →
      ∃ before blamed after error, constraints = before ++ blamed :: after ∧
        (∃ assignment, Unifies assignment before) ∧
        (¬ ∃ assignment, Unifies assignment (before ++ [blamed])) ∧
        (({} : Unifier).solveAll (before ++ [blamed])).errors = #[(blamed.origin, error)] ∧
        unifier.errors[0]? = some (blamed.origin, error)) := by
  intro unifier
  have start (assignment : Assignment) (others : List Constraint) :
      Respects assignment ({} : Unifier).substitution ∧ Unifies assignment others ↔
        Unifies assignment others :=
    and_iff_right (respects_empty assignment)
  have acyclic : ({} : Unifier).substitution.Acyclic := acyclic_empty
  rcases solveAll_cases acyclic constraints with
    ⟨errors, acyclic, respects⟩ | ⟨before, blamed, after, error, failure⟩
  · have solved : Unifies unifier.substitution.solution constraints :=
      ((respects _).1 (respects_solution acyclic)).2
    refine ⟨⟨fun _ => ⟨_, solved⟩, fun _ => errors⟩, fun _ => ⟨?_, ?_⟩, ?_⟩
    · intro constraint mem
      exact finish_agrees acyclic (solved constraint mem)
    · intro assignment unifies type
      exact finish_mostGeneral acyclic
        ((respects assignment).2 ((start assignment _).2 unifies)) type
    · exact fun failed => absurd errors failed
  · have first : unifier.errors[0]? = some (blamed.origin, error) := by
      obtain ⟨more, failed⟩ := failure.errors_eq
      rw [show unifier.errors = _ from failed]
      exact Array.getElem?_append_left (by simp)
    have unsatisfiable : ¬ ∃ assignment, Unifies assignment (before ++ [blamed]) := by
      rintro ⟨assignment, unifies⟩
      exact failure.unsatisfiable ⟨assignment, (start assignment _).2 unifies⟩
    have nonempty : unifier.errors ≠ #[] := by
      intro empty
      rw [empty] at first
      cases first
    refine ⟨⟨fun empty => absurd empty nonempty, ?_⟩, fun empty => absurd empty nonempty,
      fun _ => ⟨before, blamed, after, error, failure.split, ?_, unsatisfiable, ?_, first⟩⟩
    · rintro ⟨assignment, unifies⟩
      exact solved_of_unifies unifies
    · obtain ⟨assignment, holds⟩ := failure.satisfiable
      exact ⟨assignment, (start assignment _).1 holds⟩
    · exact failure.failed

end Unifier

end DeclLang
