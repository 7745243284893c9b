import DeclLang.Proofs.Unification

/-!
# Constraints stay solved

Solving goes on after a constraint has failed, with the bindings that were made on its behalf.

**Invariant.**  `Unifier.Extends`: bindings are only ever added, and never close a cycle.  An
assignment that respects the later bindings therefore respects the earlier ones, whether the
constraints in between were accepted or not.

**Results.**
* `Unifier.accepted_iff`: a constraint is accepted exactly if some assignment that respects the
  bindings makes it hold.
* `Unifier.extends_solveAll`: every run extends the unifier that it starts from.
* `Unifier.finish_agrees_of_accepted`: the finished substitution solves every constraint that was
  accepted, in whatever company.
-/

namespace DeclLang

/-- Reduction looks at the first equation of the queue. -/
theorem Equations.reduce_cons (head tail : StaticType) (rest : Equations) :
    reduce ((head, tail) :: rest) = match demand head tail with
      | .nothing => reduce rest
      | .binding name type => .bind name type rest
      | .parts equations => reduce (rest ++ equations)
      | .impossible error => .failed error := by
  rw [reduce]
  split <;> simp_all

namespace Substitution

open Equations

/-- Equations are solved from one binding to the next. -/
theorem extend_eq (substitution : Substitution) (equations : Equations) :
    substitution.extend equations = match equations.reduce with
      | .solved => (.ok (), substitution)
      | .failed error => (.error error, substitution)
      | .bind name type rest =>
        (substitution.bind name type).extend (rest.replaceVariable name type) := by
  rw [extend]
  split <;> simp_all

/-- What respects the bindings that solving equations ends with, even by a failure, respects those
that it starts with. -/
theorem respects_of_extend {assignment : Assignment} {substitution : Substitution}
    {equations : Equations} (settled : substitution.SettledIn equations)
    (h : Respects assignment (substitution.extend equations).2) :
    Respects assignment substitution := by
  fun_induction Substitution.extend substitution equations with
  | case1 => exact h
  | case2 => exact h
  | case3 substitution equations name type rest reduced ih =>
    have unbound := settled name (reduce_bind reduced).1
    exact ((respects_bind_iff unbound).1 (ih (settled.bind reduced) h)).1

end Substitution

namespace Unifier

open Substitution Equations StaticType

/-- The later unifier has no cycle, and its bindings demand what those of the earlier one do. -/
structure Extends (earlier later : Unifier) : Prop where
  acyclic : later.substitution.Acyclic
  respects : ∀ assignment, Respects assignment later.substitution →
    Respects assignment earlier.substitution

variable {unifier middle later : Unifier}

theorem Extends.refl (acyclic : unifier.substitution.Acyclic) : Extends unifier unifier :=
  ⟨acyclic, fun _ h => h⟩

theorem Extends.trans (first : Extends unifier middle) (second : Extends middle later) :
    Extends unifier later :=
  ⟨second.acyclic, fun assignment h => first.respects assignment (second.respects assignment h)⟩

/-- The bindings after a constraint are those that its equation leaves behind. -/
theorem substitution_solve (unifier : Unifier) (constraint : Constraint) :
    (unifier.solve constraint).substitution =
      (unifier.substitution.extend (unifier.pending constraint)).2 := by
  unfold solve pending
  dsimp only
  split
  all_goals
    rename_i ran
    rw [ran]

/-- One constraint, solved or not, only adds bindings. -/
theorem extends_solve (acyclic : unifier.substitution.Acyclic) (constraint : Constraint) :
    Extends unifier (unifier.solve constraint) := by
  have settled := settledIn_pending acyclic constraint
  constructor
  · rw [substitution_solve]
    exact acyclic.extend settled
  · intro assignment h
    rw [substitution_solve] at h
    exact respects_of_extend settled h

/-- A run only adds bindings. -/
theorem extends_solveAll (acyclic : unifier.substitution.Acyclic)
    (constraints : List Constraint) : Extends unifier (unifier.solveAll constraints) := by
  induction constraints generalizing unifier with
  | nil => exact .refl acyclic
  | cons constraint constraints ih =>
    have first := extends_solve acyclic constraint
    exact first.trans (ih first.acyclic)

/-- What respects the bindings made by a constraint without an error makes the constraint hold. -/
theorem holds_of_accepted (acyclic : unifier.substitution.Acyclic) {constraint : Constraint}
    (accepted : (unifier.solve constraint).errors = unifier.errors) {assignment : Assignment}
    (h : Respects assignment (unifier.solve constraint).substitution) :
    constraint.Holds assignment := by
  cases outcome : unifier.substitution.extend (unifier.pending constraint) with
  | mk result extended =>
    cases result with
    | ok =>
      obtain ⟨solved, -, respects⟩ := solve_ok acyclic constraint outcome
      rw [solved] at h
      exact ((respects assignment).1 h).2
    | error error =>
      -- A failure would have been reported.
      obtain ⟨failed, -⟩ := solve_error acyclic constraint outcome
      have size := congrArg Array.size (failed.symm.trans accepted)
      simp at size

/-- A constraint is accepted exactly if some assignment that respects the bindings makes it
hold. -/
theorem accepted_iff (acyclic : unifier.substitution.Acyclic) (constraint : Constraint) :
    (unifier.solve constraint).errors = unifier.errors ↔
      ∃ assignment, Respects assignment unifier.substitution ∧ constraint.Holds assignment := by
  constructor
  · intro accepted
    have later := extends_solve acyclic constraint
    have respects := respects_solution later.acyclic
    exact ⟨_, later.respects _ respects, holds_of_accepted acyclic accepted respects⟩
  · rintro ⟨assignment, respects, holds⟩
    cases outcome : unifier.substitution.extend (unifier.pending constraint) with
    | mk result extended =>
      cases result with
      | ok => rw [(solve_ok acyclic constraint outcome).1]
      | error error =>
        obtain ⟨-, -, -, never⟩ := solve_error acyclic constraint outcome
        exact absurd holds (never assignment respects)

/-- The finished substitution makes both sides of every constraint agree that was accepted, however
many others have failed before and after it. -/
theorem finish_agrees_of_accepted (before after : List Constraint) (constraint : Constraint)
    (accepted : ((({} : Unifier).solveAll before).solve constraint).errors =
      (({} : Unifier).solveAll before).errors) :
    let finished := (({} : Unifier).solveAll (before ++ constraint :: after)).finish
    (finished.apply constraint.head).Agrees (finished.apply constraint.tail) := by
  intro finished
  have whole : ({} : Unifier).solveAll (before ++ constraint :: after) =
      ((({} : Unifier).solveAll before).solve constraint).solveAll after := by
    simp [solveAll]
  have empty : ({} : Unifier).substitution.Acyclic := acyclic_empty
  have acyclic := (extends_solveAll empty before).acyclic
  have here := extends_solve acyclic constraint
  have later := extends_solveAll here.acyclic after
  rw [← whole] at later
  refine finish_agrees later.acyclic (holds_of_accepted acyclic accepted ?_)
  exact later.respects _ (respects_solution later.acyclic)

/-- A pair that fails in its second part, after `?a` was bound to `String`. -/
def halfSolvedPair : Constraint :=
  ⟨.constant "Pair" [.variable "?a", .number], .constant "Pair" [.string, .boolean], 1⟩

/-- An array of what the pair has left behind. -/
def arrayOfLeftover : Constraint :=
  ⟨.variable "?b", .array (.variable "?a"), 2⟩

/-- A number in place of the array. -/
def numberForArray : Constraint :=
  ⟨.variable "?b", .number, 3⟩

/-- The pair leaves the binding of `?a` behind. -/
theorem extend_halfSolvedPair :
    ({} : Substitution).extend (({} : Unifier).pending halfSolvedPair) =
      (.error (.mismatch .number .boolean), ({} : Substitution).bind "?a" .string) := by
  have pending : ({} : Unifier).pending halfSolvedPair =
      [(halfSolvedPair.head, halfSolvedPair.tail)] := rfl
  have parts : demand halfSolvedPair.head halfSolvedPair.tail =
      .parts [(.variable "?a", .string), (.number, .boolean)] := by cbv
  have binds : demand (.variable "?a") .string = .binding "?a" .string := by cbv
  have fails : demand .number .boolean = .impossible (.mismatch .number .boolean) := by cbv
  have rest : Equations.replaceVariable "?a" .string [(.number, .boolean)] =
      [(.number, .boolean)] := by
    simp [Equations.replaceVariable, StaticType.replaceVariable, mapLeaves, number, boolean]
  rw [pending, extend_eq, reduce_cons, parts]
  dsimp only
  rw [List.nil_append, reduce_cons, binds]
  dsimp only
  rw [rest, extend_eq, reduce_cons, fails]

/-- Between two failures, the array is accepted and stays solved. -/
theorem finish_agrees_of_accepted_amongFailures :
    (({} : Unifier).solveAll [halfSolvedPair]).errors = #[(1, .mismatch .number .boolean)] ∧
      ((({} : Unifier).solveAll [halfSolvedPair, arrayOfLeftover, numberForArray]).finish.apply
          (.variable "?b")).Agrees
        ((({} : Unifier).solveAll [halfSolvedPair, arrayOfLeftover, numberForArray]).finish.apply
          (.array (.variable "?a"))) := by
  have empty : ({} : Unifier).substitution.Acyclic := acyclic_empty
  have pair := solve_error empty halfSolvedPair extend_halfSolvedPair
  refine ⟨pair.1, finish_agrees_of_accepted [halfSolvedPair] [numberForArray] arrayOfLeftover ?_⟩
  have left : Respects
      (fun name => if name = "?a" then .string else .array .string)
      (({} : Unifier).solve halfSolvedPair).substitution := by
    rw [pair.2.1, respects_bind_iff (get?_empty _)]
    exact ⟨respects_empty _, by simp [instantiate, mapLeaves, string, Agrees]⟩
  refine (accepted_iff (extends_solve empty halfSolvedPair).acyclic arrayOfLeftover).2
    ⟨_, left, ?_⟩
  simp [Constraint.Holds, arrayOfLeftover, instantiate, array, mapLeaves, Agrees]

end Unifier

end DeclLang
