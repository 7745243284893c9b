import DeclLang.Proofs.AcceptedConstraints

/-!
# Constraints that fail

**Input.**  Constraints that are solved in order, some of which fail.

**Argument.**  A constraint may bind variables before one of its parts fails, and these bindings
stay (`Equations.bindings`).  Each of them binds a variable that is not bound to a type that
mentions no bound variable, and solving it as a constraint of its own makes just this binding
(`Unifier.solve_binding`).

**Results.**
* `Unifier.errors_solveAll`: what a run reports, constraint by constraint.
* `Unifier.failures_congr`: only the bindings decide how a run goes on.
* `Unifier.solveAll_failed`: a failed constraint has the effect of the constraints that remain of
  it, one for each variable that it has bound; it is dropped without a trace exactly if nothing
  remains of it.
-/

namespace DeclLang

open StaticType

/-- What solving the equations binds, in order, before they are solved or one of them fails. -/
def Equations.bindings (equations : Equations) : List (String × StaticType) :=
  match _h : equations.reduce with
  | .solved => []
  | .failed _ => []
  | .bind name type rest => (name, type) :: bindings (rest.replaceVariable name type)
termination_by equations.unknowns
decreasing_by exact Equations.unknowns_replaceVariable_lt _h

theorem Equations.bindings_eq (equations : Equations) :
    equations.bindings = match equations.reduce with
      | .solved => []
      | .failed _ => []
      | .bind name type rest => (name, type) :: (rest.replaceVariable name type).bindings := by
  rw [bindings]
  split <;> simp_all

/-- The variable that is bound first is a variable of the equations. -/
theorem Equations.mem_freeVariables_of_bindings {equations : Equations} {name : String}
    {type : StaticType} {more : List (String × StaticType)}
    (h : equations.bindings = (name, type) :: more) : name ∈ equations.freeVariables := by
  rw [bindings_eq] at h
  split at h
  · cases h
  · cases h
  · rename_i reduced
    cases h
    exact (reduce_bind reduced).1

/-- A variable on the left is bound, unless it occurs in the other side. -/
theorem Equations.demand_variable {name : String} {type : StaticType}
    (differ : .variable name ≠ type) :
    demand (.variable name) type =
      if type.occurs name then .impossible (.occursCheck name type) else .binding name type := by
  unfold demand
  rw [if_neg differ]

namespace Substitution

/-- Binds several variables, one after the other. -/
def bindAll (substitution : Substitution) (bindings : List (String × StaticType)) : Substitution :=
  bindings.foldl (fun substitution binding => substitution.bind binding.1 binding.2) substitution

@[simp] theorem bindAll_nil (substitution : Substitution) : substitution.bindAll [] = substitution :=
  rfl

@[simp] theorem bindAll_cons (substitution : Substitution) (name : String) (type : StaticType)
    (bindings : List (String × StaticType)) :
    substitution.bindAll ((name, type) :: bindings) =
      (substitution.bind name type).bindAll bindings :=
  rfl

/-- Variables stay bound. -/
theorem isSome_get?_bindAll {substitution : Substitution} {name : String}
    (bound : (substitution.get? name).isSome) (bindings : List (String × StaticType)) :
    ((substitution.bindAll bindings).get? name).isSome := by
  induction bindings generalizing substitution with
  | nil => exact bound
  | cons binding bindings ih =>
    refine ih ?_
    rw [get?_bind]
    split
    · rfl
    · exact bound

/-- What solving equations binds does not depend on the bindings that there are. -/
theorem extend_snd (substitution : Substitution) (equations : Equations) :
    (substitution.extend equations).2 = substitution.bindAll equations.bindings := by
  fun_induction Substitution.extend substitution equations with
  | case1 substitution equations reduced => rw [Equations.bindings_eq, reduced, bindAll_nil]
  | case2 substitution equations error reduced => rw [Equations.bindings_eq, reduced, bindAll_nil]
  | case3 substitution equations name type rest reduced ih =>
    rw [Equations.bindings_eq, reduced, bindAll_cons, ih]

end Substitution

namespace Unifier

open Substitution Equations

/-- Why a constraint fails, if it does. -/
def failure? (unifier : Unifier) (constraint : Constraint) : Option UnificationError :=
  match (unifier.substitution.extend (unifier.pending constraint)).1 with
  | .ok () => none
  | .error error => some error

/-- The failures of constraints that are solved in order, with nothing for a constraint that is
solved. -/
def failures (unifier : Unifier) : List Constraint → List (Option UnificationError)
  | [] => []
  | constraint :: constraints =>
    unifier.failure? constraint :: (unifier.solve constraint).failures constraints

/-- Failures, each with the node that is to blame. -/
def blame (constraints : List Constraint) (failures : List (Option UnificationError)) :
    List (NodeId × UnificationError) :=
  (constraints.zip failures).filterMap fun (constraint, failure?) =>
    failure?.map fun error => (constraint.origin, error)

theorem blame_cons (constraint : Constraint) (constraints : List Constraint)
    (failure? : Option UnificationError) (failures : List (Option UnificationError)) :
    blame (constraint :: constraints) (failure? :: failures) =
      (failure?.map fun error => (constraint.origin, error)).toList ++
        blame constraints failures := by
  cases failure? <;> rfl

theorem errors_solve (unifier : Unifier) (constraint : Constraint) :
    (unifier.solve constraint).errors.toList = unifier.errors.toList ++
      ((unifier.failure? constraint).map fun error => (constraint.origin, error)).toList := by
  unfold failure? pending solve
  dsimp only
  split
  all_goals
    rename_i ends
    rw [ends]
    simp

/-- A run reports its failures in order, after what was reported before. -/
theorem errors_solveAll (unifier : Unifier) (constraints : List Constraint) :
    (unifier.solveAll constraints).errors.toList =
      unifier.errors.toList ++ blame constraints (unifier.failures constraints) := by
  induction constraints generalizing unifier with
  | nil => simp [blame, failures]
  | cons constraint constraints ih =>
    rw [solveAll_cons, ih, errors_solve, failures, blame_cons, List.append_assoc]

theorem solveAll_append (unifier : Unifier) (before after : List Constraint) :
    unifier.solveAll (before ++ after) = (unifier.solveAll before).solveAll after :=
  List.foldl_append ..

section SameBindings

variable {left right : Unifier} (same : left.substitution = right.substitution)
include same

/-- Whether a constraint fails, and what it binds, depends on the bindings only. -/
theorem solve_congr (constraint : Constraint) :
    left.failure? constraint = right.failure? constraint ∧
      (left.solve constraint).substitution = (right.solve constraint).substitution := by
  rw [substitution_solve, substitution_solve, failure?, failure?, pending, pending, same]
  exact ⟨rfl, rfl⟩

/-- Only the bindings decide how a run goes on. -/
theorem failures_congr (constraints : List Constraint) :
    left.failures constraints = right.failures constraints ∧
      (left.solveAll constraints).substitution = (right.solveAll constraints).substitution := by
  induction constraints generalizing left right with
  | nil => exact ⟨rfl, same⟩
  | cons constraint constraints ih =>
    obtain ⟨first, bound⟩ := solve_congr same constraint
    obtain ⟨rest, final⟩ := ih bound
    exact ⟨by rw [failures, failures, first, rest], final⟩

end SameBindings

/-- What remains of a constraint: one constraint for each variable that it has bound. -/
def remains (unifier : Unifier) (constraint : Constraint) : List Constraint :=
  (unifier.pending constraint).bindings.map fun (name, type) =>
    { head := .variable name, tail := type, origin := constraint.origin }

section Remains

variable {unifier : Unifier}

/-- A constraint that asks for a possible binding is solved by it. -/
theorem solve_binding {name : String} {type : StaticType} (origin : NodeId)
    (unbound : unifier.substitution.get? name = none)
    (settled : unifier.substitution.Settled type) (absent : name ∉ type.freeVariables) :
    unifier.solve { head := .variable name, tail := type, origin } =
      { unifier with substitution := unifier.substitution.bind name type } := by
  have different : StaticType.variable name ≠ type := by
    rintro rfl
    exact absent (by simp [StaticType.freeVariables])
  have demanded : demand (.variable name) type = .binding name type := by
    rw [demand_variable different]
    simp [occurs, absent]
  have ends : unifier.substitution.extend [(.variable name, type)] =
      (.ok (), unifier.substitution.bind name type) := by
    rw [extend_eq, reduce_cons, demanded]
    change (unifier.substitution.bind name type).extend [] = _
    rw [extend_eq, Equations.reduce]
  simp only [solve, resolveAll_of_get?_eq_none unbound, settled.resolveAll_eq, ends]

/-- The bindings that solving equations makes are made by constraints of their own. -/
theorem solveAll_bindings {equations : Equations}
    (settled : unifier.substitution.SettledIn equations) (origin : NodeId) :
    unifier.solveAll (equations.bindings.map fun (name, type) =>
        { head := .variable name, tail := type, origin }) =
      { unifier with substitution := unifier.substitution.bindAll equations.bindings } := by
  fun_induction Equations.bindings equations generalizing unifier with
  | case1 => rfl
  | case2 => rfl
  | case3 equations name type rest reduced ih =>
    obtain ⟨mem, absent, types, -⟩ := reduce_bind reduced
    have first := solve_binding origin (settled name mem)
      (fun other inType => settled other (types inType)) absent
    rw [List.map_cons, solveAll_cons, first, ih (settled.bind reduced)]
    rfl

/-- Solving what remains of a constraint binds what the constraint has bound, without a failure. -/
theorem solveAll_remains (acyclic : unifier.substitution.Acyclic) (constraint : Constraint) :
    unifier.solveAll (unifier.remains constraint) =
      { unifier with substitution := (unifier.solve constraint).substitution } := by
  rw [remains, solveAll_bindings (settledIn_pending acyclic constraint), substitution_solve,
    extend_snd]

/-- Nothing remains of a constraint exactly if it leaves the bindings as they were. -/
theorem remains_eq_nil_iff (acyclic : unifier.substitution.Acyclic) (constraint : Constraint) :
    unifier.remains constraint = [] ↔
      (unifier.solve constraint).substitution = unifier.substitution := by
  rw [substitution_solve, extend_snd, remains, List.map_eq_nil_iff]
  constructor
  · intro nothing
    rw [nothing, bindAll_nil]
  · intro same
    cases made : (unifier.pending constraint).bindings with
    | nil => rfl
    | cons binding more =>
      obtain ⟨name, type⟩ := binding
      have unbound := settledIn_pending acyclic constraint name
        (mem_freeVariables_of_bindings made)
      have bound : ((unifier.substitution.bind name type).get? name).isSome := by
        rw [get?_bind, if_pos rfl]
        rfl
      have stays := isSome_get?_bindAll bound more
      rw [← bindAll_cons, ← made, same, unbound] at stays
      cases stays

end Remains

/-- A constraint that fails is not dropped: it has the effect of what remains of it.  The run ends
with the bindings with which it would end if the failed constraint were replaced by one constraint
for each variable that it has bound, and apart from its own failure it reports the same.  The bindings
are as they were before exactly if nothing remains of the constraint, so that it is only then that
the run goes on as if the constraint were removed. -/
theorem solveAll_failed {before : List Constraint} {failed : Constraint} {error : UnificationError}
    (fails : (({} : Unifier).solveAll before).failure? failed = some error)
    (after : List Constraint) :
    let unifier := ({} : Unifier).solveAll before
    let remains := unifier.remains failed
    let whole := ({} : Unifier).solveAll (before ++ failed :: after)
    let replaced := ({} : Unifier).solveAll (before ++ remains ++ after)
    whole.substitution = replaced.substitution ∧
    (∃ others, whole.errors.toList = unifier.errors.toList ++ (failed.origin, error) :: others ∧
      replaced.errors.toList = unifier.errors.toList ++ others) ∧
    (remains = [] ↔ (unifier.solve failed).substitution = unifier.substitution) := by
  intro unifier remains whole replaced
  have empty : ({} : Unifier).substitution.Acyclic := acyclic_empty
  have acyclic : unifier.substitution.Acyclic := (extends_solveAll empty before).acyclic
  have wholeRun : whole = (unifier.solve failed).solveAll after := solveAll_append ..
  have replacedRun : replaced =
      ({ unifier with substitution := (unifier.solve failed).substitution } : Unifier).solveAll
        after := by
    rw [← solveAll_remains acyclic failed]
    exact (solveAll_append ..).trans (congrArg (solveAll · after) (solveAll_append ..))
  have same : (unifier.solve failed).substitution =
      ({ unifier with substitution := (unifier.solve failed).substitution } :
        Unifier).substitution := rfl
  obtain ⟨failures, final⟩ := failures_congr same after
  refine ⟨?_, ⟨blame after ((unifier.solve failed).failures after), ?_, ?_⟩,
    remains_eq_nil_iff acyclic failed⟩
  · rw [wholeRun, replacedRun, final]
  · rw [wholeRun, errors_solveAll, errors_solve, fails]
    simp
  · rw [replacedRun, errors_solveAll, failures]

/-- A number for the variable that the failed pair has bound to `String`. -/
def numberForLeftover : Constraint :=
  ⟨.variable "?a", .number, 4⟩

/-- The pair fails after it has bound `?a`; what remains of it makes the next constraint fail. -/
theorem solveAll_failed_halfSolvedPair :
    let unifier := ({} : Unifier).solveAll [arrayOfLeftover]
    let whole := ({} : Unifier).solveAll [arrayOfLeftover, halfSolvedPair, numberForLeftover]
    let replaced := ({} : Unifier).solveAll
      [arrayOfLeftover, ⟨.variable "?a", .string, 1⟩, numberForLeftover]
    unifier.failure? halfSolvedPair = some (.mismatch .number .boolean) ∧
    unifier.remains halfSolvedPair = [⟨.variable "?a", .string, 1⟩] ∧
    whole.substitution = replaced.substitution ∧
    whole.errors.toList = [(1, .mismatch .number .boolean), (4, .mismatch .string .number)] ∧
    replaced.errors.toList = [(4, .mismatch .string .number)] ∧
    (unifier.solve halfSolvedPair).substitution ≠ unifier.substitution := by
  intro unifier whole replaced
  have fails : unifier.failure? halfSolvedPair = some (.mismatch .number .boolean) := by
    decide +kernel
  have made : (unifier.pending halfSolvedPair).bindings = [("?a", .string)] := by decide +kernel
  have remaining : unifier.remains halfSolvedPair = [⟨.variable "?a", .string, 1⟩] := by
    rw [remains, made]
    rfl
  have others : replaced.errors.toList = [(4, .mismatch .string .number)] := by decide +kernel
  obtain ⟨same, ⟨more, reported, reportedToo⟩, trace⟩ := solveAll_failed fails [numberForLeftover]
  rw [remaining] at same reportedToo trace
  have first : (({} : Unifier).solveAll [arrayOfLeftover]).errors.toList = [] := by decide +kernel
  rw [first, List.nil_append] at reported reportedToo
  refine ⟨fails, remaining, same, ?_, others, fun untouched => ?_⟩
  · exact reported.trans (congrArg _ (reportedToo.symm.trans others))
  · cases trace.2 untouched

/-- A failed constraint changes how the run goes on: the pair leaves `?a` bound to `String`, so a
constraint fails that is solved if the pair is removed. -/
theorem halfSolvedPair_notDropped :
    ({} : Unifier).failure? halfSolvedPair = some (.mismatch .number .boolean) ∧
    ({} : Unifier).substitution.get? "?a" = none ∧
    (({} : Unifier).solve halfSolvedPair).substitution.get? "?a" = some .string ∧
    (({} : Unifier).solveAll [halfSolvedPair, numberForLeftover]).errors =
      #[(1, .mismatch .number .boolean), (4, .mismatch .string .number)] ∧
    (({} : Unifier).solveAll [numberForLeftover]).errors = #[] ∧
    (({} : Unifier).solveAll [halfSolvedPair, numberForLeftover]).finish.get? "?a" = some .string ∧
    (({} : Unifier).solveAll [numberForLeftover]).finish.get? "?a" = some .number := by
  decide +kernel

end Unifier

end DeclLang
