import DeclLang.Proofs.AcceptedConstraints
import Mathlib.Logic.Relation
import Mathlib.Order.WellFounded

/-!
# Worklists

Solving resolves both sides of a constraint before it takes them apart.  A loop can put that off:
it looks up variables only at the top of the equation that it takes from the queue, and resolves a
type only when it binds a variable to it or reports a failure.  Neither following bindings, nor
resolving, nor the loop has a bound; all of them end because bindings have no cycle.

**Input.**  Bindings without a cycle, and a queue of equations that nothing was applied to.

**Algorithm.**  `Bindings.shallow` follows bindings at the top of a type, `Bindings.zonk` resolves a
type everywhere.  `Worklist.turn` takes one equation from the front; its parts join the end of the
queue.

**Results.**
* `Substitution.Acyclic.visits_wellFounded`: nothing is resolved for its own sake.
* `Worklist.turns_wellFounded`: a turn that binds a variable leaves fewer unknowns, and any other
  leaves lighter equations, both counted after resolving.
* `Worklist.run_eq`: the loop ends as `Substitution.extend` does on the resolved queue.
* `Unifier.worklists_end`: whatever was solved before, all loops for the next constraint end, they
  only bind variables that were not bound, and they give what solving gives.
-/

namespace DeclLang

open StaticType

namespace Substitution

/-- The outer variable is bound to a type that mentions the inner one. -/
def Mentions (substitution : Substitution) (inner outer : String) : Prop :=
  ∃ type, substitution.get? outer = some type ∧ inner ∈ type.freeVariables

/-- The type that a variable leads to. -/
def Leads (substitution : Substitution) (next type : StaticType) : Prop :=
  ∃ name, type = .variable name ∧ substitution.get? name = some next

/-- The types that have to be resolved so that a type can be. -/
inductive Visits (substitution : Substitution) : StaticType → StaticType → Prop
  | binding {name : String} {type : StaticType} (bound : substitution.get? name = some type) :
    Visits substitution type (.variable name)
  | parameter {name : String} {parameters : List StaticType} {type : StaticType}
    (mem : type ∈ parameters) : Visits substitution type (.constant name parameters)
  | argument {arguments : List (Option String × StaticType)} {result : StaticType}
    {argument : Option String × StaticType} (mem : argument ∈ arguments) :
    Visits substitution argument.2 (.function arguments result)
  | result {arguments : List (Option String × StaticType)} {result : StaticType} :
    Visits substitution result (.function arguments result)

section Acyclic

variable {substitution : Substitution}

/-- Bindings without a cycle lead from every variable to variables of lower rank. -/
theorem Acyclic.mentions_wellFounded (acyclic : substitution.Acyclic) :
    WellFounded substitution.Mentions := by
  obtain ⟨rank, ranked⟩ := acyclic
  -- Variables without a binding are below all others.
  let height (name : String) : Nat :=
    if (substitution.get? name).isSome then rank name + 1 else 0
  refine Subrelation.wf (fun {inner outer} mentions => ?_) (measure height).wf
  obtain ⟨type, bound, mem⟩ := mentions
  have outerHeight : height outer = rank outer + 1 := if_pos (by rw [bound]; rfl)
  change height inner < height outer
  rw [outerHeight]
  by_cases innerBound : (substitution.get? inner).isSome
  · have innerHeight : height inner = rank inner + 1 := if_pos innerBound
    have := ranked.descends outer type bound inner mem innerBound
    omega
  · have innerHeight : height inner = 0 := if_neg innerBound
    omega

theorem Acyclic.not_mentions_itself (acyclic : substitution.Acyclic) (name : String) :
    ¬ Relation.TransGen substitution.Mentions name name := fun cycle =>
  acyclic.mentions_wellFounded.transGen.irrefl.irrefl name cycle

/-- A type can be resolved if its variables can. -/
theorem acc_visits {type : StaticType}
    (h : ∀ name ∈ type.freeVariables, Acc substitution.Visits (.variable name)) :
    Acc substitution.Visits type := by
  induction type using parts_induction with
  | onVariable name => exact h name (by simp [freeVariables])
  | onGeneric name =>
    constructor
    intro next visited
    cases visited
  | onConstant name parameters ih =>
    constructor
    intro next visited
    cases visited with
    | parameter mem =>
      refine ih next mem fun other inside => h other ?_
      rw [freeVariables]
      exact List.mem_flatMap.2 ⟨next, mem, inside⟩
  | onFunction arguments result ihArguments ihResult =>
    constructor
    intro next visited
    cases visited with
    | argument mem =>
      refine ihArguments _ mem fun other inside => h other ?_
      rw [freeVariables]
      exact List.mem_append_left _ (List.mem_flatMap.2 ⟨_, mem, inside⟩)
    | result =>
      refine ihResult fun other inside => h other ?_
      rw [freeVariables]
      exact List.mem_append_right _ inside

theorem Acyclic.visits_wellFounded (acyclic : substitution.Acyclic) :
    WellFounded substitution.Visits := by
  have acc (name : String) : Acc substitution.Visits (.variable name) := by
    induction name using acyclic.mentions_wellFounded.induction with
    | _ name ih =>
      constructor
      intro next visited
      cases visited with
      | binding bound => exact acc_visits fun inner mem => ih inner ⟨next, bound, mem⟩
  exact ⟨fun type => acc_visits fun name _ => acc name⟩

theorem Acyclic.leads_wellFounded (acyclic : substitution.Acyclic) :
    WellFounded substitution.Leads := by
  refine Subrelation.wf (fun {next type} leads => ?_) acyclic.visits_wellFounded
  obtain ⟨name, rfl, bound⟩ := leads
  exact .binding bound

end Acyclic

end Substitution

/-- The parts of a type are the same as themselves. -/
theorem Equations.Splits.same {type : StaticType} {equations : Equations}
    (splits : Splits type type equations) : ∀ equation ∈ equations, equation.1 = equation.2 := by
  have twice (types : List StaticType) (equation : StaticType × StaticType)
      (mem : equation ∈ types.zip types) : equation.1 = equation.2 := by
    rw [← List.map_id types, List.zip_map', List.mem_map] at mem
    obtain ⟨type, -, rfl⟩ := mem
    rfl
  generalize same : type = other at splits
  cases splits with
  | constants length =>
    cases same
    exact twice _
  | functions length =>
    cases same
    exact List.forall_mem_cons.2 ⟨rfl, twice _⟩

/-- A function on types that keeps constructors keeps how types are taken apart, whatever it does to
labels. -/
theorem Equations.Splits.map {f : StaticType → StaticType}
    (relabel : Option String → Option String)
    (constants : ∀ name parameters,
      f (.constant name parameters) = .constant name (parameters.map f))
    (functions : ∀ arguments result, f (.function arguments result) =
      .function (arguments.map fun argument => (relabel argument.1, f argument.2)) (f result))
    {head tail : StaticType} {equations : Equations} (splits : Splits head tail equations) :
    Splits (f head) (f tail) (equations.map fun equation => (f equation.1, f equation.2)) := by
  have zip (left right : List StaticType) :
      ((left.zip right).map fun equation => (f equation.1, f equation.2)) =
        (left.map f).zip (right.map f) := by
    rw [List.zip_map]
    rfl
  cases splits with
  | constants length =>
    rw [constants, constants, zip]
    exact .constants (by simpa using length)
  | functions length =>
    have types (items : List (Option String × StaticType)) : (items.map Prod.snd).map f =
        (items.map fun item => (relabel item.1, f item.2)).map Prod.snd := by
      simp only [List.map_map, Function.comp_def]
    rw [functions, functions, List.map_cons, zip, types, types]
    exact .functions (by simpa using length)

/-- Bindings without a cycle. -/
structure Bindings where
  substitution : Substitution
  acyclic : substitution.Acyclic

namespace Bindings

variable (bindings : Bindings)

/-- The type that a variable is bound to. -/
def get? (name : String) : Option StaticType :=
  bindings.substitution.get? name

/-- Follows bindings at the top of a type. -/
def shallow (type : StaticType) : StaticType :=
  match type with
  | .variable name =>
    match _h : bindings.get? name with
    | some bound => shallow bound
    | none => .variable name
  | other => other
termination_by bindings.acyclic.leads_wellFounded.wrap type
decreasing_by exact ⟨name, rfl, _h⟩

/-- Resolves every variable of a type, however long the way is. -/
def zonk (type : StaticType) : StaticType :=
  match type with
  | .variable name =>
    match _h : bindings.get? name with
    | some bound => zonk bound
    | none => .variable name
  | .generic name => .generic name
  | .constant name parameters => .constant name (parameters.map zonk)
  | .function arguments result =>
    .function (arguments.map fun argument => (argument.1, zonk argument.2)) (zonk result)
termination_by bindings.acyclic.visits_wellFounded.wrap type
decreasing_by
  · exact .binding _h
  · exact .parameter ‹_›
  · exact .argument ‹_›
  · exact .result

theorem zonk_bound {name : String} {type : StaticType} (bound : bindings.get? name = some type) :
    bindings.zonk (.variable name) = bindings.zonk type := by
  rw [zonk]
  split
  · rename_i other found
    rw [bound] at found
    cases found
    rfl
  · rename_i unbound
    rw [bound] at unbound
    cases unbound

theorem zonk_unbound {name : String} (unbound : bindings.get? name = none) :
    bindings.zonk (.variable name) = .variable name := by
  rw [zonk]
  split
  · rename_i other found
    rw [unbound] at found
    cases found
  · rfl

/-- Looking at the top of a type does not change what it stands for. -/
theorem zonk_shallow (type : StaticType) :
    bindings.zonk (bindings.shallow type) = bindings.zonk type := by
  fun_induction shallow bindings type with
  | case1 name bound found ih => rw [ih, zonk_bound bindings found]
  | case2 => rfl
  | case3 => rfl

/-- A variable at the top of a type that bindings were followed from is not bound. -/
theorem unbound_of_shallow {type : StaticType} {name : String}
    (h : bindings.shallow type = .variable name) : bindings.get? name = none := by
  fun_induction shallow bindings type with
  | case1 other bound found ih => exact ih h
  | case2 other unbound =>
    cases h
    exact unbound
  | case3 type notVariable =>
    exact absurd h (notVariable name)

/-- Resolving all the way is the replacement that as many passes as there are bindings make. -/
theorem zonk_eq (type : StaticType) :
    bindings.zonk type = bindings.substitution.resolveAll type := by
  induction type using bindings.acyclic.visits_wellFounded.induction with
  | _ type ih =>
    cases type using parts_induction with
    | onVariable name =>
      cases found : bindings.get? name with
      | none =>
        rw [zonk_unbound bindings found, Substitution.resolveAll_of_get?_eq_none found]
      | some bound =>
        rw [zonk_bound bindings found, ih bound (.binding found),
          Substitution.resolveAll_of_get? bindings.acyclic found]
    | onGeneric name =>
      rw [zonk, Substitution.resolveAll_eq]
      simp only [instantiate, mapLeaves]
    | onConstant name parameters =>
      rw [zonk, Substitution.resolveAll_eq]
      simp only [instantiate, mapLeaves, constant.injEq, true_and]
      refine List.map_congr_left fun type mem => ?_
      rw [ih type (.parameter mem), Substitution.resolveAll_eq]
      rfl
    | onFunction arguments result =>
      rw [zonk, Substitution.resolveAll_eq]
      simp only [instantiate, mapLeaves, function.injEq]
      constructor
      · refine List.map_congr_left fun argument mem => ?_
        rw [ih argument.2 (.argument mem), Substitution.resolveAll_eq]
        rfl
      · rw [ih result .result, Substitution.resolveAll_eq]
        rfl

theorem settled_zonk (type : StaticType) : bindings.substitution.Settled (bindings.zonk type) := by
  rw [zonk_eq]
  exact Substitution.settled_resolveAll bindings.acyclic type

/-- A variable that is not bound yet, and a resolved type that does not mention it. -/
structure Bindable (name : String) (type : StaticType) : Prop where
  unbound : bindings.get? name = none
  settled : bindings.substitution.Settled type
  absent : name ∉ type.freeVariables

/-- Binds a variable. -/
def bind (name : String) (type : StaticType) (bindable : bindings.Bindable name type) :
    Bindings where
  substitution := bindings.substitution.bind name type
  acyclic := bindings.acyclic.bind bindable.unbound bindable.settled bindable.absent

theorem zonk_settled {type : StaticType} (settled : bindings.substitution.Settled type) :
    bindings.zonk type = type := by
  rw [zonk_eq, settled.resolveAll_eq]

/-- Once a variable is bound, resolving replaces it as well. -/
theorem zonk_bind {name : String} {type : StaticType} (bindable : bindings.Bindable name type)
    (other : StaticType) :
    (bindings.bind name type bindable).zonk other =
      (bindings.zonk other).replaceVariable name type := by
  obtain ⟨unbound, settled, absent⟩ := id bindable
  have found (x : String) : (bindings.bind name type bindable).get? x =
      if x = name then some type else bindings.get? x :=
    Substitution.get?_bind _ _ _ _
  generalize bindings.bind name type bindable = after at found ⊢
  have resolved : after.zonk type = type := by
    refine after.zonk_settled fun x mem => ?_
    have different : x ≠ name := by
      rintro rfl
      exact absent mem
    rw [show after.substitution.get? x = _ from found x, if_neg different]
    exact settled x mem
  induction other using bindings.acyclic.visits_wellFounded.induction with
  | _ other ih =>
    unfold replaceVariable at ih ⊢
    cases other using parts_induction with
    | onVariable x =>
      have here := found x
      by_cases same : x = name
      · rw [if_pos same] at here
        rw [zonk_bound after here, resolved, same, zonk_unbound bindings unbound, mapLeaves,
          if_pos rfl]
      · rw [if_neg same] at here
        cases before : bindings.get? x with
        | none =>
          rw [before] at here
          rw [zonk_unbound after here, zonk_unbound bindings before, mapLeaves, if_neg same]
        | some bound =>
          rw [before] at here
          rw [zonk_bound after here, zonk_bound bindings before]
          exact ih bound (.binding before)
    | onGeneric x => rw [zonk, zonk, mapLeaves]
    | onConstant x parameters =>
      rw [zonk, zonk, mapLeaves, List.map_map]
      exact congrArg _ (List.map_congr_left fun part mem => ih part (.parameter mem))
    | onFunction arguments result =>
      rw [zonk, zonk, mapLeaves, List.map_map, ih result .result]
      refine congrArg (function · _) (List.map_congr_left fun argument mem => ?_)
      exact congrArg _ (ih argument.2 (.argument mem))

/-- Looks at one equation between types that bindings were followed from.  The type that a variable
is bound to is resolved before anything else is asked about it. -/
def examine (head tail : StaticType) : Equations.Demand :=
  if head = tail then .nothing
  else match head, tail with
    | .variable name, other | other, .variable name =>
      let type := bindings.zonk other
      if type.occurs name then .impossible (.occursCheck name type) else .binding name type
    | .constant name parameters, .constant other arguments =>
      if name = other then
        if parameters.length ≠ arguments.length then
          .impossible (.arityMismatch name parameters.length arguments.length)
        else .parts (parameters.zip arguments)
      else
        .impossible (.mismatch (bindings.zonk (.constant name parameters))
          (bindings.zonk (.constant other arguments)))
    | .function parameters result, .function arguments returned =>
      if parameters.length ≠ arguments.length then
        .impossible (.parameterCountMismatch parameters.length arguments.length)
      else .parts ((result, returned) ::
        (parameters.map Prod.snd).zip (arguments.map Prod.snd))
    | head, tail => .impossible (.mismatch (bindings.zonk head) (bindings.zonk tail))

/-- Resolves both sides of every equation. -/
def zonkAll (equations : Equations) : Equations :=
  equations.map fun equation => (bindings.zonk equation.1, bindings.zonk equation.2)

/-- The demand that is left when what it asks for is resolved. -/
def zonkDemand : Equations.Demand → Equations.Demand
  | .parts equations => .parts (bindings.zonkAll equations)
  | other => other

@[simp] theorem zonkDemand_binding (name : String) (type : StaticType) :
    bindings.zonkDemand (.binding name type) = .binding name type :=
  rfl

@[simp] theorem zonkDemand_impossible (error : UnificationError) :
    bindings.zonkDemand (.impossible error) = .impossible error :=
  rfl

@[simp] theorem zonkDemand_parts (equations : Equations) :
    bindings.zonkDemand (.parts equations) = .parts (bindings.zonkAll equations) :=
  rfl

/-- A variable may only be at the top of the type if it is not bound. -/
def Exposes (type : StaticType) : Prop :=
  ∀ name, type = .variable name → bindings.get? name = none

theorem exposes_shallow (type : StaticType) : bindings.Exposes (bindings.shallow type) :=
  fun _ => unbound_of_shallow bindings

theorem zonk_constant (name : String) (parameters : List StaticType) :
    bindings.zonk (.constant name parameters) = .constant name (parameters.map bindings.zonk) := by
  rw [zonk]

theorem zonk_function (arguments : List (Option String × StaticType)) (result : StaticType) :
    bindings.zonk (.function arguments result) =
      .function (arguments.map fun argument => (argument.1, bindings.zonk argument.2))
        (bindings.zonk result) := by
  rw [zonk]

theorem zonk_generic (name : String) : bindings.zonk (.generic name) = .generic name := by
  rw [zonk]

theorem zonkAll_zip (left right : List StaticType) :
    bindings.zonkAll (left.zip right) =
      (left.map bindings.zonk).zip (right.map bindings.zonk) := by
  rw [zonkAll, List.zip_map]
  rfl

section Examine

variable {bindings} {head tail : StaticType} (top : bindings.Exposes head)
  (bottom : bindings.Exposes tail)

include top bottom

/-- Examining two types demands what their resolved forms demand, unless those are the same. -/
theorem demand_zonk (differ : bindings.zonk head ≠ bindings.zonk tail) :
    Equations.demand (bindings.zonk head) (bindings.zonk tail) =
      bindings.zonkDemand (bindings.examine head tail) := by
  have different : head ≠ tail := by
    rintro rfl
    exact differ rfl
  unfold examine Equations.demand
  rw [if_neg differ, if_neg different]
  -- Variables that are exposed are unbound, so that resolving changes no head.
  cases head using parts_induction with
  | onVariable name =>
    rw [zonk_unbound bindings (top name rfl)]
    simp only [apply_ite bindings.zonkDemand, zonkDemand_impossible,
        zonkDemand_binding]
  | onGeneric name =>
    cases tail using parts_induction with
    | onVariable other =>
      rw [zonk_unbound bindings (bottom other rfl)]
      simp only [zonk_generic, apply_ite bindings.zonkDemand, zonkDemand_impossible,
        zonkDemand_binding]
    | onGeneric other => simp only [zonk_generic, zonkDemand_impossible]
    | onConstant other arguments => simp only [zonk_generic, zonk_constant, zonkDemand_impossible]
    | onFunction arguments returned =>
      simp only [zonk_generic, zonk_function, zonkDemand_impossible]
  | onConstant name parameters =>
    cases tail using parts_induction with
    | onVariable other =>
      rw [zonk_unbound bindings (bottom other rfl)]
      simp only [zonk_constant, apply_ite bindings.zonkDemand, zonkDemand_impossible,
        zonkDemand_binding]
    | onGeneric other => simp only [zonk_generic, zonk_constant, zonkDemand_impossible]
    | onConstant other arguments =>
      simp only [zonk_constant, List.length_map, ne_eq, ite_not]
      split
      · split
        · rw [zonkDemand_parts, zonkAll_zip]
        · rfl
      · rfl
    | onFunction arguments returned =>
      simp only [zonk_constant, zonk_function, zonkDemand_impossible]
  | onFunction parameters result =>
    cases tail using parts_induction with
    | onVariable other =>
      rw [zonk_unbound bindings (bottom other rfl)]
      simp only [zonk_function, apply_ite bindings.zonkDemand, zonkDemand_impossible,
        zonkDemand_binding]
    | onGeneric other => simp only [zonk_generic, zonk_function, zonkDemand_impossible]
    | onConstant other arguments => simp only [zonk_function, zonk_constant, zonkDemand_impossible]
    | onFunction arguments returned =>
      simp only [zonk_function, List.length_map, ne_eq, ite_not]
      split
      · have results : bindings.zonkAll ((result, returned) ::
            (parameters.map Prod.snd).zip (arguments.map Prod.snd)) =
            (bindings.zonk result, bindings.zonk returned) ::
              bindings.zonkAll ((parameters.map Prod.snd).zip (arguments.map Prod.snd)) := rfl
        rw [zonkDemand_parts, results, zonkAll_zip]
        simp only [List.map_map, Function.comp_def]
      · rfl

/-- Types with the same resolved form are the same or are taken apart. -/
theorem examine_of_same (same : bindings.zonk head = bindings.zonk tail) :
    bindings.examine head tail = .nothing ∨
      ∃ equations, bindings.examine head tail = .parts equations := by
  by_cases equal : head = tail
  · exact .inl (if_pos equal)
  right
  unfold examine
  rw [if_neg equal]
  cases head using parts_induction with
  | onVariable name =>
    rw [zonk_unbound bindings (top name rfl)] at same
    cases tail using parts_induction with
    | onVariable other =>
      rw [zonk_unbound bindings (bottom other rfl)] at same
      exact absurd same equal
    | onGeneric other => simp [zonk_generic] at same
    | onConstant other arguments => simp [zonk_constant] at same
    | onFunction arguments returned => simp [zonk_function] at same
  | onGeneric name =>
    rw [zonk_generic] at same
    cases tail using parts_induction with
    | onVariable other => simp [zonk_unbound bindings (bottom other rfl)] at same
    | onGeneric other =>
      rw [zonk_generic] at same
      exact absurd same equal
    | onConstant other arguments => simp [zonk_constant] at same
    | onFunction arguments returned => simp [zonk_function] at same
  | onConstant name parameters =>
    rw [zonk_constant] at same
    cases tail using parts_induction with
    | onVariable other => simp [zonk_unbound bindings (bottom other rfl)] at same
    | onGeneric other => simp [zonk_generic] at same
    | onConstant other arguments =>
      rw [zonk_constant, constant.injEq] at same
      have length : parameters.length = arguments.length := by
        simpa using congrArg List.length same.2
      dsimp only
      rw [if_pos same.1, if_neg (not_not_intro length)]
      exact ⟨_, rfl⟩
    | onFunction arguments returned => simp [zonk_function] at same
  | onFunction parameters result =>
    rw [zonk_function] at same
    cases tail using parts_induction with
    | onVariable other => simp [zonk_unbound bindings (bottom other rfl)] at same
    | onGeneric other => simp [zonk_generic] at same
    | onConstant other arguments => simp [zonk_constant] at same
    | onFunction arguments returned =>
      rw [zonk_function, function.injEq] at same
      have length : parameters.length = arguments.length := by
        simpa using congrArg List.length same.1
      dsimp only
      rw [if_neg (not_not_intro length)]
      exact ⟨_, rfl⟩

/-- Examining two types asks for a binding only if their resolved forms do. -/
theorem demand_of_examine_binding {name : String} {type : StaticType}
    (h : bindings.examine head tail = .binding name type) :
    Equations.demand (bindings.zonk head) (bindings.zonk tail) = .binding name type := by
  have differ : bindings.zonk head ≠ bindings.zonk tail := by
    intro same
    rcases examine_of_same top bottom same with nothing | ⟨equations, parts⟩
    · rw [h] at nothing
      cases nothing
    · rw [h] at parts
      cases parts
  rw [demand_zonk top bottom differ, h, zonkDemand_binding]

end Examine

/-- A variable that resolved types ask to be bound is not bound yet. -/
theorem bindable_of_demand {head tail type : StaticType} {name : String}
    (h : Equations.demand (bindings.zonk head) (bindings.zonk tail) = .binding name type) :
    bindings.Bindable name type := by
  obtain ⟨⟨left, rfl⟩ | ⟨right, rfl⟩, absent⟩ := Equations.demand_binding h
  · have settled := bindings.settled_zonk head
    rw [left] at settled
    exact ⟨settled name (by simp [freeVariables]), bindings.settled_zonk tail, absent⟩
  · have settled := bindings.settled_zonk tail
    rw [right] at settled
    exact ⟨settled name (by simp [freeVariables]), bindings.settled_zonk head, absent⟩

theorem splits_of_examine {head tail : StaticType} {equations : Equations}
    (h : bindings.examine head tail = .parts equations) :
    Equations.Splits head tail equations := by
  unfold examine at h
  split at h
  · cases h
  · split at h
    · dsimp only at h
      split at h <;> cases h
    · dsimp only at h
      split at h <;> cases h
    · split at h
      · rename_i sameName
        split at h
        · cases h
        · rename_i sameLength
          cases h
          subst sameName
          exact .constants (Decidable.not_not.1 sameLength)
      · cases h
    · split at h
      · cases h
      · rename_i sameLength
        cases h
        exact .functions (Decidable.not_not.1 sameLength)
    · cases h

/-- Resolved types are taken apart in the same way. -/
theorem splits_zonk {head tail : StaticType} {equations : Equations}
    (splits : Equations.Splits head tail equations) :
    Equations.Splits (bindings.zonk head) (bindings.zonk tail) (bindings.zonkAll equations) :=
  splits.map id bindings.zonk_constant bindings.zonk_function

end Bindings

namespace Equations

/-- Fewer variables are fewer unknowns. -/
theorem unknowns_le_of_subset {equations others : Equations}
    (h : equations.freeVariables ⊆ others.freeVariables) :
    equations.unknowns ≤ others.unknowns := by
  refine List.Nodup.length_le_of_subset (nodup_eraseDups _) fun name mem => ?_
  rw [List.mem_eraseDups] at mem ⊢
  exact h mem

/-- The equations between different types. -/
def essential (equations : Equations) : Equations :=
  equations.filter fun equation => equation.1 ≠ equation.2

theorem essential_cons_self (type : StaticType) (rest : Equations) :
    essential ((type, type) :: rest) = rest.essential :=
  List.filter_cons_of_neg (by simp)

theorem essential_cons {head tail : StaticType} (differ : head ≠ tail) (rest : Equations) :
    essential ((head, tail) :: rest) = (head, tail) :: rest.essential :=
  List.filter_cons_of_pos (by simpa using differ)

theorem essential_append (front back : Equations) :
    essential (front ++ back) = front.essential ++ back.essential :=
  List.filter_append ..

/-- Equations that differ in nothing essential still do so when a variable is replaced. -/
theorem essential_replaceVariable (name : String) (type : StaticType) {equations others : Equations}
    (same : equations.essential = others.essential) :
    (equations.replaceVariable name type).essential =
      (others.replaceVariable name type).essential := by
  have first (equations : Equations) : (equations.replaceVariable name type).essential =
      (equations.essential.replaceVariable name type).essential := by
    induction equations with
    | nil => rfl
    | cons equation rest ih =>
      obtain ⟨head, tail⟩ := equation
      by_cases equal : head = tail
      · subst equal
        rw [essential_cons_self, ← ih]
        exact essential_cons_self _ _
      · rw [essential_cons equal]
        by_cases replaced : head.replaceVariable name type = tail.replaceVariable name type
        · simp only [replaceVariable, List.map_cons] at ih ⊢
          rw [replaced, essential_cons_self, essential_cons_self, ih]
        · simp only [replaceVariable, List.map_cons] at ih ⊢
          rw [essential_cons replaced, essential_cons replaced, ih]
  rw [first, same, ← first]

/-- Two reductions end in the same way, up to equations that hold anyway. -/
inductive Reduction.Alike : Reduction → Reduction → Prop
  | solved : Alike .solved .solved
  | bind (name : String) (type : StaticType) {rest others : Equations}
    (same : rest.essential = others.essential) :
    Alike (.bind name type rest) (.bind name type others)
  | failed (error : UnificationError) : Alike (.failed error) (.failed error)

theorem reduce_cons_self (type : StaticType) (rest : Equations) :
    reduce ((type, type) :: rest) = reduce rest := by
  rw [reduce_cons, demand_self]

theorem reduce_of_essential_nil {equations : Equations} (h : equations.essential = []) :
    reduce equations = .solved := by
  induction equations with
  | nil => rw [reduce]
  | cons equation rest ih =>
    obtain ⟨head, tail⟩ := equation
    by_cases equal : head = tail
    · subst equal
      rw [essential_cons_self] at h
      rw [reduce_cons_self, ih h]
    · rw [essential_cons equal] at h
      cases h

/-- Reduction comes to the first essential equation. -/
theorem reduce_of_essential_cons {equations essentials : Equations} {head tail : StaticType}
    (h : equations.essential = (head, tail) :: essentials) :
    ∃ rest : Equations, reduce equations = reduce ((head, tail) :: rest) ∧
      rest.essential = essentials := by
  induction equations with
  | nil => cases h
  | cons equation rest ih =>
    obtain ⟨left, right⟩ := equation
    by_cases equal : left = right
    · subst equal
      rw [essential_cons_self] at h
      rw [reduce_cons_self]
      exact ih h
    · rw [essential_cons equal] at h
      cases h
      exact ⟨rest, rfl, rfl⟩

/-- Equations that hold anyway make no difference. -/
theorem reduce_alike {equations others : Equations}
    (same : equations.essential = others.essential) :
    (reduce equations).Alike (reduce others) := by
  have differ {head tail : StaticType} (something : demand head tail ≠ .nothing) :
      head ≠ tail := by
    rintro rfl
    exact something (demand_self head)
  fun_induction reduce equations generalizing others with
  | case1 =>
    rw [reduce_of_essential_nil same.symm]
    exact .solved
  | case2 head tail rest demanded ih =>
    cases eq_of_demand_nothing demanded
    rw [essential_cons_self] at same
    exact ih same
  | case3 head tail rest name type demanded =>
    rw [essential_cons (differ (by simp [demanded]))] at same
    obtain ⟨following, reduced, equal⟩ := reduce_of_essential_cons same.symm
    rw [reduced, reduce_cons, demanded]
    exact .bind name type equal.symm
  | case4 head tail rest parts demanded ih =>
    rw [essential_cons (differ (by simp [demanded]))] at same
    obtain ⟨following, reduced, equal⟩ := reduce_of_essential_cons same.symm
    rw [reduced, reduce_cons, demanded]
    refine ih ?_
    rw [essential_append, essential_append, equal]
  | case5 head tail rest error demanded =>
    rw [essential_cons (differ (by simp [demanded]))] at same
    obtain ⟨following, reduced, equal⟩ := reduce_of_essential_cons same.symm
    rw [reduced, reduce_cons, demanded]
    exact .failed error

end Equations

/-- Equations that hold anyway bind nothing. -/
theorem Substitution.extend_alike {substitution : Substitution} {equations others : Equations}
    (same : equations.essential = others.essential) :
    substitution.extend equations = substitution.extend others := by
  fun_induction Substitution.extend substitution equations generalizing others with
  | case1 substitution equations reduced =>
    have alike := Equations.reduce_alike same
    rw [reduced] at alike
    rw [extend_eq]
    generalize others.reduce = reduction at alike ⊢
    cases alike
    rfl
  | case2 substitution equations error reduced =>
    have alike := Equations.reduce_alike same
    rw [reduced] at alike
    rw [extend_eq]
    generalize others.reduce = reduction at alike ⊢
    cases alike
    rfl
  | case3 substitution equations name type rest reduced ih =>
    have alike := Equations.reduce_alike same
    rw [reduced] at alike
    rw [extend_eq substitution others]
    generalize others.reduce = reduction at alike ⊢
    cases alike with
    | bind _ _ same => exact ih (Equations.essential_replaceVariable name type same)

/-- Bindings, and equations that wait for them to be applied. -/
structure Worklist where
  bindings : Bindings
  queue : Equations

namespace Worklist

/-- What a look at the front of the queue comes to. -/
inductive Turn where
  /-- Nothing waits any more. -/
  | solved
  /-- The equation cannot hold. -/
  | failed (error : UnificationError)
  | next (later : Worklist)

/-- The tops of two types ask for a binding only if their resolved forms do. -/
theorem demand_of_tops {bindings : Bindings} {head tail type : StaticType} {name : String}
    (h : bindings.examine (bindings.shallow head) (bindings.shallow tail) = .binding name type) :
    Equations.demand (bindings.zonk head) (bindings.zonk tail) = .binding name type := by
  have demanded := Bindings.demand_of_examine_binding (bindings.exposes_shallow head)
    (bindings.exposes_shallow tail) h
  rwa [bindings.zonk_shallow, bindings.zonk_shallow] at demanded

/-- Takes an equation from the front of the queue and looks at the tops of its sides.  Its parts
join the end of the queue. -/
def turn (worklist : Worklist) : Turn :=
  let bindings := worklist.bindings
  match worklist.queue with
  | [] => .solved
  | (head, tail) :: rest =>
    match h : bindings.examine (bindings.shallow head) (bindings.shallow tail) with
    | .nothing => .next ⟨bindings, rest⟩
    | .binding name type =>
      .next ⟨bindings.bind name type (bindings.bindable_of_demand (demand_of_tops h)), rest⟩
    | .parts equations => .next ⟨bindings, rest ++ equations⟩
    | .impossible error => .failed error

/-- The queue with all bindings applied. -/
def resolved (worklist : Worklist) : Equations :=
  worklist.bindings.zonkAll worklist.queue

/-- What a turn that is followed by another one has done. -/
inductive Moves : Worklist → Worklist → Prop
  | drop {bindings : Bindings} {head tail : StaticType} {rest : Equations}
    (same : bindings.zonk head = bindings.zonk tail) :
    Moves ⟨bindings, (head, tail) :: rest⟩ ⟨bindings, rest⟩
  | bind {bindings : Bindings} {head tail : StaticType} {rest : Equations} {name : String}
    {type : StaticType} (bindable : bindings.Bindable name type)
    (demanded : Equations.demand (bindings.zonk head) (bindings.zonk tail) = .binding name type) :
    Moves ⟨bindings, (head, tail) :: rest⟩ ⟨bindings.bind name type bindable, rest⟩
  | split {bindings : Bindings} {head tail : StaticType} {rest equations : Equations}
    (splits : Equations.Splits (bindings.zonk head) (bindings.zonk tail)
      (bindings.zonkAll equations))
    (parts : bindings.zonk head = bindings.zonk tail ∨
      Equations.demand (bindings.zonk head) (bindings.zonk tail) =
        .parts (bindings.zonkAll equations)) :
    Moves ⟨bindings, (head, tail) :: rest⟩ ⟨bindings, rest ++ equations⟩

/-- How the turns at a queue end. -/
inductive Stops : Worklist → Turn → Prop
  | solved {bindings : Bindings} : Stops ⟨bindings, []⟩ .solved
  | failed {bindings : Bindings} {head tail : StaticType} {rest : Equations}
    {error : UnificationError}
    (demanded : Equations.demand (bindings.zonk head) (bindings.zonk tail) = .impossible error) :
    Stops ⟨bindings, (head, tail) :: rest⟩ (.failed error)

/-- A turn either moves on or stops. -/
theorem turn_cases (worklist : Worklist) :
    (∃ later, worklist.turn = .next later ∧ worklist.Moves later) ∨
      worklist.Stops worklist.turn := by
  obtain ⟨bindings, queue⟩ := worklist
  unfold turn
  cases queue with
  | nil => exact .inr .solved
  | cons equation rest =>
    obtain ⟨head, tail⟩ := equation
    have differs := Bindings.demand_zonk (bindings.exposes_shallow head)
      (bindings.exposes_shallow tail)
    rw [bindings.zonk_shallow, bindings.zonk_shallow] at differs
    dsimp only
    split
    · rename_i nothing
      refine .inl ⟨_, rfl, .drop (by_contra fun differ => differ ?_)⟩
      have demanded := differs differ
      rw [nothing] at demanded
      exact Equations.eq_of_demand_nothing demanded
    · rename_i name type binding
      exact .inl ⟨_, rfl, .bind _ (demand_of_tops binding)⟩
    · rename_i equations parts
      have splits := bindings.splits_zonk (bindings.splits_of_examine parts)
      rw [bindings.zonk_shallow, bindings.zonk_shallow] at splits
      refine .inl ⟨_, rfl, .split splits ?_⟩
      by_cases same : bindings.zonk head = bindings.zonk tail
      · exact .inl same
      · exact .inr (by rw [differs same, parts, Bindings.zonkDemand_parts])
    · rename_i error impossible
      refine .inr (.failed ?_)
      have differ : bindings.zonk head ≠ bindings.zonk tail := by
        intro same
        rw [← bindings.zonk_shallow head, ← bindings.zonk_shallow tail] at same
        rcases Bindings.examine_of_same (bindings.exposes_shallow head)
          (bindings.exposes_shallow tail) same with nothing | ⟨equations, parts⟩
        · rw [impossible] at nothing
          cases nothing
        · rw [impossible] at parts
          cases parts
      rw [differs differ, impossible, Bindings.zonkDemand_impossible]

theorem moves_of_turn {worklist later : Worklist} (h : worklist.turn = .next later) :
    worklist.Moves later := by
  rcases worklist.turn_cases with ⟨other, again, moves⟩ | stops
  · rw [h] at again
    cases again
    exact moves
  · rw [h] at stops
    cases stops

/-- The queue of a binding turn, with all bindings applied. -/
theorem resolved_bind {bindings : Bindings} {name : String} {type : StaticType}
    (bindable : bindings.Bindable name type) (rest : Equations) :
    resolved ⟨bindings.bind name type bindable, rest⟩ =
      (bindings.zonkAll rest).replaceVariable name type := by
  unfold resolved Bindings.zonkAll Equations.replaceVariable
  rw [List.map_map]
  refine List.map_congr_left fun equation _ => ?_
  simp only [Function.comp_apply, bindings.zonk_bind bindable]

theorem resolved_cons (bindings : Bindings) (head tail : StaticType) (rest : Equations) :
    resolved ⟨bindings, (head, tail) :: rest⟩ =
      (bindings.zonk head, bindings.zonk tail) :: bindings.zonkAll rest :=
  rfl

theorem resolved_append (bindings : Bindings) (front back : Equations) :
    resolved ⟨bindings, front ++ back⟩ = bindings.zonkAll front ++ bindings.zonkAll back :=
  List.map_append ..

/-- A turn that binds a variable leaves fewer unknowns; any other leaves no more of them, and
lighter equations. -/
theorem Moves.decreases {worklist later : Worklist} (moves : worklist.Moves later) :
    Prod.Lex (· < ·) (· < ·) (later.resolved.unknowns, later.resolved.weight)
      (worklist.resolved.unknowns, worklist.resolved.weight) := by
  have lighter {equations others : Equations}
      (subset : equations.freeVariables ⊆ others.freeVariables)
      (less : equations.weight < others.weight) :
      Prod.Lex (· < ·) (· < ·) (equations.unknowns, equations.weight)
        (others.unknowns, others.weight) := by
    rcases Nat.lt_or_eq_of_le (Equations.unknowns_le_of_subset subset) with fewer | same
    · exact .left _ _ fewer
    · rw [same]
      exact .right _ less
  cases moves with
  | @drop bindings head tail rest same =>
    rw [resolved_cons]
    have := (bindings.zonk head).weight_pos
    refine lighter (fun name mem => ?_) ?_
    · simp only [Equations.freeVariables, List.flatMap_cons, List.mem_append]
      exact .inr mem
    · simp only [Equations.weight, List.map_cons, StaticType.total, resolved]
      omega
  | @bind bindings head tail rest name type bindable demanded =>
    rw [resolved_bind, resolved_cons]
    refine .left _ _ (Equations.unknowns_replaceVariable_lt ?_)
    rw [Equations.reduce_cons, demanded]
  | @split bindings head tail rest equations splits parts =>
    rw [resolved_append, resolved_cons]
    have := splits.weight_lt
    refine lighter (fun name mem => ?_) ?_
    · simp only [Equations.freeVariables, List.flatMap_append, List.flatMap_cons,
        List.mem_append] at mem ⊢
      rcases mem with before | new
      · exact .inr before
      · exact .inl (splits.mem_freeVariables new)
    · rw [Equations.weight_append]
      simp only [Equations.weight, List.map_cons, StaticType.total] at this ⊢
      omega

/-- There is no infinite sequence of turns. -/
theorem turns_wellFounded :
    WellFounded fun later worklist : Worklist => worklist.turn = .next later :=
  Subrelation.wf (fun h => (moves_of_turn h).decreases)
    (InvImage.wf (fun worklist : Worklist =>
      (worklist.resolved.unknowns, worklist.resolved.weight))
      (Prod.lex Nat.lt_wfRel Nat.lt_wfRel).wf)

/-- Takes turns until the queue is empty or an equation cannot hold. -/
def run (worklist : Worklist) : Except UnificationError Unit × Bindings :=
  match _h : worklist.turn with
  | .solved => (.ok (), worklist.bindings)
  | .failed error => (.error error, worklist.bindings)
  | .next later => run later
termination_by turns_wellFounded.wrap worklist
decreasing_by exact _h

theorem run_next {worklist later : Worklist} (h : worklist.turn = .next later) :
    worklist.run = later.run := by
  rw [run]
  split
  · simp_all
  · simp_all
  · rename_i other turned
    rw [h] at turned
    cases turned
    rfl

theorem run_solved {worklist : Worklist} (h : worklist.turn = .solved) :
    worklist.run = (.ok (), worklist.bindings) := by
  rw [run]
  split <;> simp_all

theorem run_failed {worklist : Worklist} {error : UnificationError}
    (h : worklist.turn = .failed error) : worklist.run = (.error error, worklist.bindings) := by
  rw [run]
  split <;> simp_all

/-- A turn does not change what solving the resolved queue comes to. -/
theorem Moves.extend_eq {worklist later : Worklist} (moves : worklist.Moves later) :
    later.bindings.substitution.extend later.resolved =
      worklist.bindings.substitution.extend worklist.resolved := by
  cases moves with
  | @drop bindings head tail rest same =>
    refine Substitution.extend_alike ?_
    rw [resolved_cons, same, Equations.essential_cons_self]
    rfl
  | @bind bindings head tail rest name type bindable demanded =>
    rw [resolved_bind, resolved_cons, Substitution.extend_eq _ (_ :: _), Equations.reduce_cons,
      demanded]
    rfl
  | @split bindings head tail rest equations splits parts =>
    rw [resolved_append, resolved_cons]
    rcases parts with same | demanded
    · rw [same] at splits ⊢
      refine Substitution.extend_alike ?_
      have nothing : (bindings.zonkAll equations).essential = [] :=
        List.filter_eq_nil_iff.2 fun equation mem => by simpa using splits.same equation mem
      rw [Equations.essential_append, nothing, List.append_nil, Equations.essential_cons_self]
    · rw [Substitution.extend_eq _ (_ :: _), Equations.reduce_cons, demanded,
        Substitution.extend_eq]

/-- The loop ends as solving the resolved queue does: with the same failure, if any, and the same
bindings. -/
theorem run_eq (worklist : Worklist) :
    (worklist.run.1, worklist.run.2.substitution) =
      worklist.bindings.substitution.extend worklist.resolved := by
  induction worklist using turns_wellFounded.induction with
  | _ worklist ih =>
    rcases worklist.turn_cases with ⟨later, turned, moves⟩ | stops
    · rw [run_next turned, ih later turned, moves.extend_eq]
    · generalize turned : worklist.turn = outcome at stops
      cases stops with
      | solved =>
        rw [run_solved turned, show resolved ⟨_, []⟩ = [] from rfl, Substitution.extend_eq,
          Equations.reduce]
      | failed demanded =>
        rw [run_failed turned, Substitution.extend_eq, resolved_cons, Equations.reduce_cons,
          demanded]

/-- What holds at every moment of a run.  Each of the relations would have an infinite descent if
the recursion that goes with it did not end. -/
structure Ends (moment : Worklist) : Prop where
  acyclic : ∀ name, ¬ Relation.TransGen moment.bindings.substitution.Mentions name name
  shallow : WellFounded moment.bindings.substitution.Leads
  zonk : WellFounded moment.bindings.substitution.Visits
  turns : Acc (fun later earlier => earlier.turn = .next later) moment
  binds : ∀ later, moment.turn = .next later → later.bindings = moment.bindings ∨
    ∃ name type, moment.bindings.get? name = none ∧
      later.bindings.substitution = moment.bindings.substitution.bind name type

theorem ends (moment : Worklist) : moment.Ends where
  acyclic := moment.bindings.acyclic.not_mentions_itself
  shallow := moment.bindings.acyclic.leads_wellFounded
  zonk := moment.bindings.acyclic.visits_wellFounded
  turns := turns_wellFounded.apply moment
  binds later turned := by
    cases moves_of_turn turned with
    | drop same => exact .inl rfl
    | @bind bindings head tail rest name type bindable demanded =>
      exact .inr ⟨name, type, bindable.unbound, rfl⟩
    | split splits parts => exact .inl rfl

/-- No binding is lost or changed on the way. -/
theorem run_keeps (worklist : Worklist) {name : String} {type : StaticType}
    (bound : worklist.bindings.get? name = some type) :
    worklist.run.2.get? name = some type := by
  induction worklist using turns_wellFounded.induction with
  | _ worklist ih =>
    cases turned : worklist.turn with
    | solved =>
      rw [run_solved turned]
      exact bound
    | failed error =>
      rw [run_failed turned]
      exact bound
    | next later =>
      rw [run_next turned]
      refine ih later turned ?_
      rcases worklist.ends.binds later turned with same | ⟨other, new, unbound, binds⟩
      · rw [same]
        exact bound
      · have different : name ≠ other := by
          rintro rfl
          rw [bound] at unbound
          cases unbound
        rw [Bindings.get?, binds, Substitution.get?_bind, if_neg different]
        exact bound

end Worklist

namespace Unifier

/-- What a unifier makes of the end of a loop: its bindings, and a report if it failed. -/
def conclude (unifier : Unifier) (constraint : Constraint) :
    Except UnificationError Unit × Substitution → Unifier
  | (.ok (), substitution) => { unifier with substitution }
  | (.error error, substitution) =>
    { substitution
      errors := unifier.errors.push (constraint.origin, error)
      diagnostics := unifier.diagnostics.error
        (NodeId.text constraint.origin ++ ": " ++ error.message) }

theorem solve_eq_conclude (unifier : Unifier) (constraint : Constraint) :
    unifier.solve constraint = unifier.conclude constraint
      (unifier.substitution.extend (unifier.pending constraint)) := by
  generalize ends : unifier.substitution.extend (unifier.pending constraint) = outcome
  unfold pending at ends
  obtain ⟨_ | _, _⟩ := outcome <;> simp only [solve, conclude, ends]

/-- Whatever constraints were given before, in whatever calls, and whether or not they were solved:
the bindings have no cycle, and for the next constraint the loop ends.  At all of its moments
following bindings ends, resolving ends, and the next turn binds at most one variable, which was not
bound.  What solving the constraint gives is what the loop ends with, so solving never overwrites a
binding; and finishing resolves each binding. -/
theorem worklists_end (calls : List (List Constraint)) (constraint : Constraint) :
    let unifier := calls.foldl solveAll ({} : Unifier)
    ∃ bindings : Bindings, bindings.substitution = unifier.substitution ∧
      let start : Worklist := ⟨bindings, [(constraint.head, constraint.tail)]⟩
      (∀ moment, Relation.ReflTransGen (fun earlier later => earlier.turn = .next later) start
        moment → moment.Ends) ∧
      unifier.solve constraint =
        unifier.conclude constraint (start.run.1, start.run.2.substitution) ∧
      (∀ name type, unifier.substitution.get? name = some type →
        (unifier.solve constraint).substitution.get? name = some type) ∧
      ∀ name, unifier.finish.get? name = (unifier.substitution.get? name).map bindings.zonk := by
  intro unifier
  have flat : unifier = ({} : Unifier).solveAll calls.flatten := by
    unfold unifier solveAll
    rw [List.foldl_flatten]
  have empty : ({} : Unifier).substitution.Acyclic := Substitution.acyclic_empty
  have acyclic : unifier.substitution.Acyclic := by
    rw [flat]
    exact (extends_solveAll empty calls.flatten).acyclic
  let bindings : Bindings := ⟨unifier.substitution, acyclic⟩
  refine ⟨bindings, rfl, ?_⟩
  intro start
  have pending : start.resolved = unifier.pending constraint := by
    simp only [start, Worklist.resolved, Bindings.zonkAll, Unifier.pending, List.map_cons,
      List.map_nil, Bindings.zonk_eq, bindings]
  have ran : (start.run.1, start.run.2.substitution) =
      unifier.substitution.extend (unifier.pending constraint) := by
    rw [start.run_eq, pending]
  refine ⟨fun moment _ => moment.ends, ?_, fun name type bound => ?_, fun name => ?_⟩
  · rw [ran, solve_eq_conclude]
  · have kept := start.run_keeps (show start.bindings.get? name = some type from bound)
    rw [substitution_solve, ← ran]
    exact kept
  · rw [finish, Substitution.get?_normalize]
    cases unifier.substitution.get? name with
    | none => rfl
    | some type => exact congrArg some (bindings.zonk_eq type).symm

end Unifier

end DeclLang
