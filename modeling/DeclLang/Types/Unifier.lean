import DeclLang.Diagnostics
import DeclLang.Syntax.Node
import DeclLang.Types.Substitution

/-!
# Unification

**Input.**  Constraints, each demanding that two types become equal, and each with the node that is
blamed when they cannot.

**Algorithm.**  A constraint is resolved by the bindings found so far and becomes a queue of
equations.  `Equations.reduce` takes equations apart from the front until a variable has to be
bound; `Substitution.extend` binds it, replaces it in the equations that wait, and goes on.  Every
binding removes a variable from the equations, so the loop ends.  A constraint that fails is
reported; bindings made on its behalf stay.

**Results.**  What reduction leaves behind mentions no new variable (`Equations.reduce_bind`),
which is why `Substitution.extend` ends on every queue.
-/

namespace DeclLang

/-- The demand that two types become equal, made on behalf of a node. -/
structure Constraint where
  head : StaticType
  tail : StaticType
  origin : NodeId
  deriving Repr, Inhabited

/-- How a constraint is written. -/
def Constraint.text (constraint : Constraint) : String :=
  constraint.head.text ++ " == " ++ constraint.tail.text

/-- Why two types cannot become equal. -/
inductive UnificationError where
  | mismatch (expected found : StaticType)
  | arityMismatch (name : String) (expected found : Nat)
  | parameterCountMismatch (expected found : Nat)
  | occursCheck (name : String) (type : StaticType)
  deriving Repr, DecidableEq

/-- The text of the error. -/
def UnificationError.message : UnificationError → String
  | mismatch expected found =>
    "type mismatch: expected " ++ expected.text ++ ", found " ++ found.text
  | arityMismatch name expected found =>
    s!"`{name}` takes {expected} type arguments, found {found}"
  | parameterCountMismatch expected found =>
    s!"function takes {expected} arguments, found {found}"
  | occursCheck name type =>
    name ++ " occurs in " ++ type.text ++ ", which would make an infinite type"

/-- A queue of pairs of types that have to become equal. -/
abbrev Equations := List (StaticType × StaticType)

namespace Equations

/-- The variables of the equations, each as often as it occurs. -/
def freeVariables (equations : Equations) : List String :=
  equations.flatMap fun equation => equation.1.freeVariables ++ equation.2.freeVariables

/-- The number of constructors in the equations. -/
def weight (equations : Equations) : Nat :=
  StaticType.total (equations.map fun equation => equation.1.weight + equation.2.weight)

/-- Replaces a variable in every equation. -/
def replaceVariable (name : String) (type : StaticType) (equations : Equations) : Equations :=
  equations.map fun equation =>
    (equation.1.replaceVariable name type, equation.2.replaceVariable name type)

/-- What one equation demands. -/
inductive Demand where
  /-- Nothing: both sides are the same. -/
  | nothing
  /-- That a variable is bound. -/
  | binding (name : String) (type : StaticType)
  /-- That the parts of both sides become equal. -/
  | parts (equations : Equations)
  /-- Something impossible. -/
  | impossible (error : UnificationError)

/-- Looks at one equation.  A variable on the left is bound before one on the right; the results of
two functions come before their arguments. -/
def demand (head tail : StaticType) : Demand :=
  if head = tail then .nothing
  else match head, tail with
    | .variable name, other | other, .variable name =>
      if other.occurs name then .impossible (.occursCheck name other) else .binding name other
    | .constant name parameters, .constant other arguments =>
      if name ≠ other then
        .impossible (.mismatch (.constant name parameters) (.constant other arguments))
      else if parameters.length ≠ arguments.length then
        .impossible (.arityMismatch name parameters.length arguments.length)
      else .parts (parameters.zip arguments)
    | .function parameters result, .function arguments returned =>
      if parameters.length ≠ arguments.length then
        .impossible (.parameterCountMismatch parameters.length arguments.length)
      else .parts ((result, returned) ::
        (parameters.map Prod.snd).zip (arguments.map Prod.snd))
    | head, tail => .impossible (.mismatch head tail)

section Weights

theorem weight_append (front back : Equations) :
    weight (front ++ back) = weight front + weight back := by
  simp [weight]

private theorem weight_zip_le :
    ∀ left right : List StaticType,
      weight (left.zip right) ≤
        StaticType.total (left.map StaticType.weight) +
          StaticType.total (right.map StaticType.weight)
  | [], _ => by simp [weight]
  | _ :: _, [] => by simp [weight]
  | s :: left, t :: right => by
    have ih := weight_zip_le left right
    simp only [weight, List.zip_cons_cons, List.map_cons, StaticType.total] at ih ⊢
    omega

private theorem mem_freeVariables_zip {name : String} :
    ∀ left right : List StaticType, name ∈ freeVariables (left.zip right) →
      name ∈ left.flatMap StaticType.freeVariables ∨ name ∈ right.flatMap StaticType.freeVariables
  | [], _, h => by simp [freeVariables] at h
  | _ :: _, [], h => by simp [freeVariables] at h
  | s :: left, t :: right, h => by
    simp only [freeVariables, List.zip_cons_cons, List.flatMap_cons, List.mem_append] at h ⊢
    rcases h with (h | h) | h
    · exact .inl (.inl h)
    · exact .inr (.inl h)
    · rcases mem_freeVariables_zip left right h with h | h
      · exact .inl (.inr h)
      · exact .inr (.inr h)

/-- How two types are taken apart. -/
inductive Splits : StaticType → StaticType → Equations → Prop
  | constants {name : String} {parameters arguments : List StaticType}
    (length : parameters.length = arguments.length) :
    Splits (.constant name parameters) (.constant name arguments) (parameters.zip arguments)
  | functions {parameters arguments : List (Option String × StaticType)}
    {result returned : StaticType} (length : parameters.length = arguments.length) :
    Splits (.function parameters result) (.function arguments returned)
      ((result, returned) :: (parameters.map Prod.snd).zip (arguments.map Prod.snd))

/-- The parts of two types are lighter than the types. -/
theorem Splits.weight_lt {head tail : StaticType} {equations : Equations}
    (splits : Splits head tail equations) : equations.weight < head.weight + tail.weight := by
  cases splits with
  | @constants name parameters arguments length =>
    have := weight_zip_le parameters arguments
    simp only [StaticType.weight]
    omega
  | @functions parameters arguments result returned length =>
    have := weight_zip_le (parameters.map Prod.snd) (arguments.map Prod.snd)
    simp only [List.map_map, Function.comp_def] at this
    simp only [StaticType.weight]
    have cons : weight ((result, returned) ::
        (parameters.map Prod.snd).zip (arguments.map Prod.snd)) =
        result.weight + returned.weight +
          weight ((parameters.map Prod.snd).zip (arguments.map Prod.snd)) := by
      simp [weight]
    omega

/-- The parts of two types mention no new variable. -/
theorem Splits.mem_freeVariables {head tail : StaticType} {equations : Equations}
    (splits : Splits head tail equations) {name : String}
    (mem : name ∈ equations.freeVariables) :
    name ∈ head.freeVariables ∨ name ∈ tail.freeVariables := by
  cases splits with
  | constants length =>
    simpa only [StaticType.freeVariables] using mem_freeVariables_zip _ _ mem
  | functions length =>
    simp only [freeVariables, List.flatMap_cons, List.mem_append] at mem
    simp only [StaticType.freeVariables, List.mem_append]
    rcases mem with (mem | mem) | mem
    · exact .inl (.inr mem)
    · exact .inr (.inr mem)
    · rcases mem_freeVariables_zip _ _ mem with mem | mem
      · exact .inl (.inl (by simpa [List.flatMap_map] using mem))
      · exact .inr (.inl (by simpa [List.flatMap_map] using mem))

theorem splits_of_demand {head tail : StaticType} {equations : Equations}
    (h : demand head tail = .parts equations) : Splits head tail equations := by
  unfold demand at h
  split at h
  · cases h
  · split at h
    · split at h <;> cases h
    · split at h <;> cases h
    · split at h
      · cases h
      · rename_i sameName
        split at h
        · cases h
        · rename_i sameLength
          cases h
          cases Decidable.not_not.1 sameName
          exact .constants (Decidable.not_not.1 sameLength)
    · split at h
      · cases h
      · rename_i sameLength
        cases h
        exact .functions (Decidable.not_not.1 sameLength)
    · cases h

/-- The parts of an equation are lighter than the equation. -/
theorem weight_lt_of_demand {head tail : StaticType} {equations : Equations}
    (h : demand head tail = .parts equations) : equations.weight < head.weight + tail.weight :=
  (splits_of_demand h).weight_lt

/-- The parts of an equation mention no new variable. -/
theorem mem_freeVariables_of_demand_parts {head tail : StaticType} {equations : Equations}
    (h : demand head tail = .parts equations) {name : String}
    (mem : name ∈ equations.freeVariables) :
    name ∈ head.freeVariables ∨ name ∈ tail.freeVariables :=
  (splits_of_demand h).mem_freeVariables mem

/-- A variable that has to be bound stands on one side of the equation, and the type that it is
bound to is the other side, without the variable. -/
theorem demand_binding {head tail type : StaticType} {name : String}
    (h : demand head tail = .binding name type) :
    ((head = .variable name ∧ tail = type) ∨ (tail = .variable name ∧ head = type)) ∧
      name ∉ type.freeVariables := by
  unfold demand at h
  split at h
  · cases h
  · split at h
    · split at h
      · cases h
      · cases h
        rename_i absent
        exact ⟨.inl ⟨rfl, rfl⟩, by simpa [StaticType.occurs] using absent⟩
    · split at h
      · cases h
      · cases h
        rename_i absent
        exact ⟨.inr ⟨rfl, rfl⟩, by simpa [StaticType.occurs] using absent⟩
    · split at h
      · cases h
      · split at h <;> cases h
    · split at h <;> cases h
    · cases h

end Weights

/-- How reducing a queue of equations ends. -/
inductive Reduction where
  /-- Every equation holds. -/
  | solved
  /-- A variable has to be bound before the remaining equations. -/
  | bind (name : String) (type : StaticType) (rest : Equations)
  /-- One equation cannot hold. -/
  | failed (error : UnificationError)

/-- Takes equations apart from the front of the queue, their parts joining the end, until a
variable has to be bound. -/
def reduce : Equations → Reduction
  | [] => .solved
  | (head, tail) :: rest =>
    match _h : demand head tail with
    | .nothing => reduce rest
    | .binding name type => .bind name type rest
    | .parts equations => reduce (rest ++ equations)
    | .impossible error => .failed error
termination_by equations => equations.weight
decreasing_by
  · have := head.weight_pos
    simp [weight]
    omega
  · have := weight_lt_of_demand _h
    simp only [weight_append]
    simp only [weight, List.map_cons, StaticType.total] at this ⊢
    omega

/-- Reduction stops at a variable of the queue, binds it to a type without that variable, and leaves
equations behind, all over variables of the queue. -/
theorem reduce_bind {equations rest : Equations} {name : String} {type : StaticType}
    (h : reduce equations = .bind name type rest) :
    name ∈ equations.freeVariables ∧ name ∉ type.freeVariables ∧
      type.freeVariables ⊆ equations.freeVariables ∧
      rest.freeVariables ⊆ equations.freeVariables := by
  fun_induction reduce equations with
  | case1 => cases h
  | case2 head tail equations demanded ih =>
    obtain ⟨mem, absent, types, rests⟩ := ih h
    have wider : freeVariables equations ⊆ freeVariables ((head, tail) :: equations) := by
      intro other mem
      simp only [freeVariables, List.flatMap_cons, List.mem_append]
      exact .inr mem
    exact ⟨wider mem, absent, fun _ mem => wider (types mem), fun _ mem => wider (rests mem)⟩
  | case3 head tail equations other found demanded =>
    cases h
    obtain ⟨sides, absent⟩ := demand_binding demanded
    have front : ∀ x, x ∈ head.freeVariables ∨ x ∈ tail.freeVariables →
        x ∈ freeVariables ((head, tail) :: rest) := by
      intro x mem
      simp only [freeVariables, List.flatMap_cons, List.mem_append]
      exact .inl mem
    refine ⟨?_, absent, ?_, ?_⟩
    · rcases sides with ⟨rfl, _⟩ | ⟨rfl, _⟩
      · exact front _ (.inl (by simp [StaticType.freeVariables]))
      · exact front _ (.inr (by simp [StaticType.freeVariables]))
    · intro x mem
      rcases sides with ⟨_, rfl⟩ | ⟨_, rfl⟩
      · exact front _ (.inr mem)
      · exact front _ (.inl mem)
    · intro x mem
      simp only [freeVariables, List.flatMap_cons, List.mem_append] at mem ⊢
      exact .inr mem
  | case4 head tail equations parts demanded ih =>
    obtain ⟨mem, absent, types, rests⟩ := ih h
    have wider :
        freeVariables (equations ++ parts) ⊆ freeVariables ((head, tail) :: equations) := by
      intro x mem
      simp only [freeVariables, List.flatMap_append, List.flatMap_cons, List.mem_append] at mem ⊢
      rcases mem with mem | mem
      · exact .inr mem
      · exact .inl (mem_freeVariables_of_demand_parts demanded mem)
    exact ⟨wider mem, absent, fun _ mem => wider (types mem), fun _ mem => wider (rests mem)⟩
  | case5 => cases h

/-- A variable that is replaced by a type is gone, and only variables of that type are new. -/
theorem mem_freeVariables_replaceVariable {name other : String} {replacement : StaticType}
    (type : StaticType) (h : other ∈ (type.replaceVariable name replacement).freeVariables) :
    (other ∈ type.freeVariables ∧ other ≠ name) ∨ other ∈ replacement.freeVariables := by
  induction type using StaticType.parts_induction with
  | onVariable x =>
    simp only [StaticType.replaceVariable, StaticType.mapLeaves] at h
    split at h
    · exact .inr h
    · rename_i different
      simp only [StaticType.freeVariables, List.mem_singleton] at h ⊢
      exact .inl ⟨h, h ▸ different⟩
  | onGeneric x =>
    simp [StaticType.replaceVariable, StaticType.mapLeaves, StaticType.freeVariables] at h
  | onConstant x parameters ih =>
    simp only [StaticType.replaceVariable, StaticType.mapLeaves, StaticType.freeVariables,
      List.mem_flatMap, List.mem_map] at h ⊢
    obtain ⟨_, ⟨part, mem, rfl⟩, h⟩ := h
    rcases ih part mem h with ⟨found, different⟩ | found
    · exact .inl ⟨⟨part, mem, found⟩, different⟩
    · exact .inr found
  | onFunction arguments result ihArguments ihResult =>
    simp only [StaticType.replaceVariable, StaticType.mapLeaves, StaticType.freeVariables,
      List.mem_append, List.mem_flatMap, List.mem_map] at h ⊢
    rcases h with ⟨_, ⟨part, mem, rfl⟩, h⟩ | h
    · rcases ihArguments part mem h with ⟨found, different⟩ | found
      · exact .inl ⟨.inl ⟨part, mem, found⟩, different⟩
      · exact .inr found
    · rcases ihResult h with ⟨found, different⟩ | found
      · exact .inl ⟨.inr found, different⟩
      · exact .inr found

/-- A variable that is replaced by a type without it is gone from the equations. -/
theorem mem_freeVariables_of_replaced {name other : String} {type : StaticType}
    (equations : Equations) (absent : name ∉ type.freeVariables)
    (h : other ∈ (equations.replaceVariable name type).freeVariables) :
    (other ∈ equations.freeVariables ∨ other ∈ type.freeVariables) ∧ other ≠ name := by
  simp only [freeVariables, replaceVariable, List.flatMap_map, List.mem_flatMap,
    List.mem_append] at h ⊢
  obtain ⟨equation, mem, found⟩ := h
  rcases found with found | found <;>
    rcases mem_freeVariables_replaceVariable _ found with ⟨found, different⟩ | found
  · exact ⟨.inl ⟨equation, mem, .inl found⟩, different⟩
  · exact ⟨.inr found, fun same => absent (same ▸ found)⟩
  · exact ⟨.inl ⟨equation, mem, .inr found⟩, different⟩
  · exact ⟨.inr found, fun same => absent (same ▸ found)⟩

/-- The number of distinct variables of the equations. -/
def unknowns (equations : Equations) : Nat :=
  equations.freeVariables.eraseDups.length

theorem nodup_eraseDups (names : List String) : names.eraseDups.Nodup := by
  generalize h : names.length = n
  induction n using Nat.strongRecOn generalizing names with
  | ind n ih =>
    cases names with
    | nil => simp
    | cons name names =>
      rw [List.eraseDups_cons, List.nodup_cons]
      refine ⟨by simp [List.mem_eraseDups], ih _ ?_ _ rfl⟩
      subst h
      have := List.length_filter_le (fun other => !other == name) names
      simp only [List.length_cons]
      omega

/-- Binding the variable that reduction asks for lowers the number of distinct variables. -/
theorem unknowns_replaceVariable_lt {equations rest : Equations} {name : String}
    {type : StaticType} (h : reduce equations = .bind name type rest) :
    (rest.replaceVariable name type).unknowns < equations.unknowns := by
  obtain ⟨mem, absent, types, rests⟩ := reduce_bind h
  have gone : ∀ x ∈ (rest.replaceVariable name type).freeVariables,
      x ∈ equations.freeVariables ∧ x ≠ name := by
    intro x found
    obtain ⟨old, different⟩ := rest.mem_freeVariables_of_replaced absent found
    exact ⟨old.elim (rests ·) (types ·), different⟩
  have bound : (name :: (rest.replaceVariable name type).freeVariables.eraseDups).length ≤
      equations.freeVariables.eraseDups.length := by
    apply List.Nodup.length_le_of_subset
    · rw [List.nodup_cons]
      exact ⟨fun found => (gone name (List.mem_eraseDups.1 found)).2 rfl, nodup_eraseDups _⟩
    · intro x found
      rw [List.mem_eraseDups]
      rcases List.mem_cons.1 found with rfl | found
      · exact mem
      · exact (gone x (List.mem_eraseDups.1 found)).1
  simp only [List.length_cons] at bound
  unfold unknowns
  omega

end Equations

namespace Substitution

/-- Solves equations on top of a substitution that has already been applied to them.  The bindings
made before a failure are kept. -/
def extend (substitution : Substitution) (equations : Equations) :
    Except UnificationError Unit × Substitution :=
  match _h : equations.reduce with
  | .solved => (.ok (), substitution)
  | .failed error => (.error error, substitution)
  | .bind name type rest =>
    extend (substitution.bind name type) (rest.replaceVariable name type)
termination_by equations.unknowns
decreasing_by exact Equations.unknowns_replaceVariable_lt _h

end Substitution

/-- The bindings found so far, the failures with the nodes to blame, and what was reported. -/
structure Unifier where
  substitution : Substitution := {}
  errors : Array (NodeId × UnificationError) := #[]
  diagnostics : Diagnostics := {}

namespace Unifier

/-- Solves one constraint, and reports it if it fails. -/
def solve (unifier : Unifier) (constraint : Constraint) : Unifier :=
  let resolved := unifier.substitution.resolveAll
  match unifier.substitution.extend [(resolved constraint.head, resolved constraint.tail)] with
  | (.ok (), substitution) => { unifier with substitution }
  | (.error error, substitution) =>
    { substitution
      errors := unifier.errors.push (constraint.origin, error)
      diagnostics := unifier.diagnostics.error
        (NodeId.text constraint.origin ++ ": " ++ error.message) }

/-- Solves constraints in order. -/
def solveAll (unifier : Unifier) (constraints : List Constraint) : Unifier :=
  constraints.foldl solve unifier

/-- The solution: every binding is resolved, so that applying it once is enough. -/
def finish (unifier : Unifier) : Substitution :=
  unifier.substitution.normalize

end Unifier

end DeclLang
