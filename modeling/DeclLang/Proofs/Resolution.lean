import DeclLang.Proofs.TypeAlgebra
import DeclLang.Types.Substitution
import Mathlib.Logic.Function.Iterate

/-!
# Substitutions without cycles

The bindings of a substitution may mention bound variables again.  They are without a cycle if the
bound variables can be ranked so that the type bound to a variable mentions bound variables of lower
rank only.  One pass of `Substitution.apply` then lowers the highest rank in a type, so as many
passes as there are bindings use the bindings up.

**Results.**
* `Substitution.settled_resolveAll`: no bound variable is left in a resolved type.
* `Substitution.resolveAll_eq`: resolving is one simultaneous replacement, by the `solution`.
* `Substitution.apply_normalize`: after normalizing, applying once is resolving.
* `Substitution.Respects.resolveAll`: an assignment that respects the bindings cannot tell a
  resolved type from the type.
-/

namespace DeclLang

open StaticType

namespace Substitution

theorem get?_empty (name : String) : ({} : Substitution).get? name = none := by
  simp [get?]

theorem get?_bind (substitution : Substitution) (name other : String) (type : StaticType) :
    (substitution.bind name type).get? other =
      if other = name then some type else substitution.get? other := by
  unfold get? bind
  rw [Std.TreeMap.getElem?_insert]
  by_cases h : other = name
  · simp [h]
  · simp [h, Ne.symm h]

theorem size_bind {substitution : Substitution} {name : String} {type : StaticType}
    (unbound : substitution.get? name = none) :
    (substitution.bind name type).size = substitution.size + 1 := by
  unfold get? at unbound
  unfold size bind
  rw [Std.TreeMap.size_insert]
  simp at unbound
  simp [unbound]

theorem get?_normalize (substitution : Substitution) (name : String) :
    substitution.normalize.get? name = (substitution.get? name).map substitution.resolveAll := by
  unfold get? normalize
  rw [Std.TreeMap.getElem?_map]

theorem apply_eq (substitution : Substitution) (type : StaticType) :
    substitution.apply type =
      type.instantiate fun name => (substitution.get? name).getD (.variable name) :=
  rfl

/-- No variable of the type is bound. -/
def Settled (substitution : Substitution) (type : StaticType) : Prop :=
  ∀ name ∈ type.freeVariables, substitution.get? name = none

theorem Settled.apply_eq {substitution : Substitution} {type : StaticType}
    (h : substitution.Settled type) : substitution.apply type = type := by
  refine Eq.trans ?_ (mapLeaves_leaves type)
  refine mapLeaves_congr (fun name mem => ?_) fun _ _ => rfl
  rw [h name mem, Option.getD_none]

/-- A rank under which the type bound to a variable mentions bound variables of lower rank only. -/
structure Ranked (substitution : Substitution) (rank : String → Nat) : Prop where
  bounded : ∀ name type, substitution.get? name = some type → rank name < substitution.size
  descends : ∀ name type, substitution.get? name = some type →
    ∀ other ∈ type.freeVariables, (substitution.get? other).isSome → rank other < rank name

/-- The bindings have no cycle. -/
def Acyclic (substitution : Substitution) : Prop :=
  ∃ rank, substitution.Ranked rank

theorem acyclic_empty : ({} : Substitution).Acyclic := by
  refine ⟨fun _ => 0, ?_, ?_⟩
  · intro name type h
    rw [get?_empty] at h
    cases h
  · intro name type h
    rw [get?_empty] at h
    cases h

/-- Binding a new variable to a settled type without that variable makes no cycle: the new variable
gets the lowest rank. -/
theorem Acyclic.bind {substitution : Substitution} {name : String} {type : StaticType}
    (h : substitution.Acyclic) (unbound : substitution.get? name = none)
    (settled : substitution.Settled type) (absent : name ∉ type.freeVariables) :
    (substitution.bind name type).Acyclic := by
  obtain ⟨rank, ranked⟩ := h
  refine ⟨fun other => if other = name then 0 else rank other + 1, ?_, ?_⟩
  · intro other bound h
    rw [get?_bind] at h
    rw [size_bind unbound]
    by_cases same : other = name
    · rw [if_pos same]
      omega
    · rw [if_neg same] at h ⊢
      have := ranked.bounded other bound h
      omega
  · intro other bound h inner mem innerBound
    rw [get?_bind] at h innerBound
    by_cases same : other = name
    · rw [if_pos same] at h
      cases h
      have different : inner ≠ name := fun h => absent (h ▸ mem)
      rw [if_neg different, settled inner mem] at innerBound
      cases innerBound
    · rw [if_neg same] at h ⊢
      by_cases new : inner = name
      · rw [if_pos new]
        omega
      · rw [if_neg new] at innerBound ⊢
        have := ranked.descends other bound h inner mem innerBound
        omega

section Passes

variable (substitution : Substitution)

theorem iterate_apply_of_eq {type : StaticType} (h : substitution.apply type = type) :
    ∀ passes, substitution.apply^[passes] type = type
  | 0 => rfl
  | passes + 1 => by
    rw [Function.iterate_succ_apply, h]
    exact iterate_apply_of_eq h passes

/-- Stopping early changes nothing: resolving is applying, over and over. -/
theorem resolveWithin_eq_iterate :
    ∀ (passes : Nat) (type : StaticType),
      substitution.resolveWithin passes type = substitution.apply^[passes] type
  | 0, type => rfl
  | passes + 1, type => by
    rw [Function.iterate_succ_apply, resolveWithin]
    by_cases h : substitution.apply type = type
    · simp only [h, if_true]
      exact (iterate_apply_of_eq substitution h passes).symm
    · simp only [h, if_false]
      exact resolveWithin_eq_iterate passes _

/-- Several passes are one replacement, of every variable by what the passes make of it. -/
theorem iterate_apply_eq_instantiate :
    ∀ (passes : Nat) (type : StaticType),
      substitution.apply^[passes] type =
        type.instantiate fun name => substitution.apply^[passes] (.variable name)
  | 0, type => (mapLeaves_leaves type).symm
  | passes + 1, type => by
    rw [Function.iterate_succ_apply, iterate_apply_eq_instantiate passes, apply_eq,
      instantiate_instantiate]
    congr 1
    funext name
    rw [Function.iterate_succ_apply, iterate_apply_eq_instantiate passes (substitution.apply _),
      apply_eq]
    simp only [instantiate, mapLeaves]

/-- As many passes as the highest rank says use the bindings up. -/
theorem settled_iterate_apply {rank : String → Nat} (ranked : substitution.Ranked rank) :
    ∀ (passes : Nat) (type : StaticType),
      (∀ name ∈ type.freeVariables, (substitution.get? name).isSome → rank name < passes) →
      substitution.Settled (substitution.apply^[passes] type)
  | 0, type, h => by
    intro name mem
    rw [← Option.not_isSome_iff_eq_none]
    intro bound
    exact absurd (h name mem bound) (Nat.not_lt_zero _)
  | passes + 1, type, h => by
    rw [Function.iterate_succ_apply]
    refine settled_iterate_apply ranked passes _ fun other mem otherBound => ?_
    obtain ⟨name, inType, inReplacement⟩ := (mem_freeVariables_mapLeaves type).1 mem
    cases found : substitution.get? name with
    | none =>
      rw [found] at inReplacement
      simp only [Option.getD_none, freeVariables, List.mem_singleton] at inReplacement
      rw [inReplacement, found] at otherBound
      cases otherBound
    | some bound =>
      rw [found, Option.getD_some] at inReplacement
      have lower := ranked.descends name bound found other inReplacement otherBound
      have := h name inType (by rw [found]; rfl)
      omega

end Passes

/-- What every variable stands for once all bindings are used. -/
def solution (substitution : Substitution) : Assignment :=
  fun name => substitution.resolveAll (.variable name)

/-- Resolving is one replacement. -/
theorem resolveAll_eq (substitution : Substitution) (type : StaticType) :
    substitution.resolveAll type = type.instantiate substitution.solution := by
  unfold solution resolveAll
  rw [resolveWithin_eq_iterate, iterate_apply_eq_instantiate]
  congr 1
  funext name
  rw [resolveWithin_eq_iterate]

/-- Passes over a type without bound variables change nothing. -/
theorem Settled.resolveWithin_eq {substitution : Substitution} {type : StaticType}
    (h : substitution.Settled type) (passes : Nat) :
    substitution.resolveWithin passes type = type := by
  rw [resolveWithin_eq_iterate]
  exact iterate_apply_of_eq substitution h.apply_eq passes

theorem Settled.resolveAll_eq {substitution : Substitution} {type : StaticType}
    (h : substitution.Settled type) : substitution.resolveAll type = type :=
  h.resolveWithin_eq _

theorem resolveAll_of_get?_eq_none {substitution : Substitution} {name : String}
    (h : substitution.get? name = none) :
    substitution.resolveAll (.variable name) = .variable name := by
  have settled : substitution.Settled (.variable name) := by
    intro other mem
    simp only [freeVariables, List.mem_singleton] at mem
    rw [mem, h]
  exact settled.resolveAll_eq

section Acyclic

variable {substitution : Substitution} (acyclic : substitution.Acyclic)
include acyclic

theorem settled_resolveAll (type : StaticType) :
    substitution.Settled (substitution.resolveAll type) := by
  obtain ⟨rank, ranked⟩ := acyclic
  unfold resolveAll
  rw [resolveWithin_eq_iterate]
  refine settled_iterate_apply substitution ranked _ type fun name _ bound => ?_
  obtain ⟨type, found⟩ := Option.isSome_iff_exists.1 bound
  exact ranked.bounded name type found

/-- A bound variable stands for what its type stands for. -/
theorem resolveAll_of_get? {name : String} {type : StaticType}
    (h : substitution.get? name = some type) :
    substitution.resolveAll (.variable name) = substitution.resolveAll type := by
  have step : substitution.apply (.variable name) = type := by
    rw [apply_eq]
    simp only [instantiate, mapLeaves, h, Option.getD_some]
  have settled := (settled_resolveAll acyclic (.variable name)).apply_eq
  unfold resolveAll at settled ⊢
  rw [resolveWithin_eq_iterate] at settled ⊢
  rw [resolveWithin_eq_iterate, ← settled, ← Function.iterate_succ_apply' substitution.apply,
    Function.iterate_succ_apply, step]

/-- After normalizing, applying once is resolving. -/
theorem apply_normalize (type : StaticType) :
    substitution.normalize.apply type = type.instantiate substitution.solution := by
  rw [apply_eq]
  congr 1
  funext name
  unfold solution
  rw [get?_normalize]
  cases found : substitution.get? name with
  | none =>
    rw [Option.map_none, Option.getD_none, resolveAll_of_get?_eq_none found]
  | some bound =>
    rw [Option.map_some, Option.getD_some, resolveAll_of_get? acyclic found]

/-- After normalizing, resolved types still mention no bound variable. -/
theorem settled_normalize_resolveAll (type : StaticType) :
    substitution.normalize.Settled (substitution.resolveAll type) := by
  intro name mem
  rw [get?_normalize, settled_resolveAll acyclic type name mem, Option.map_none]

/-- After normalizing, one pass leaves no bound variable. -/
theorem settled_apply_normalize (type : StaticType) :
    substitution.normalize.Settled (substitution.normalize.apply type) := by
  rw [apply_normalize acyclic, ← resolveAll_eq]
  exact settled_normalize_resolveAll acyclic type

/-- After normalizing, one pass is as good as many. -/
theorem resolveWithin_normalize {passes : Nat} (some : passes ≠ 0) (type : StaticType) :
    substitution.normalize.resolveWithin passes type = substitution.normalize.apply type := by
  obtain ⟨more, rfl⟩ := Nat.exists_eq_succ_of_ne_zero some
  rw [resolveWithin_eq_iterate, Function.iterate_succ_apply]
  exact iterate_apply_of_eq _ (settled_apply_normalize acyclic type).apply_eq more

end Acyclic

/-- The assignment cannot tell a bound variable from the type that it is bound to. -/
def Respects (assignment : Assignment) (substitution : Substitution) : Prop :=
  ∀ name type, substitution.get? name = some type →
    (assignment name).Agrees (type.instantiate assignment)

theorem respects_empty (assignment : Assignment) : Respects assignment {} := by
  intro name type h
  rw [get?_empty] at h
  cases h

theorem respects_bind_iff {assignment : Assignment} {substitution : Substitution} {name : String}
    {type : StaticType} (unbound : substitution.get? name = none) :
    Respects assignment (substitution.bind name type) ↔
      Respects assignment substitution ∧
        (assignment name).Agrees (type.instantiate assignment) := by
  constructor
  · intro h
    refine ⟨fun other bound found => h other bound ?_, h name type ?_⟩
    · have different : other ≠ name := by
        rintro rfl
        rw [unbound] at found
        cases found
      rw [get?_bind, if_neg different, found]
    · rw [get?_bind, if_pos rfl]
  · rintro ⟨older, new⟩ other bound found
    rw [get?_bind] at found
    by_cases same : other = name
    · rw [if_pos same] at found
      cases found
      rw [same]
      exact new
    · rw [if_neg same] at found
      exact older other bound found

/-- The solution respects the bindings. -/
theorem respects_solution {substitution : Substitution} (acyclic : substitution.Acyclic) :
    Respects substitution.solution substitution := by
  intro name type h
  rw [← resolveAll_eq]
  unfold solution
  rw [resolveAll_of_get? acyclic h]

theorem Respects.apply {assignment : Assignment} {substitution : Substitution}
    (h : Respects assignment substitution) (type : StaticType) :
    ((substitution.apply type).instantiate assignment).Agrees (type.instantiate assignment) := by
  rw [apply_eq, instantiate_instantiate]
  refine Agrees.instantiate (fun name => ?_) type
  cases found : substitution.get? name with
  | none =>
    simp only [Option.getD_none, instantiate, mapLeaves]
    exact Agrees.refl _
  | some bound =>
    rw [Option.getD_some]
    exact (h name bound found).symm

/-- An assignment that respects the bindings cannot tell a resolved type from the type. -/
theorem Respects.resolveAll {assignment : Assignment} {substitution : Substitution}
    (h : Respects assignment substitution) (type : StaticType) :
    ((substitution.resolveAll type).instantiate assignment).Agrees
      (type.instantiate assignment) := by
  unfold Substitution.resolveAll
  rw [resolveWithin_eq_iterate]
  generalize substitution.size = passes
  induction passes generalizing type with
  | zero => exact Agrees.refl _
  | succ passes ih =>
    rw [Function.iterate_succ_apply]
    exact (ih _).trans (h.apply type)

end Substitution

end DeclLang
