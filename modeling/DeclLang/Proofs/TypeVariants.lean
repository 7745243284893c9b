import DeclLang.Proofs.TypeAlgebra

/-!
# Types that are instances of each other

**Input.**  Two types, each of which agrees with an instance of the other.

**Argument.**  Going there and back takes every variable to itself, so each of the two assignments
takes a variable of its type to nothing but a variable.

**Results.**  `StaticType.variants`: the types agree up to a renaming of variables.  The renaming is
read off the assignments, so it is the same for all types that the assignments work for.
-/

namespace DeclLang

/-- The name that a variable stands for under an assignment, if it stands for a variable. -/
def Assignment.rename (assignment : Assignment) (name : String) : String :=
  match assignment name with
  | .variable other => other
  | _ => name

namespace StaticType

/-- The type with other names for its variables. -/
def renamed (rename : String → String) (type : StaticType) : StaticType :=
  type.instantiate fun name => .variable (rename name)

/-- One type is the other with other names for its variables, up to the labels of arguments, and
there is a way back. -/
structure Variants (rename back : String → String) (left right : StaticType) : Prop where
  renamed : (left.renamed rename).Agrees right
  inverse : ∀ name ∈ left.freeVariables, back (rename name) = name

section Instances

/-- Instances of types that agree agree. -/
theorem Agrees.instances {left right : StaticType} (h : left.Agrees right)
    (assignment : Assignment) :
    (left.instantiate assignment).Agrees (right.instantiate assignment) := by
  unfold Agrees StaticType.instantiate at *
  rw [unlabeled_mapLeaves, unlabeled_mapLeaves, h]

/-- An instance that agrees with the type takes every variable to itself. -/
theorem variable_of_agrees {assignment : Assignment} {type : StaticType}
    (h : (type.instantiate assignment).Agrees type) {name : String}
    (mem : name ∈ type.freeVariables) : assignment name = .variable name := by
  unfold instantiate Agrees at h
  induction type using parts_induction with
  | onVariable other =>
    rw [freeVariables, List.mem_singleton] at mem
    subst mem
    rw [mapLeaves] at h
    rcases found : assignment name with same | _ | _ | _
    all_goals rw [found] at h
    · simpa [unlabeled] using h
    all_goals simp [unlabeled] at h
  | onGeneric other =>
    rw [freeVariables] at mem
    cases mem
  | onConstant constructor parameters ih =>
    rw [freeVariables, List.mem_flatMap] at mem
    obtain ⟨part, among, mem⟩ := mem
    simp only [mapLeaves, unlabeled, constant.injEq, true_and, List.map_map] at h
    exact ih part among (List.map_inj_left.1 h part among) mem
  | onFunction arguments result ihArguments ihResult =>
    rw [freeVariables, List.mem_append, List.mem_flatMap] at mem
    simp only [mapLeaves, unlabeled, function.injEq, List.map_map] at h
    rcases mem with ⟨argument, among, mem⟩ | mem
    · have same := List.map_inj_left.1 h.1 argument among
      exact ihArguments argument among (Prod.mk.inj same).2 mem
    · exact ihResult h.2 mem

variable {there back : Assignment} {left right : StaticType}

/-- Going to an instance and back, a variable stands for a variable on the way. -/
theorem rename_of_instances (forth : (left.instantiate there).Agrees right)
    (again : (right.instantiate back).Agrees left) {name : String}
    (mem : name ∈ left.freeVariables) :
    there name = .variable (there.rename name) ∧
      back (there.rename name) = .variable name := by
  have round : (left.instantiate fun name => (there name).instantiate back).Agrees left := by
    rw [← instantiate_instantiate]
    exact (forth.instances back).trans again
  have own := variable_of_agrees round mem
  unfold Assignment.rename
  rcases found : there name with other | _ | _ | _
  all_goals rw [found, instantiate, mapLeaves] at own
  · exact ⟨rfl, own⟩
  all_goals cases own

/-- Types that are instances of each other agree up to a renaming of variables. -/
theorem variants (forth : (left.instantiate there).Agrees right)
    (again : (right.instantiate back).Agrees left) :
    Variants there.rename back.rename left right where
  renamed := by
    unfold renamed
    rw [show left.instantiate (fun name => .variable (there.rename name)) =
      left.instantiate there from mapLeaves_congr
        (fun name mem => (rename_of_instances forth again mem).1.symm) fun _ _ => rfl]
    exact forth
  inverse name mem := by
    have way := (rename_of_instances forth again mem).2
    rw [Assignment.rename, way]

end Instances

end StaticType

end DeclLang
