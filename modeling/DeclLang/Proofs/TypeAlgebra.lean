import DeclLang.Types.StaticType

/-!
# Assignments and agreement of types

An assignment says which type stands for every variable; generic parameters are rigid.  Two types
agree if they are equal once the labels of function arguments are taken away.  Agreement is the
equality that unification decides: labels are written for the reader of a type and never compared.

**Results.**
* `StaticType.instantiate_instantiate`: assignments compose.
* `StaticType.Agrees.instantiate`: assignments that agree on every variable agree on every type.
* `StaticType.weight_instantiate_lt`: a variable that occurs properly inside a type stands for
  something strictly lighter than what the type stands for.
-/

namespace DeclLang

/-- Which type stands for every variable. -/
abbrev Assignment := String → StaticType

namespace StaticType

/-- The type with every variable replaced as an assignment says. -/
def instantiate (assignment : Assignment) (type : StaticType) : StaticType :=
  type.mapLeaves assignment .generic

/-- The type without the labels of function arguments. -/
def unlabeled : StaticType → StaticType
  | .variable name => .variable name
  | .generic name => .generic name
  | .constant name parameters => .constant name (parameters.map unlabeled)
  | .function arguments result =>
    .function (arguments.map fun argument => (none, unlabeled argument.2)) (unlabeled result)
termination_by t => sizeOf t
decreasing_by
  all_goals simp only [function.sizeOf_spec, constant.sizeOf_spec]
  · have := List.sizeOf_lt_of_mem ‹_ ∈ parameters›; omega
  · have := sizeOf_snd_lt_of_mem ‹_ ∈ arguments›; omega
  · omega

/-- Equality up to the labels of function arguments. -/
def Agrees (left right : StaticType) : Prop :=
  left.unlabeled = right.unlabeled

namespace Agrees

@[refl] theorem refl (type : StaticType) : type.Agrees type :=
  Eq.refl _

theorem symm {left right : StaticType} (h : left.Agrees right) : right.Agrees left :=
  Eq.symm h

theorem trans {left middle right : StaticType} (h : left.Agrees middle)
    (h' : middle.Agrees right) : left.Agrees right :=
  Eq.trans h h'

end Agrees

/-- Only the leaves that occur in a type decide what becomes of it. -/
theorem mapLeaves_congr {f g f' g' : String → StaticType} {type : StaticType}
    (onVariables : ∀ name ∈ type.freeVariables, f name = f' name)
    (generics : ∀ name ∈ type.generics, g name = g' name) :
    type.mapLeaves f g = type.mapLeaves f' g' := by
  induction type using parts_induction with
  | onVariable name =>
    simp only [mapLeaves]
    exact onVariables name (by simp [freeVariables])
  | onGeneric name =>
    simp only [mapLeaves]
    exact generics name (by simp [StaticType.generics])
  | onConstant name parameters ih =>
    simp only [freeVariables, StaticType.generics, List.mem_flatMap] at onVariables generics
    simp only [mapLeaves, constant.injEq, true_and]
    refine List.map_congr_left fun part mem => ih part mem ?_ ?_
    · exact fun name h => onVariables name ⟨part, mem, h⟩
    · exact fun name h => generics name ⟨part, mem, h⟩
  | onFunction arguments result ihArguments ihResult =>
    simp only [freeVariables, StaticType.generics, List.mem_append, List.mem_flatMap]
      at onVariables generics
    simp only [mapLeaves, function.injEq]
    constructor
    · refine List.map_congr_left fun argument mem => ?_
      rw [ihArguments argument mem (fun name h => onVariables name (.inl ⟨argument, mem, h⟩))
        (fun name h => generics name (.inl ⟨argument, mem, h⟩))]
    · exact ihResult (fun name h => onVariables name (.inr h)) fun name h => generics name (.inr h)

theorem mapLeaves_leaves (type : StaticType) : type.mapLeaves .variable .generic = type := by
  induction type using parts_induction with
  | onVariable name => simp only [mapLeaves]
  | onGeneric name => simp only [mapLeaves]
  | onConstant name parameters ih =>
    simp only [mapLeaves, constant.injEq, true_and]
    exact (List.map_congr_left ih).trans (List.map_id _)
  | onFunction arguments result ihArguments ihResult =>
    simp only [mapLeaves, function.injEq, ihResult, and_true]
    refine (List.map_congr_left fun argument mem => ?_).trans (List.map_id _)
    rw [ihArguments argument mem, id]

theorem unlabeled_mapLeaves (f g : String → StaticType) (type : StaticType) :
    (type.mapLeaves f g).unlabeled =
      type.unlabeled.mapLeaves (fun name => (f name).unlabeled)
        (fun name => (g name).unlabeled) := by
  induction type using parts_induction with
  | onVariable name => simp only [mapLeaves, unlabeled]
  | onGeneric name => simp only [mapLeaves, unlabeled]
  | onConstant name parameters ih =>
    simp only [mapLeaves, unlabeled, List.map_map, constant.injEq, true_and]
    exact List.map_congr_left ih
  | onFunction arguments result ihArguments ihResult =>
    simp only [mapLeaves, unlabeled, List.map_map, function.injEq, ihResult, and_true]
    refine List.map_congr_left fun argument mem => ?_
    simp only [Function.comp_apply, ihArguments argument mem]

theorem mem_freeVariables_mapLeaves {f : String → StaticType} {other : String}
    (type : StaticType) :
    other ∈ (type.mapLeaves f .generic).freeVariables ↔
      ∃ name ∈ type.freeVariables, other ∈ (f name).freeVariables := by
  induction type using parts_induction with
  | onVariable name => simp [mapLeaves, freeVariables]
  | onGeneric name => simp [mapLeaves, freeVariables]
  | onConstant name parameters ih =>
    simp only [mapLeaves, freeVariables, List.mem_flatMap, List.mem_map]
    constructor
    · rintro ⟨_, ⟨part, mem, rfl⟩, h⟩
      obtain ⟨source, inPart, found⟩ := (ih part mem).1 h
      exact ⟨source, ⟨part, mem, inPart⟩, found⟩
    · rintro ⟨source, ⟨part, mem, inPart⟩, found⟩
      exact ⟨_, ⟨part, mem, rfl⟩, (ih part mem).2 ⟨source, inPart, found⟩⟩
  | onFunction arguments result ihArguments ihResult =>
    simp only [mapLeaves, freeVariables, List.mem_append, List.mem_flatMap, List.mem_map, ihResult]
    constructor
    · rintro (⟨_, ⟨part, mem, rfl⟩, h⟩ | ⟨source, inResult, found⟩)
      · obtain ⟨source, inPart, found⟩ := (ihArguments part mem).1 h
        exact ⟨source, .inl ⟨part, mem, inPart⟩, found⟩
      · exact ⟨source, .inr inResult, found⟩
    · rintro ⟨source, ⟨part, mem, inPart⟩ | inResult, found⟩
      · exact .inl ⟨_, ⟨part, mem, rfl⟩, (ihArguments part mem).2 ⟨source, inPart, found⟩⟩
      · exact .inr ⟨source, inResult, found⟩

theorem instantiate_instantiate (first second : Assignment) (type : StaticType) :
    (type.instantiate first).instantiate second =
      type.instantiate fun name => (first name).instantiate second := by
  unfold instantiate
  rw [mapLeaves_mapLeaves]
  simp only [mapLeaves]

theorem instantiate_replaceVariable (assignment : Assignment) (name : String)
    (replacement type : StaticType) :
    (type.replaceVariable name replacement).instantiate assignment =
      type.instantiate fun other =>
        if other = name then replacement.instantiate assignment else assignment other := by
  unfold instantiate replaceVariable
  rw [mapLeaves_mapLeaves]
  simp only [mapLeaves]
  refine mapLeaves_congr (fun other _ => ?_) fun _ _ => rfl
  split
  · rfl
  · simp only [mapLeaves]

/-- Assignments that agree on every variable agree on every type. -/
theorem Agrees.instantiate {first second : Assignment}
    (h : ∀ name, (first name).Agrees (second name)) (type : StaticType) :
    (type.instantiate first).Agrees (type.instantiate second) := by
  unfold Agrees StaticType.instantiate
  rw [unlabeled_mapLeaves, unlabeled_mapLeaves]
  exact mapLeaves_congr (fun name _ => h name) fun _ _ => rfl

/-- Replacing a variable by a type that an assignment cannot tell from it changes nothing. -/
theorem agrees_replaceVariable {assignment : Assignment} {name : String}
    {replacement : StaticType}
    (h : (assignment name).Agrees (replacement.instantiate assignment)) (type : StaticType) :
    ((type.replaceVariable name replacement).instantiate assignment).Agrees
      (type.instantiate assignment) := by
  rw [instantiate_replaceVariable]
  refine Agrees.instantiate (fun other => ?_) type
  split
  · rename_i same
    rw [same]
    exact h.symm
  · exact Agrees.refl _

theorem total_map_congr {α : Type} {f g : α → Nat} {l : List α} (h : ∀ x ∈ l, f x = g x) :
    total (l.map f) = total (l.map g) := by
  rw [List.map_congr_left h]

theorem le_total_of_mem {n : Nat} {l : List Nat} (h : n ∈ l) : n ≤ total l := by
  induction h with
  | head l => simp only [total]; omega
  | tail m _ ih => simp only [total]; omega

/-- Labels have no weight. -/
theorem weight_unlabeled (type : StaticType) : type.unlabeled.weight = type.weight := by
  induction type using parts_induction with
  | onVariable name => simp only [unlabeled]
  | onGeneric name => simp only [unlabeled]
  | onConstant name parameters ih =>
    simp only [unlabeled, weight, List.map_map, Function.comp_def]
    rw [total_map_congr ih]
  | onFunction arguments result ihArguments ihResult =>
    simp only [unlabeled, weight, List.map_map, Function.comp_def, ihResult]
    rw [total_map_congr ihArguments]

theorem Agrees.weight_eq {left right : StaticType} (h : left.Agrees right) :
    left.weight = right.weight := by
  rw [← weight_unlabeled left, ← weight_unlabeled right]
  exact congrArg weight h

/-- What stands for a variable of a type is no heavier than what stands for the type. -/
theorem weight_assignment_le (assignment : Assignment) {name : String} {type : StaticType}
    (h : name ∈ type.freeVariables) :
    (assignment name).weight ≤ (type.instantiate assignment).weight := by
  unfold instantiate
  induction type using parts_induction with
  | onVariable other =>
    simp only [freeVariables, List.mem_singleton] at h
    simp only [mapLeaves, h]
    exact Nat.le_refl _
  | onGeneric other => simp [freeVariables] at h
  | onConstant other parameters ih =>
    simp only [freeVariables, List.mem_flatMap] at h
    obtain ⟨part, mem, inPart⟩ := h
    have heavier := ih part mem inPart
    have summand := le_total_of_mem (List.mem_map_of_mem (f := weight)
      (List.mem_map_of_mem (f := mapLeaves assignment .generic) mem))
    simp only [mapLeaves, weight]
    omega
  | onFunction arguments result ihArguments ihResult =>
    simp only [freeVariables, List.mem_append, List.mem_flatMap] at h
    simp only [mapLeaves, weight, List.map_map, Function.comp_def]
    rcases h with ⟨part, mem, inPart⟩ | inResult
    · have heavier := ihArguments part mem inPart
      have summand := le_total_of_mem (List.mem_map_of_mem
        (f := fun argument : Option String × StaticType =>
          (mapLeaves assignment .generic argument.2).weight) mem)
      omega
    · have heavier := ihResult inResult
      omega

/-- A variable that occurs properly inside a type stands for something lighter than what the type
stands for. -/
theorem weight_instantiate_lt (assignment : Assignment) {name : String} {type : StaticType}
    (occurs : name ∈ type.freeVariables) (proper : type ≠ .variable name) :
    (assignment name).weight < (type.instantiate assignment).weight := by
  cases type using parts_induction with
  | onVariable other =>
    simp only [freeVariables, List.mem_singleton] at occurs
    exact absurd (occurs ▸ rfl) proper
  | onGeneric other => simp [freeVariables] at occurs
  | onConstant other parameters =>
    simp only [freeVariables, List.mem_flatMap] at occurs
    obtain ⟨part, mem, inPart⟩ := occurs
    have heavier := weight_assignment_le assignment inPart
    have summand := le_total_of_mem (List.mem_map_of_mem (f := weight)
      (List.mem_map_of_mem (f := mapLeaves assignment .generic) mem))
    unfold instantiate at heavier ⊢
    simp only [mapLeaves, weight]
    omega
  | onFunction arguments result =>
    simp only [freeVariables, List.mem_append, List.mem_flatMap] at occurs
    have positive := (mapLeaves assignment .generic result).weight_pos
    rcases occurs with ⟨part, mem, inPart⟩ | inResult
    · have heavier := weight_assignment_le assignment inPart
      have summand := le_total_of_mem (List.mem_map_of_mem
        (f := fun argument : Option String × StaticType =>
          (mapLeaves assignment .generic argument.2).weight) mem)
      unfold instantiate at heavier ⊢
      simp only [mapLeaves, weight, List.map_map, Function.comp_def]
      omega
    · have heavier := weight_assignment_le assignment inResult
      unfold instantiate at heavier ⊢
      simp only [mapLeaves, weight]
      omega

end StaticType

end DeclLang
