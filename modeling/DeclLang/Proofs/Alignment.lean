import DeclLang.Syntax.Arguments

/-!
# What alignment gives to slots

**Results.**  `align_from`: every slot that is filled holds one of the arguments of the call.
`align_length`: there is one entry for every slot.  `align_positional`: arguments without labels
fill the slots in order.  `align_map`: where an argument goes does not depend on what it is.
-/

namespace DeclLang

namespace Alignment

variable {α : Type} {slots : List Slot} {found : Nat}

theorem place_ok {state placed : State α} {argument : Option String × α}
    (h : place slots found state argument = .ok placed) :
    ∃ position, placed.filled = state.filled.set position (some argument.2) := by
  unfold place at h
  cases located : position slots found argument.1 state with
  | error error =>
    rw [located] at h
    cases h
  | ok location =>
    rw [located] at h
    simp only [bind, Except.bind] at h
    split at h
    · cases h
    · cases h
      exact ⟨location.1, rfl⟩

theorem foldlM_place_ok {arguments : List (Option String × α)} {state placed : State α}
    (h : arguments.foldlM (place slots found) state = .ok placed) :
    placed.filled.length = state.filled.length ∧
      ∀ value, some value ∈ placed.filled →
        some value ∈ state.filled ∨ value ∈ arguments.map Prod.snd := by
  induction arguments generalizing state with
  | nil =>
    cases h
    exact ⟨rfl, fun value mem => .inl mem⟩
  | cons argument arguments ih =>
    rw [List.foldlM_cons] at h
    cases first : place slots found state argument with
    | error error =>
      rw [first] at h
      cases h
    | ok next =>
      rw [first] at h
      obtain ⟨position, filled⟩ := place_ok first
      obtain ⟨length, from_⟩ := ih h
      refine ⟨by rw [length, filled, List.length_set], fun value mem => ?_⟩
      rcases from_ value mem with before | later
      · rw [filled] at before
        rcases List.mem_or_eq_of_mem_set before with before | own
        · exact .inl before
        · cases own
          exact .inr List.mem_cons_self
      · exact .inr (List.mem_cons_of_mem _ later)

/-- The cursor moves over everything that is filled. -/
theorem advance_eq (front : List α) (empty : Nat) {cursor : Nat} (h : cursor ≤ front.length) :
    advance (front.map some ++ List.replicate empty none) cursor = front.length := by
  have length : cursor ≤ (front.map some).length := by rwa [List.length_map]
  have filled : ∀ entry ∈ (front.map some).drop cursor, entry.isSome = true := by
    intro entry mem
    obtain ⟨value, -, rfl⟩ := List.mem_map.1 (List.mem_of_mem_drop mem)
    rfl
  have stops : (List.replicate empty (none : Option α)).takeWhile Option.isSome = [] := by
    cases empty <;> rfl
  rw [advance, List.drop_append_of_le_length length, List.takeWhile_append_of_pos filled, stops,
    List.append_nil, List.length_drop, List.length_map]
  omega

/-- Arguments without labels fill the empty slots in order. -/
theorem foldlM_place_positional {front rest : List α} {cursor : Nat} (h : cursor ≤ front.length)
    (length : slots.length = front.length + rest.length) :
    ∃ placed, (rest.map fun value => ((none : Option String), value)).foldlM (place slots found)
        { filled := front.map some ++ List.replicate rest.length none, cursor } = .ok placed ∧
      placed.filled = (front ++ rest).map some := by
  induction rest generalizing front cursor with
  | nil => exact ⟨_, rfl, by simp⟩
  | cons value rest ih =>
    rw [List.length_cons] at length
    have placed : place slots found
        { filled := front.map some ++ List.replicate (rest.length + 1) none, cursor }
        (none, value) = .ok
          { filled := (front ++ [value]).map some ++ List.replicate rest.length none,
            cursor := front.length } := by
      unfold place position
      dsimp only
      rw [advance_eq front _ h, if_pos (by omega)]
      simp [List.replicate_succ, bind, Except.bind]
    obtain ⟨state, folded, filled⟩ := @ih (front ++ [value]) front.length (by simp)
      (by simp; omega)
    refine ⟨state, ?_, by rw [filled, List.append_assoc]; rfl⟩
    rw [List.map_cons, List.foldlM_cons, List.length_cons, placed]
    exact folded

section Map

variable {β : Type} (f : α → β)

theorem advance_map (filled : List (Option α)) (cursor : Nat) :
    advance (filled.map (Option.map f)) cursor = advance filled cursor := by
  have same : Option.isSome ∘ Option.map f = Option.isSome := by
    funext entry
    exact Option.isSome_map
  rw [advance, advance, ← List.map_drop, List.takeWhile_map, List.length_map, same]

/-- Placing an argument does not look at what it is. -/
theorem place_map (state : State α) (argument : Option String × α) :
    place slots found ⟨state.filled.map (Option.map f), state.cursor⟩ (argument.1, f argument.2) =
      (place slots found state argument).map fun placed =>
        ⟨placed.filled.map (Option.map f), placed.cursor⟩ := by
  have located : position slots found argument.1
      ⟨state.filled.map (Option.map f), state.cursor⟩ =
        position slots found argument.1 state := by
    unfold position
    rw [advance_map]
  unfold place
  rw [located]
  cases position slots found argument.1 state with
  | error error => rfl
  | ok location =>
    have occupied : ((state.filled.map (Option.map f))[location.1]?.join).isSome =
        (state.filled[location.1]?.join).isSome := by
      rw [List.getElem?_map]
      cases state.filled[location.1]? with
      | none => rfl
      | some entry => cases entry <;> rfl
    dsimp only [bind, Except.bind]
    rw [occupied]
    split
    · rfl
    · rw [Except.map, List.map_set]
      rfl

theorem foldlM_place_map (arguments : List (Option String × α)) (state : State α) :
    (arguments.map fun argument => (argument.1, f argument.2)).foldlM (place slots found)
        ⟨state.filled.map (Option.map f), state.cursor⟩ =
      (arguments.foldlM (place slots found) state).map fun placed =>
        ⟨placed.filled.map (Option.map f), placed.cursor⟩ := by
  induction arguments generalizing state with
  | nil => rfl
  | cons argument arguments ih =>
    rw [List.map_cons, List.foldlM_cons, List.foldlM_cons, place_map]
    cases place slots found state argument with
    | error error => rfl
    | ok placed => exact ih placed

end Map

end Alignment

/-- Alignment does not look at what the arguments are. -/
theorem align_map {α β : Type} (f : α → β) (slots : List Slot)
    (arguments : List (Option String × α)) :
    align slots (arguments.map fun argument => (argument.1, f argument.2)) =
      (align slots arguments).map (List.map (Option.map f)) := by
  have folded := @Alignment.foldlM_place_map α slots arguments.length β f arguments
    { filled := slots.map fun _ => none }
  rw [List.map_map] at folded
  unfold align
  dsimp only
  rw [List.length_map]
  rw [show (arguments.map fun argument => (argument.1, f argument.2)).foldlM
      (Alignment.place slots arguments.length) { filled := slots.map fun _ => none } = _
      from folded]
  cases arguments.foldlM (Alignment.place slots arguments.length)
      { filled := slots.map fun _ => none } with
  | error error => rfl
  | ok placed => rfl

/-- As many arguments without labels as there are slots fill them in order. -/
theorem align_positional {α : Type} {slots : List Slot} {values : List α}
    (h : slots.length = values.length) :
    align slots (values.map fun value => (none, value)) = .ok (values.map some) := by
  have empty : (slots.map fun _ => (none : Option α)) = List.replicate values.length none := by
    rw [← h]
    exact List.map_const'
  have length : slots.length = ([] : List α).length + values.length := by
    rw [h, List.length_nil, Nat.zero_add]
  obtain ⟨placed, folded, filled⟩ := Alignment.foldlM_place_positional
    (Nat.le_refl 0) length
  unfold align
  dsimp only
  rw [empty]
  rw [show List.foldlM _ { filled := List.replicate values.length none } _ = Except.ok placed from
    folded]
  exact congrArg Except.ok filled

variable {α : Type} {slots : List Slot} {arguments : List (Option String × α)}
  {filled : List (Option α)}

theorem align_ok (h : align slots arguments = .ok filled) :
    filled.length = slots.length ∧
      ∀ value, some value ∈ filled → value ∈ arguments.map Prod.snd := by
  unfold align at h
  dsimp only at h
  cases placed : arguments.foldlM (Alignment.place slots arguments.length)
      { filled := slots.map fun _ => none } with
  | error error =>
    rw [placed] at h
    cases h
  | ok state =>
    rw [placed] at h
    cases h
    obtain ⟨length, from_⟩ := Alignment.foldlM_place_ok placed
    refine ⟨by rw [length, List.length_map], fun value mem => ?_⟩
    rcases from_ value mem with start | given
    · obtain ⟨_, _, absurdity⟩ := List.mem_map.1 start
      cases absurdity
    · exact given

/-- There is one entry for every slot. -/
theorem align_length (h : align slots arguments = .ok filled) : filled.length = slots.length :=
  (align_ok h).1

/-- A slot that is filled holds an argument of the call. -/
theorem align_from (h : align slots arguments = .ok filled) {value : α}
    (mem : some value ∈ filled) : value ∈ arguments.map Prod.snd :=
  (align_ok h).2 value mem

end DeclLang
