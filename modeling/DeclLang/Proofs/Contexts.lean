import DeclLang.Evaluation.Evaluate
import DeclLang.Proofs.StepInvariants

/-!
# Steps of the machine and what they do to a context

**Results.**  Equations for the outcome of steps, for the values in a context after each of its
operations, and for one evaluation: a node with a value gives it, a node with a thunk follows its
recipe one level deeper and keeps the value.
-/

namespace DeclLang

namespace Eval

variable {α : Type}

theorem attempt_eq {step : Eval α} {machine after : Machine} {outcome : Except EvalError α}
    (h : step machine = (outcome, after)) : attempt step machine = (.ok outcome, after) := by
  unfold attempt
  rw [h]

theorem within_ok {step : Eval α} {context inner after : Context} {session later : Session} {a : α}
    (h : step ⟨inner, session⟩ = (.ok a, ⟨after, later⟩)) :
    within inner step ⟨context, session⟩ = (.ok (a, after), ⟨context, later⟩) := by
  unfold within
  dsimp only
  rw [h]
  rfl

theorem within_fst (step : Eval α) (context inner : Context) (session : Session) :
    (within inner step ⟨context, session⟩).1 =
      (step ⟨inner, session⟩).1.map fun a => (a, (step ⟨inner, session⟩).2.context) :=
  rfl

theorem condition_ok {value : Value} {b : Bool} (h : value.boolean? = some b)
    (machine : Machine) : condition value machine = (.ok b, machine) := by
  unfold condition
  rw [h]
  rfl

end Eval

namespace Context

variable {context : Context}

@[simp] theorem value?_addValue (id : NodeId) (value : Value) (other : NodeId) :
    (context.addValue id value).value? other =
      if other = id then some value else context.value? other := by
  unfold value? addValue
  dsimp only
  rw [Std.TreeMap.getElem?_insert]
  by_cases same : other = id
  · rw [if_pos same, if_pos (Nat.compare_eq_eq.2 same.symm)]
  · rw [if_neg same, if_neg fun equal => same (Nat.compare_eq_eq.1 equal).symm]

@[simp] theorem value?_rebind (id : NodeId) (value : Value) (other : NodeId) :
    (context.rebind id value).value? other =
      if other = id then some value else context.value? other :=
  value?_addValue id value other

@[simp] theorem thunk?_addThunk (id : NodeId) (thunk : Thunk) (other : NodeId) :
    (context.addThunk id thunk).thunk? other =
      if other = id then some thunk else context.thunk? other := by
  unfold thunk? addThunk
  dsimp only
  rw [Std.TreeMap.getElem?_insert]
  by_cases same : other = id
  · rw [if_pos same, if_pos (Nat.compare_eq_eq.2 same.symm)]
  · rw [if_neg same, if_neg fun equal => same (Nat.compare_eq_eq.1 equal).symm]

theorem mem_rebound_rebind (id : NodeId) (value : Value) (other : NodeId) :
    other ∈ (context.rebind id value).rebound ↔ other = id ∨ other ∈ context.rebound := by
  unfold rebind
  dsimp only
  rw [Std.TreeSet.mem_insert, Nat.compare_eq_eq, eq_comm]

theorem mem_inProgress_insert (context : Context) (id other : NodeId) :
    other ∈ context.inProgress.insert id ↔ other = id ∨ other ∈ context.inProgress := by
  rw [Std.TreeSet.mem_insert, Nat.compare_eq_eq, eq_comm]

theorem mem_inProgress_erase (context : Context) (id other : NodeId) :
    other ∈ context.inProgress.erase id ↔ other ≠ id ∧ other ∈ context.inProgress := by
  rw [Std.TreeSet.mem_erase, ne_eq, Nat.compare_eq_eq, eq_comm]

/-- Forgetting drops exactly the values that can be computed again. -/
theorem value?_forget (ids : List NodeId) (id : NodeId) :
    (context.forget ids).value? id =
      if id ∈ ids ∧ (context.thunk? id).isSome then none else context.value? id := by
  unfold forget value?
  dsimp only
  have contains : context.thunks.contains id = (context.thunk? id).isSome :=
    Std.TreeMap.contains_eq_isSome_getElem?
  generalize context.values = values
  induction ids generalizing values with
  | nil => simp
  | cons first ids ih =>
    rw [List.foldl_cons, ih]
    by_cases later : id ∈ ids ∧ (context.thunk? id).isSome
    · rw [if_pos later, if_pos ⟨List.mem_cons_of_mem _ later.1, later.2⟩]
    · rw [if_neg later]
      by_cases same : id = first
      · subst same
        rw [contains]
        by_cases thunk : (context.thunk? id).isSome
        · rw [if_pos thunk, if_pos ⟨List.mem_cons_self, thunk⟩]
          exact Std.TreeMap.getElem?_erase_self
        · rw [if_neg thunk, if_neg fun both => thunk both.2]
      · have unchanged : (if context.thunks.contains first then values.erase first
            else values)[id]? = values[id]? := by
          split
          · rw [Std.TreeMap.getElem?_erase,
              if_neg fun equal => same (Nat.compare_eq_eq.1 equal).symm]
          · rfl
        rw [unchanged, if_neg]
        rintro ⟨mem, thunk⟩
        exact later ⟨(List.mem_cons.1 mem).resolve_left same, thunk⟩

@[simp] theorem thunks_forget (ids : List NodeId) : (context.forget ids).thunks = context.thunks :=
  rfl

/-- Gives several declarations their values. -/
def addValues (context : Context) (bindings : List (NodeId × Value)) : Context :=
  bindings.foldl (fun context binding => context.addValue binding.1 binding.2) context

theorem addValues_rest (context : Context) (bindings : List (NodeId × Value)) :
    (context.addValues bindings).thunks = context.thunks ∧
      (context.addValues bindings).inProgress = context.inProgress ∧
      (context.addValues bindings).rebound = context.rebound := by
  unfold addValues
  induction bindings generalizing context with
  | nil => exact ⟨rfl, rfl, rfl⟩
  | cons binding bindings ih => exact ih (context.addValue binding.1 binding.2)

theorem value?_addValues (context : Context) {bindings : List (NodeId × Value)} {id : NodeId}
    (h : id ∉ bindings.map Prod.fst) : (context.addValues bindings).value? id =
      context.value? id := by
  unfold addValues
  induction bindings generalizing context with
  | nil => rfl
  | cons binding bindings ih =>
    rw [List.map_cons, List.mem_cons, not_or] at h
    rw [List.foldl_cons, ih _ h.2, value?_addValue, if_neg h.1]

/-- What one context takes over of another one, from a list of declarations. -/
def takeOver (other : Context) (ids : List NodeId) (context : Context) : Context :=
  ids.foldl (fun context id =>
    match other.value? id with
    | some value => context.rebind id value
    | none => context) context

theorem value?_takeOver (other : Context) (ids : List NodeId) (context : Context) (id : NodeId) :
    (takeOver other ids context).value? id =
      if id ∈ ids ∧ (other.value? id).isSome then other.value? id else context.value? id := by
  unfold takeOver
  induction ids generalizing context with
  | nil => simp
  | cons first ids ih =>
    rw [List.foldl_cons, ih]
    by_cases later : id ∈ ids ∧ (other.value? id).isSome
    · rw [if_pos later, if_pos ⟨List.mem_cons_of_mem _ later.1, later.2⟩]
    · rw [if_neg later]
      by_cases same : id = first
      · subst same
        cases found : other.value? id with
        | none => simp
        | some value => simp
      · have unchanged : (match other.value? first with
            | some value => context.rebind first value
            | none => context).value? id = context.value? id := by
          split
          · rw [value?_rebind, if_neg same]
          · rfl
        rw [unchanged, if_neg]
        rintro ⟨mem, known⟩
        exact later ⟨(List.mem_cons.1 mem).resolve_left same, known⟩

theorem mem_rebound_takeOver (other : Context) (ids : List NodeId) (context : Context)
    (id : NodeId) :
    id ∈ (takeOver other ids context).rebound ↔
      id ∈ context.rebound ∨ id ∈ ids ∧ (other.value? id).isSome := by
  unfold takeOver
  induction ids generalizing context with
  | nil => simp
  | cons first ids ih =>
    rw [List.foldl_cons, ih]
    cases found : other.value? first with
    | none =>
      simp only [List.mem_cons]
      constructor
      · rintro (before | ⟨mem, known⟩)
        · exact .inl before
        · exact .inr ⟨.inr mem, known⟩
      · rintro (before | ⟨rfl | mem, known⟩)
        · exact .inl before
        · rw [found] at known
          cases known
        · exact .inr ⟨mem, known⟩
    | some value =>
      simp only [mem_rebound_rebind, List.mem_cons]
      constructor
      · rintro ((rfl | before) | ⟨mem, known⟩)
        · exact .inr ⟨.inl rfl, by rw [found]; rfl⟩
        · exact .inl before
        · exact .inr ⟨.inr mem, known⟩
      · rintro (before | ⟨rfl | mem, known⟩)
        · exact .inl (.inr before)
        · exact .inl (.inl rfl)
        · exact .inr ⟨mem, known⟩

theorem adopt_eq (other : Context) :
    context.adopt other = takeOver other other.rebound.toList context :=
  rfl

/-- Adopting takes over the values of all declarations that were assigned. -/
theorem value?_adopt (other : Context) (id : NodeId) :
    (context.adopt other).value? id =
      if id ∈ other.rebound ∧ (other.value? id).isSome then other.value? id
      else context.value? id := by
  simp only [adopt_eq, value?_takeOver, Std.TreeSet.mem_toList]

theorem mem_rebound_adopt (other : Context) (id : NodeId) :
    id ∈ (context.adopt other).rebound ↔
      id ∈ context.rebound ∨ id ∈ other.rebound ∧ (other.value? id).isSome := by
  rw [adopt_eq, mem_rebound_takeOver, Std.TreeSet.mem_toList]

/-- Adopting changes neither recipes nor what is being evaluated. -/
theorem adopt_rest (other : Context) :
    (context.adopt other).thunks = context.thunks ∧
      (context.adopt other).inProgress = context.inProgress := by
  rw [adopt_eq]
  unfold takeOver
  generalize other.rebound.toList = ids
  induction ids generalizing context with
  | nil => exact ⟨rfl, rfl⟩
  | cons first ids ih =>
    rw [List.foldl_cons]
    cases other.value? first with
    | none => exact ih
    | some value => exact ih

end Context

end DeclLang
