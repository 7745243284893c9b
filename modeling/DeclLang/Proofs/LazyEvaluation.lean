import Mathlib.Data.Finset.Card
import DeclLang.Proofs.Contexts

/-!
# Lazy evaluation without memory

**Input.**  A context, and the region of nodes whose recipes may be followed.

**Algorithm.**  `Context.foresee` follows recipes like evaluation does, but keeps no value and
knows no cycles; how deep recipes may be nested is a number.

**Results.**
* `Evaluator.evaluateWithin_foresee`: evaluation finds every value that is foreseen, changes no
  recipe, and keeps only values that are foreseen as well.
* `Context.foresee_of_region`: a value that is foreseen at all is foreseen when recipes may be
  nested as deep as the region has nodes.  So it is found by an evaluation that may go that deep,
  and no node is needed for its own value.
-/

namespace DeclLang

/-- The result of a recipe, for the recipes of variables, identifiers and operators. -/
def Thunk.result? (thunk : Thunk) (look : NodeId → Option Value) : Option Value :=
  match thunk.recipe, thunk.dependencies with
  | .relay, [source] => look source
  | .operation operator, [left, right] => do
    let a ← look left
    let b ← look right
    (operator.apply a b).toOption
  | .shortCircuit decisive first second, [] => do
    let holds ← (← look first).boolean?
    if holds = decisive then return .boolean holds
    else return .boolean (← (← look second).boolean?)
  | _, _ => none

theorem Thunk.result?_mono {thunk : Thunk} {look more : NodeId → Option Value}
    (grows : ∀ id value, look id = some value → more id = some value) {value : Value}
    (h : thunk.result? look = some value) : thunk.result? more = some value := by
  unfold result? at h ⊢
  split at h
  · exact grows _ _ h
  · simp only [Option.bind_eq_bind, Option.bind_eq_some_iff] at h ⊢
    obtain ⟨a, first, b, second, h⟩ := h
    exact ⟨a, grows _ _ first, b, grows _ _ second, h⟩
  · simp only [Option.bind_eq_bind, Option.bind_eq_some_iff] at h ⊢
    obtain ⟨a, first, b, holds, h⟩ := h
    refine ⟨a, grows _ _ first, b, holds, ?_⟩
    split at h
    · rename_i decides
      rw [if_pos decides]
      exact h
    · rename_i undecided
      rw [if_neg undecided]
      simp only [Option.bind_eq_some_iff] at h ⊢
      obtain ⟨c, second, d, result, h⟩ := h
      exact ⟨c, grows _ _ second, d, result, h⟩
  · cases h

namespace Context

/-- The value of a node, following recipes in a region when so many of them may be nested. -/
def foresee (region : List NodeId) (context : Context) : Nat → NodeId → Option Value
  | 0, id => context.value? id
  | nested + 1, id =>
    match context.value? id with
    | some value => some value
    | none =>
      if id ∈ region then
        (context.thunk? id).bind fun thunk => thunk.result? (foresee region context nested)
      else none

section

variable {region : List NodeId} {context : Context}

theorem foresee_of_value {id : NodeId} {value : Value} (h : context.value? id = some value)
    (nested : Nat) : context.foresee region nested id = some value := by
  cases nested with
  | zero => exact h
  | succ nested => rw [foresee, h]

theorem foresee_of_thunk {id : NodeId} {thunk : Thunk} (unknown : context.value? id = none)
    (mem : id ∈ region) (found : context.thunk? id = some thunk) (nested : Nat) :
    context.foresee region (nested + 1) id =
      thunk.result? (context.foresee region nested) := by
  rw [foresee, unknown]
  dsimp only
  rw [if_pos mem, found, Option.bind_some]

/-- What is foreseen without a value is in the region and has a recipe that gives it. -/
theorem foresee_inv {id : NodeId} {value : Value} {nested : Nat}
    (h : context.foresee region nested id = some value) :
    context.value? id = some value ∨ context.value? id = none ∧ id ∈ region ∧
      ∃ before thunk, nested = before + 1 ∧ context.thunk? id = some thunk ∧
        thunk.result? (context.foresee region before) = some value := by
  cases nested with
  | zero => exact .inl h
  | succ before =>
    cases known : context.value? id with
    | some other =>
      rw [foresee_of_value known] at h
      exact .inl h
    | none =>
      rw [foresee, known] at h
      dsimp only at h
      split at h
      · rename_i mem
        obtain ⟨thunk, found, result⟩ := Option.bind_eq_some_iff.1 h
        exact .inr ⟨rfl, mem, before, thunk, rfl, found, result⟩
      · cases h

/-- More nesting and a larger region only add values. -/
theorem foresee_mono {larger : List NodeId} (subset : region ⊆ larger) {nested more : Nat}
    (le : nested ≤ more) {id : NodeId} {value : Value}
    (h : context.foresee region nested id = some value) :
    context.foresee larger more id = some value := by
  induction more generalizing nested id value with
  | zero =>
    cases Nat.le_zero.1 le
    exact h
  | succ more ih =>
    rcases foresee_inv h with known | ⟨unknown, mem, before, thunk, rfl, found, result⟩
    · exact foresee_of_value known _
    · rw [foresee_of_thunk unknown (subset mem) found]
      exact Thunk.result?_mono (fun _ _ => ih (Nat.le_of_succ_le_succ le)) result

/-- A node has one value only, however deep recipes are nested. -/
theorem foresee_unique {nested other : Nat} {id : NodeId} {value second : Value}
    (h : context.foresee region nested id = some value)
    (again : context.foresee region other id = some second) : value = second := by
  have first := foresee_mono (List.Subset.refl region) (Nat.le_max_left nested other) h
  rw [foresee_mono (List.Subset.refl region) (Nat.le_max_right nested other) again] at first
  exact (Option.some.inj first).symm

/-- Once a further level adds no value, no level does. -/
theorem foresee_stable {level : Nat}
    (stable : ∀ id value, context.foresee region (level + 1) id = some value →
      context.foresee region level id = some value) {nested : Nat} {id : NodeId} {value : Value}
    (h : context.foresee region nested id = some value) :
    context.foresee region level id = some value := by
  induction nested generalizing id value with
  | zero => exact foresee_of_value h level
  | succ nested ih =>
    rcases foresee_inv h with known | ⟨unknown, mem, before, thunk, same, found, result⟩
    · exact foresee_of_value known level
    · cases same
      refine stable id value ?_
      rw [foresee_of_thunk unknown mem found]
      exact Thunk.result?_mono (fun _ _ => ih) result

/-- The nodes of a list whose value is foreseen at a level. -/
def foreseen (region nodes : List NodeId) (context : Context) (level : Nat) : Finset NodeId :=
  nodes.toFinset.filter fun id => (context.foresee region level id).isSome

variable (context) in
/-- As long as levels add values, there are at least as many values as levels. -/
theorem stable_or_le_card {nodes : List NodeId} (subset : region ⊆ nodes) (level : Nat) :
    (∃ earlier ≤ level, ∀ id value, context.foresee region (earlier + 1) id = some value →
        context.foresee region earlier id = some value) ∨
      level ≤ (foreseen region nodes context level).card := by
  induction level with
  | zero => exact .inr (Nat.zero_le _)
  | succ level ih =>
    rcases ih with ⟨earlier, le, stable⟩ | many
    · exact .inl ⟨earlier, Nat.le_succ_of_le le, stable⟩
    by_cases stable : ∀ id value, context.foresee region (level + 1) id = some value →
        context.foresee region level id = some value
    · exact .inl ⟨level, Nat.le_succ level, stable⟩
    · right
      simp only [not_forall] at stable
      obtain ⟨id, value, found, missing⟩ := stable
      have unforeseen : context.foresee region level id = none := by
        cases other : context.foresee region level id with
        | none => rfl
        | some second =>
          rw [foresee_unique other found] at other
          exact absurd other missing
      have mem : id ∈ region := by
        rcases foresee_inv found with known | ⟨-, mem, -⟩
        · rw [foresee_of_value known] at unforeseen
          cases unforeseen
        · exact mem
      have grows : foreseen region nodes context level ⊂
          foreseen region nodes context (level + 1) := by
        rw [Finset.ssubset_iff_of_subset]
        · refine ⟨id, ?_, ?_⟩
          · rw [foreseen, Finset.mem_filter, found]
            exact ⟨List.mem_toFinset.2 (subset mem), rfl⟩
          · rw [foreseen, Finset.mem_filter, unforeseen]
            simp
        · intro other mem
          rw [foreseen, Finset.mem_filter] at mem ⊢
          obtain ⟨second, known⟩ := Option.isSome_iff_exists.1 mem.2
          rw [foresee_mono (List.Subset.refl region) (Nat.le_succ level) known]
          exact ⟨mem.1, rfl⟩
      exact Nat.lt_of_le_of_lt many (Finset.card_lt_card grows)

/-- What is foreseen at all is foreseen when recipes are nested as deep as there are nodes. -/
theorem foresee_of_region {nodes : List NodeId} (subset : region ⊆ nodes) {nested : Nat}
    {id : NodeId} {value : Value} (h : context.foresee region nested id = some value) :
    context.foresee region nodes.length id = some value := by
  rcases stable_or_le_card context subset nodes.length with ⟨earlier, le, stable⟩ | many
  · exact foresee_mono (List.Subset.refl region) le (foresee_stable stable h)
  · rcases foresee_inv h with known | ⟨-, mem, -⟩
    · exact foresee_of_value known _
    -- All nodes are foreseen at this level, so this one is.
    have all : foreseen region nodes context nodes.length = nodes.toFinset :=
      Finset.eq_of_subset_of_card_le (Finset.filter_subset _ _)
        (Nat.le_trans nodes.toFinset_card_le many)
    have mem : id ∈ foreseen region nodes context nodes.length := by
      rw [all]
      exact List.mem_toFinset.2 (subset mem)
    obtain ⟨second, found⟩ := Option.isSome_iff_exists.1 (Finset.mem_filter.1 mem).2
    rw [found, foresee_unique found h]

end

/-- `Recalls region start context`: the context differs from `start` only in that it has kept values
of the region that were foreseen. -/
structure Recalls (region : List NodeId) (start context : Context) : Prop where
  thunks : context.thunks = start.thunks
  rebound : context.rebound = start.rebound
  kept : ∀ id value, start.value? id = some value → context.value? id = some value
  foreseen : ∀ id value, context.value? id = some value →
    ∃ nested, start.foresee region nested id = some value
  outside : ∀ id, id ∉ region → context.value? id = start.value? id

theorem Recalls.refl (region : List NodeId) (context : Context) :
    Recalls region context context where
  thunks := rfl
  rebound := rfl
  kept _ _ h := h
  foreseen _ _ h := ⟨0, h⟩
  outside _ _ := rfl

theorem Recalls.thunk? {region : List NodeId} {start context : Context}
    (h : Recalls region start context) (id : NodeId) : context.thunk? id = start.thunk? id := by
  unfold Context.thunk?
  rw [h.thunks]

/-- `Keeps context after`: values are only added, and no declaration is assigned. -/
structure Keeps (context after : Context) : Prop where
  kept : ∀ id value, context.value? id = some value → after.value? id = some value
  rebound : after.rebound = context.rebound

theorem Keeps.refl (context : Context) : context.Keeps context where
  kept _ _ known := known
  rebound := rfl

theorem Keeps.trans {first second third : Context} (h : first.Keeps second)
    (next : second.Keeps third) : first.Keeps third where
  kept id value known := next.kept id value (h.kept id value known)
  rebound := next.rebound.trans h.rebound

theorem Keeps.unknown {context after : Context} (h : context.Keeps after) {id : NodeId}
    (unknown : after.value? id = none) : context.value? id = none := by
  cases before : context.value? id with
  | none => rfl
  | some value =>
    rw [h.kept id value before] at unknown
    cases unknown

theorem Recalls.keeps {region : List NodeId} {start context : Context}
    (h : Recalls region start context) : start.Keeps context where
  kept := h.kept
  rebound := h.rebound

/-- A context after the evaluation of a node has come to a value. -/
def conclude (context : Context) (id : NodeId) (value : Value) : Context :=
  ({ context with inProgress := context.inProgress.erase id } : Context).addValue id value

@[simp] theorem value?_conclude (context : Context) (id : NodeId) (value : Value)
    (other : NodeId) :
    (context.conclude id value).value? other =
      if other = id then some value else context.value? other :=
  value?_addValue id value other

theorem Recalls.conclude {region : List NodeId} {start context : Context} {id : NodeId}
    {value : Value} (recalls : Recalls region start context) (mem : id ∈ region) {level : Nat}
    (found : start.foresee region level id = some value) :
    Recalls region start (context.conclude id value) where
  thunks := recalls.thunks
  rebound := recalls.rebound
  kept other kept known := by
    rw [value?_conclude]
    split
    · rename_i same
      subst same
      rw [foresee_unique found (foresee_of_value known 0)]
    · exact recalls.kept other kept known
  foreseen other kept known := by
    rw [value?_conclude] at known
    split at known
    · rename_i same
      subst same
      cases known
      exact ⟨level, found⟩
    · exact recalls.foreseen other kept known
  outside other absent := by
    have different : other ≠ id := by
      rintro rfl
      exact absent mem
    rw [value?_conclude, if_neg different]
    exact recalls.outside other absent

end Context

/-- A recipe gives its result when its dependencies are evaluated in a machine that finds their
values and keeps to what is said of contexts. -/
theorem Call.follow_result (plan : Plan) (limits : Limits) {evaluate : NodeId → Eval Value}
    {session : Session} {thunk : Thunk} {look : NodeId → Option Value} {value : Value}
    (result : thunk.result? look = some value) (keeps : Context → Prop)
    (step : ∀ id value, look id = some value → ∀ context, keeps context →
      ∃ after, evaluate id ⟨context, session⟩ = (.ok value, ⟨after, session⟩) ∧ keeps after)
    (id : NodeId) (context : Context) (start : keeps context) :
    ∃ after, (do
      let values ← thunk.dependencies.mapM evaluate
      Call.follow plan limits evaluate id thunk.recipe values) ⟨context, session⟩ =
        (.ok value, ⟨after, session⟩) ∧ keeps after := by
  obtain ⟨dependencies, recipe⟩ := thunk
  unfold Thunk.result? at result
  split at result
  · rename_i source same sources
    obtain ⟨after, evaluated, kept⟩ := step _ _ result _ start
    cases same
    cases sources
    refine ⟨after, ?_, kept⟩
    have values : [source].mapM evaluate ⟨context, session⟩ = (.ok [value], ⟨after, session⟩) := by
      rw [List.mapM_cons, Step.bind_ok evaluated]
      rfl
    rw [Step.bind_ok values]
    rfl
  · rename_i operator left right same sources
    simp only [Option.bind_eq_bind, Option.bind_eq_some_iff] at result
    obtain ⟨a, first, b, second, applied⟩ := result
    obtain ⟨middle, evaluated, kept⟩ := step _ _ first _ start
    obtain ⟨after, evaluatedRight, keptRight⟩ := step _ _ second _ kept
    cases same
    cases sources
    refine ⟨after, ?_, keptRight⟩
    have values : [left, right].mapM evaluate ⟨context, session⟩ =
        (.ok [a, b], ⟨after, session⟩) := by
      have last : [right].mapM evaluate ⟨middle, session⟩ = (.ok [b], ⟨after, session⟩) := by
        rw [List.mapM_cons, Step.bind_ok evaluatedRight]
        rfl
      rw [List.mapM_cons, Step.bind_ok evaluated, Step.bind_ok last]
      rfl
    rw [Step.bind_ok values]
    cases outcome : operator.apply a b with
    | error error =>
      rw [outcome] at applied
      cases applied
    | ok other =>
      rw [outcome] at applied
      cases applied
      unfold Call.follow
      dsimp only
      rw [outcome]
      rfl
  · rename_i decisive first second same sources
    cases same
    cases sources
    simp only [Option.bind_eq_bind, Option.bind_eq_some_iff] at result
    obtain ⟨a, found, b, holds, result⟩ := result
    obtain ⟨middle, evaluated, kept⟩ := step _ _ found _ start
    have values : ([] : List NodeId).mapM evaluate ⟨context, session⟩ =
      (.ok [], ⟨context, session⟩) := rfl
    rw [Step.bind_ok values]
    unfold Call.follow
    dsimp only
    rw [Step.bind_ok evaluated, Step.bind_ok (Eval.condition_ok holds _)]
    split at result
    · rename_i decides
      rw [if_pos decides]
      cases result
      exact ⟨middle, rfl, kept⟩
    · rename_i undecided
      rw [if_neg undecided]
      simp only [Option.bind_eq_some_iff] at result
      obtain ⟨c, foundRight, d, holdsRight, result⟩ := result
      obtain ⟨after, evaluatedRight, keptRight⟩ := step _ _ foundRight _ kept
      cases result
      rw [Step.bind_ok evaluatedRight, Step.bind_ok (Eval.condition_ok holdsRight _)]
      exact ⟨after, rfl, keptRight⟩
  · cases result

namespace Evaluator

variable {context : Context} {session : Session}

theorem lookup_value {run : Thunk → Eval Value} {id : NodeId} {value : Value}
    (h : context.value? id = some value) :
    lookup run id ⟨context, session⟩ = (.ok value, ⟨context, session⟩) := by
  have current : Eval.context ⟨context, session⟩ = (.ok context, ⟨context, session⟩) := rfl
  unfold lookup
  rw [Step.bind_ok current, h]
  rfl

theorem lookup_missing {run : Thunk → Eval Value} {id : NodeId}
    (unknown : context.value? id = none) (recipe : context.thunk? id = none) :
    lookup run id ⟨context, session⟩ = (.error (.missingValue id), ⟨context, session⟩) := by
  have current : Eval.context ⟨context, session⟩ = (.ok context, ⟨context, session⟩) := rfl
  unfold lookup
  rw [Step.bind_ok current, unknown]
  dsimp only
  rw [recipe]
  rfl

theorem lookup_run {run : Thunk → Eval Value} {id : NodeId} {thunk : Thunk}
    (unknown : context.value? id = none) (found : context.thunk? id = some thunk)
    (idle : id ∉ context.inProgress) :
    lookup run id ⟨context, session⟩ = run thunk ⟨context, session⟩ := by
  have current : Eval.context ⟨context, session⟩ = (.ok context, ⟨context, session⟩) := rfl
  have acyclic : context.inProgress.contains id = false := by
    rw [← Bool.not_eq_true, Std.TreeSet.contains_iff_mem]
    exact idle
  unfold lookup
  rw [Step.bind_ok current, unknown]
  dsimp only
  rw [found]
  dsimp only
  rw [acyclic]
  rfl

theorem lookup_cycle {context : Context} {session : Session} {run : Thunk → Eval Value}
    {id : NodeId} {thunk : Thunk} (unknown : context.value? id = none)
    (found : context.thunk? id = some thunk) (busy : id ∈ context.inProgress) :
    lookup run id ⟨context, session⟩ = (.error (.cycle id), ⟨context, session⟩) := by
  have current : Eval.context ⟨context, session⟩ = (.ok context, ⟨context, session⟩) := rfl
  unfold lookup
  rw [Step.bind_ok current, unknown]
  dsimp only
  rw [found]
  dsimp only
  rw [if_pos (Std.TreeSet.contains_iff_mem.2 busy)]
  rfl

/-- A node is looked up without effect, or its recipe is run. -/
theorem lookup_cases (run : Thunk → Eval Value) (id : NodeId) (machine : Machine) :
    (lookup run id machine).2 = machine ∨ ∃ thunk, machine.context.value? id = none ∧
      machine.context.thunk? id = some thunk ∧ id ∉ machine.context.inProgress ∧
      lookup run id machine = run thunk machine := by
  cases known : machine.context.value? id with
  | some value => exact .inl (congrArg Prod.snd (lookup_value known))
  | none =>
    cases found : machine.context.thunk? id with
    | none => exact .inl (congrArg Prod.snd (lookup_missing known found))
    | some thunk =>
      by_cases busy : id ∈ machine.context.inProgress
      · exact .inl (congrArg Prod.snd (lookup_cycle known found busy))
      · exact .inr ⟨thunk, rfl, rfl, busy, lookup_run known found busy⟩

/-- An evaluation has no effect, or it follows the recipe of a node one level deeper. -/
theorem evaluateWithin_cases (evaluator : Evaluator) (budget : Nat) (id : NodeId)
    (machine : Machine) : (evaluator.evaluateWithin budget id machine).2 = machine ∨
      ∃ less thunk, budget = less + 1 ∧ machine.context.value? id = none ∧
        machine.context.thunk? id = some thunk ∧ id ∉ machine.context.inProgress ∧
        evaluator.evaluateWithin budget id machine = nested id (do
          let values ← thunk.dependencies.mapM (evaluator.evaluateWithin less)
          Call.follow evaluator.plan evaluator.limits (evaluator.evaluateWithin less) id
            thunk.recipe values) machine := by
  cases budget with
  | zero =>
    rcases lookup_cases _ id machine with nothing | ⟨thunk, -, -, -, ran⟩
    · exact .inl nothing
    · exact .inl (congrArg Prod.snd ran)
  | succ less =>
    rcases lookup_cases _ id machine with nothing | ⟨thunk, unknown, found, idle, ran⟩
    · exact .inl nothing
    · exact .inr ⟨less, thunk, rfl, unknown, found, idle, ran⟩

/-- How an evaluation goes that is nested in another one. -/
theorem nested_eq (id : NodeId) (step : Eval Value) (context : Context) (session : Session) :
    nested id step ⟨context, session⟩ =
      match step ⟨{ context with inProgress := context.inProgress.insert id },
        { session with depth := session.depth + 1 }⟩ with
      | (.ok value, after) => (.ok value,
          ⟨after.context.conclude id value, { after.session with depth := session.depth }⟩)
      | (.error error, after) => (.error error,
          ⟨{ after.context with inProgress := after.context.inProgress.erase id },
            { after.session with depth := session.depth }⟩) := by
  unfold nested
  simp only [bind, ExceptT.bind, ExceptT.mk, StateT.bind, get, getThe, MonadStateOf.get,
    liftM, monadLift, MonadLift.monadLift, ExceptT.lift, StateT.get, StateT.map, Functor.map,
    ExceptT.bindCont, pure, ExceptT.pure, Eval.change, Eval.changeSession, modify,
    modifyGet, MonadStateOf.modifyGet, StateT.modifyGet, Eval.attempt]
  cases step ⟨{ context with inProgress := context.inProgress.insert id },
      { session with depth := session.depth + 1 }⟩ with
  | mk outcome after => cases outcome <;> rfl

theorem nested_ok {id : NodeId} {step : Eval Value} {value : Value} {after : Context}
    (h : step ⟨{ context with inProgress := context.inProgress.insert id },
      { session with depth := session.depth + 1 }⟩ =
        (.ok value, ⟨after, { session with depth := session.depth + 1 }⟩)) :
    nested id step ⟨context, session⟩ =
      (.ok value, ⟨after.conclude id value, session⟩) := by
  rw [nested_eq, h]

/-- Evaluation finds every value that is foreseen. -/
theorem evaluateWithin_foresee (evaluator : Evaluator) {region : List NodeId} {start : Context}
    {level : Nat} {id : NodeId} {value : Value}
    (found : start.foresee region level id = some value)
    (recalls : Context.Recalls region start context)
    -- No node is needed for its own value: those in progress are only foreseen at deeper levels.
    (idle : ∀ other ∈ context.inProgress, start.foresee region level other = none)
    {budget : Nat} (enough : level ≤ budget) (session : Session) :
    ∃ after, evaluator.evaluateWithin budget id ⟨context, session⟩ =
        (.ok value, ⟨after, session⟩) ∧
      Context.Recalls region start after ∧
      (∀ other, other ∈ after.inProgress ↔ other ∈ context.inProgress) ∧
      after.value? id = some value := by
  induction level generalizing id value context budget session with
  | zero =>
    have known := recalls.kept id value found
    refine ⟨context, ?_, recalls, fun _ => Iff.rfl, known⟩
    cases budget <;> exact lookup_value known
  | succ level ih =>
    cases known : context.value? id with
    | some other =>
      obtain ⟨_, foreseen⟩ := recalls.foreseen id other known
      cases Context.foresee_unique found foreseen
      refine ⟨context, ?_, recalls, fun _ => Iff.rfl, known⟩
      cases budget <;> exact lookup_value known
    | none =>
      have lower {other : NodeId} (h : start.foresee region (level + 1) other = none) :
          start.foresee region level other = none := by
        cases earlier : start.foresee region level other with
        | none => rfl
        | some value =>
          rw [Context.foresee_mono (List.Subset.refl region) (Nat.le_succ level) earlier] at h
          cases h
      cases earlier : start.foresee region level id with
      | some other =>
        cases Context.foresee_unique found earlier
        exact ih earlier recalls (fun other mem => lower (idle other mem))
          (Nat.le_of_succ_le enough) session
      | none =>
        rcases Context.foresee_inv found with first | ⟨-, mem, before, thunk, same, recipe, result⟩
        · rw [recalls.kept id value first] at known
          cases known
        cases same
        obtain ⟨budget, rfl⟩ := Nat.exists_eq_add_of_lt (Nat.lt_of_succ_le enough)
        have fresh : id ∉ context.inProgress := by
          intro busy
          rw [idle id busy] at found
          cases found
        have current := recalls.thunk? id
        rw [recipe] at current
        -- While the recipe is followed, the node itself is in progress as well.
        let deeper : Session := { session with depth := session.depth + 1 }
        let keeps (other : Context) : Prop := Context.Recalls region start other ∧
          ∀ node, node ∈ other.inProgress ↔ node = id ∨ node ∈ context.inProgress
        have step (dependency : NodeId) (value : Value)
            (foreseen : start.foresee region level dependency = some value) (middle : Context)
            (kept : keeps middle) :
            ∃ after, evaluator.evaluateWithin (level + budget) dependency ⟨middle, deeper⟩ =
              (.ok value, ⟨after, deeper⟩) ∧ keeps after := by
          have still (other : NodeId) (busy : other ∈ middle.inProgress) :
              start.foresee region level other = none := by
            rcases (kept.2 other).1 busy with rfl | before
            · exact earlier
            · exact lower (idle other before)
          obtain ⟨after, evaluated, keptAfter, progress, -⟩ :=
            ih foreseen kept.1 still (Nat.le_add_right level budget) deeper
          exact ⟨after, evaluated, keptAfter, fun node => (progress node).trans (kept.2 node)⟩
        obtain ⟨after, followed, kept⟩ :=
          Call.follow_result evaluator.plan evaluator.limits result keeps step id
            { context with inProgress := context.inProgress.insert id }
            ⟨{ recalls with }, context.mem_inProgress_insert id⟩
        refine ⟨after.conclude id value, ?_, kept.1.conclude mem found, fun other => ?_, ?_⟩
        · rw [evaluateWithin, lookup_run known current fresh]
          exact nested_ok followed
        · refine (after.mem_inProgress_erase id other).trans ?_
          rw [kept.2]
          constructor
          · rintro ⟨different, same | before⟩
            · exact absurd same different
            · exact before
          · intro before
            refine ⟨?_, .inr before⟩
            rintro rfl
            exact fresh before
        · rw [Context.value?_conclude, if_pos rfl]

/-- An evaluation that may go as deep as the region has nodes finds what is foreseen. -/
theorem evaluateWithin_of_region (evaluator : Evaluator) {region nodes : List NodeId} {level : Nat}
    {id : NodeId} {value : Value} (found : context.foresee region level id = some value)
    (subset : region ⊆ nodes) (idle : ∀ other, other ∉ context.inProgress) {budget : Nat}
    (enough : nodes.length ≤ budget) (session : Session) :
    ∃ after, evaluator.evaluateWithin budget id ⟨context, session⟩ =
        (.ok value, ⟨after, session⟩) ∧
      Context.Recalls region context after ∧ (∀ other, other ∉ after.inProgress) ∧
      after.value? id = some value := by
  obtain ⟨after, evaluated, recalls, progress, kept⟩ :=
    evaluator.evaluateWithin_foresee (Context.foresee_of_region subset found)
      (Context.Recalls.refl region context) (fun other busy => absurd busy (idle other)) enough
      session
  exact ⟨after, evaluated, recalls, fun other => mt (progress other).1 (idle other), kept⟩

end Evaluator

end DeclLang
