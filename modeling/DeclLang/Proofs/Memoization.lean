import DeclLang.Proofs.LazyEvaluation
import DeclLang.Proofs.ThunkGraphs

/-!
# Memoization is transparent

**Input.**  A context in which every thunk computes a function of the values of its dependencies,
and any sequence of queries.

**Invariant.**  `Context.Memoizes`: every value that was kept is the one that depth-first evaluation
finds from nowhere, with it everything is kept that it needs, and the nodes on the path have no
value yet.  So no kept value depends on the path, and it does not matter which path leads to it.

**Results.**
* `Evaluator.observeWithin_gives`: evaluation along a path gives what depth-first evaluation gives,
  keeps the invariant, and no recipe succeeds whose node has a value.
* `Evaluator.memoization_transparent`: after any queries, failed ones included, a query gives what
  it gives on the fresh context.
-/

namespace DeclLang

open Relation (ReflTransGen TransGen)

/-- Following the recipes of the context is computing functions of the values of the
dependencies. -/
def Context.Computes (context : Context) (compute : Materializers) : Prop :=
  ∀ id thunk, context.thunk? id = some thunk → ∀ plan limits evaluate values,
    Call.follow plan limits evaluate id thunk.recipe values = Eval.ofExcept (compute id values)

/-- Any function of the values of the dependencies can be computed. -/
theorem Context.Computes.addThunk {context : Context} {compute : Materializers}
    (computes : context.Computes compute) (id : NodeId) (dependencies : List NodeId) :
    (context.addThunk id { dependencies, recipe := .compute (compute id) }).Computes compute := by
  intro other thunk found plan limits evaluate values
  rw [thunk?_addThunk] at found
  split at found
  · rename_i same
    cases found
    subst same
    rfl
  · exact computes other thunk found plan limits evaluate values

namespace Context

/-- A context that is filled with values, and with thunks for nodes with their dependencies. -/
def ofGraph (compute : Materializers) (values : List (NodeId × Value))
    (thunks : List (NodeId × List NodeId)) : Context :=
  thunks.foldl (fun context entry => context.addThunk entry.1
      { dependencies := entry.2, recipe := .compute (compute entry.1) })
    (values.foldl (fun context entry => context.addValue entry.1 entry.2) {})

variable (compute : Materializers) (values : List (NodeId × Value))
  (thunks : List (NodeId × List NodeId))

/-- It has what the empty context has and what adding to a context keeps. -/
theorem ofGraph_of_add (keeps : Context → Prop) (empty : keeps {})
    (value : ∀ context id value, keeps context → keeps (context.addValue id value))
    (thunk : ∀ context id dependencies, keeps context →
      keeps (context.addThunk id { dependencies, recipe := .compute (compute id) })) :
    keeps (ofGraph compute values thunks) :=
  List.foldlRecOn thunks _
    (List.foldlRecOn values _ empty fun context had _ _ => value context _ _ had)
    fun context had _ _ => thunk context _ _ had

/-- However it is filled, it computes these functions. -/
theorem computes_ofGraph : (ofGraph compute values thunks).Computes compute := by
  refine ofGraph_of_add compute values thunks (·.Computes compute) ?_
    (fun _ _ _ computes => computes) fun _ id dependencies computes =>
      computes.addThunk id dependencies
  intro id thunk found
  rw [Context.thunk?, Std.TreeMap.getElem?_emptyc] at found
  cases found

/-- Nothing in it is being evaluated. -/
theorem idle_ofGraph (id : NodeId) : id ∉ (ofGraph compute values thunks).inProgress :=
  ofGraph_of_add compute values thunks (id ∉ ·.inProgress) Std.TreeSet.not_mem_emptyc
    (fun _ _ _ idle => idle) fun _ _ _ idle => idle

end Context

/-- How often the recipe of a node was counted. -/
def Session.runs (session : Session) (id : NodeId) : Nat :=
  session.tallies[id]?.getD 0

/-- Counts that the recipe of a node has succeeded. -/
def Eval.count (id : NodeId) : Eval Unit :=
  changeSession fun session =>
    { session with tallies := session.tallies.insert id (session.runs id + 1) }

/-- An observer does nothing but count the node that it is told of, if anything. -/
def Eval.Discreet (observe : NodeId → Eval Unit) : Prop :=
  ∀ id context session, ∃ after : Session,
    observe id ⟨context, session⟩ = (.ok (), ⟨context, after⟩) ∧
    ∀ other, after.runs other = session.runs other ∨
      other = id ∧ after.runs other = session.runs other + 1

theorem Eval.discreet_pure : Discreet fun _ => pure () :=
  fun _ _ session => ⟨session, rfl, fun _ => .inl rfl⟩

theorem Eval.discreet_count : Discreet count := by
  refine fun id context session => ⟨_, rfl, fun other => ?_⟩
  unfold Session.runs
  dsimp only
  rw [Std.TreeMap.getElem?_insert]
  by_cases same : other = id
  · subst same
    rw [if_pos (Nat.compare_eq_eq.2 rfl)]
    exact .inr ⟨rfl, rfl⟩
  · rw [if_neg fun equal => same (Nat.compare_eq_eq.1 equal).symm]
    exact .inl rfl

/-- Evaluation with an observer, who is told of every recipe that succeeds. -/
def Evaluator.observeWithin (evaluator : Evaluator) (observe : NodeId → Eval Unit) :
    Nat → NodeId → Eval Value
  | 0, id =>
    lookup (fun _ => do
      throw (.depthExceeded ((← get).session.depth + 1) evaluator.limits.depth)) id
  | budget + 1, id =>
    lookup (fun thunk => nested id do
      let values ← thunk.dependencies.mapM (evaluator.observeWithin observe budget)
      let value ← Call.follow evaluator.plan evaluator.limits
        (evaluator.observeWithin observe budget) id thunk.recipe values
      observe id
      return value) id

/-- Without an observer, this is evaluation. -/
theorem Evaluator.observeWithin_pure (evaluator : Evaluator) (budget : Nat) :
    evaluator.observeWithin (fun _ => pure ()) budget = evaluator.evaluateWithin budget := by
  induction budget with
  | zero => rfl
  | succ budget ih =>
    funext id
    rw [observeWithin, evaluateWithin, ih]
    simp only [pure_bind, bind_pure]

/-- The context has kept only values that depth-first evaluation of the other context finds, with
all that they need.  The nodes on the path are being evaluated. -/
structure Context.Memoizes (start : Context) (compute : Materializers) (path : List NodeId)
    (context : Context) : Prop where
  thunks : context.thunks = start.thunks
  kept : ∀ id value, start.value? id = some value → context.value? id = some value
  right : ∀ id value, context.value? id = some value →
    start.depthFirst compute [] id = .ok value
  closed : ∀ id other, start.Needs id other → (context.value? id).isSome →
    (context.value? other).isSome
  progress : ∀ id, id ∈ context.inProgress ↔ id ∈ path
  waiting : ∀ id ∈ path, context.value? id = none ∧ (start.thunk? id).isSome

namespace Context.Memoizes

variable {start context : Context} {compute : Materializers} {path : List NodeId}

theorem fresh (idle : ∀ id, id ∉ start.inProgress) : start.Memoizes compute [] start where
  thunks := rfl
  kept _ _ known := known
  right _ _ known := depthFirst_value known
  closed id other needs known := by
    rw [needs.1] at known
    cases known
  progress id := iff_of_false (idle id) List.not_mem_nil
  waiting _ mem := absurd mem List.not_mem_nil

section

variable (memoizes : start.Memoizes compute path context)

include memoizes

theorem thunk? (id : NodeId) : context.thunk? id = start.thunk? id := by
  unfold Context.thunk?
  rw [memoizes.thunks]

theorem unknown {id : NodeId} (unknown : context.value? id = none) : start.value? id = none := by
  cases known : start.value? id with
  | none => rfl
  | some value =>
    rw [memoizes.kept id value known] at unknown
    cases unknown

theorem isSome_of_needs {id other : NodeId} (needs : ReflTransGen start.Needs id other)
    (known : (context.value? id).isSome) : (context.value? other).isSome := by
  induction needs with
  | refl => exact known
  | tail _ last ih => exact memoizes.closed _ _ last ih

/-- A value that was kept does not depend on the path. -/
theorem depthFirst_eq {id : NodeId} {value : Value} (known : context.value? id = some value) :
    start.depthFirst compute path id = .ok value := by
  rw [← memoizes.right id value known]
  refine depthFirst_congr fun node reached => iff_of_false (fun on => ?_) List.not_mem_nil
  have needed := memoizes.isSome_of_needs reached (by rw [known]; rfl)
  rw [(memoizes.waiting node on).1] at needed
  cases needed

/-- The path is no longer than there are thunks. -/
theorem length_lt {id : NodeId} {thunk : Thunk} (nodup : path.Nodup)
    (found : context.thunk? id = some thunk) (off : id ∉ path) :
    path.length < start.thunks.size := by
  rw [memoizes.thunk?] at found
  have longer : (id :: path).length ≤ start.thunks.keys.length := by
    refine List.Nodup.length_le_of_subset (List.nodup_cons.2 ⟨off, nodup⟩) fun node mem => ?_
    rcases List.mem_cons.1 mem with rfl | on
    · exact mem_keys found
    · obtain ⟨other, here⟩ := Option.isSome_iff_exists.1 (memoizes.waiting node on).2
      exact mem_keys here
  rwa [Std.TreeMap.length_keys] at longer

/-- A further node is being evaluated. -/
theorem enter {id : NodeId} {thunk : Thunk} (unknown : context.value? id = none)
    (found : context.thunk? id = some thunk) :
    start.Memoizes compute (id :: path)
      { context with inProgress := context.inProgress.insert id } where
  thunks := memoizes.thunks
  kept := memoizes.kept
  right := memoizes.right
  closed := memoizes.closed
  progress node := by
    rw [context.mem_inProgress_insert, memoizes.progress, List.mem_cons]
  waiting node on := by
    rcases List.mem_cons.1 on with rfl | on
    · exact ⟨unknown, by rw [← memoizes.thunk?, found]; rfl⟩
    · exact memoizes.waiting node on

end

section

variable {id : NodeId} (off : id ∉ path) (memoizes : start.Memoizes compute (id :: path) context)

include off memoizes

theorem mem_erase (node : NodeId) : node ∈ context.inProgress.erase id ↔ node ∈ path := by
  rw [context.mem_inProgress_erase, memoizes.progress, List.mem_cons]
  constructor
  · rintro ⟨different, same | on⟩
    · exact absurd same different
    · exact on
  · intro on
    refine ⟨?_, .inr on⟩
    rintro rfl
    exact off on

/-- The evaluation of the last node on the path has failed. -/
theorem leave : start.Memoizes compute path
    { context with inProgress := context.inProgress.erase id } where
  thunks := memoizes.thunks
  kept := memoizes.kept
  right := memoizes.right
  closed := memoizes.closed
  progress := memoizes.mem_erase off
  waiting node on := memoizes.waiting node (List.mem_cons_of_mem _ on)

/-- The evaluation of the last node on the path has come to a value. -/
theorem conclude {value : Value} (found : start.depthFirst compute path id = .ok value)
    (dependencies : ∀ other, start.Needs id other → (context.value? other).isSome) :
    start.Memoizes compute path (context.conclude id value) where
  thunks := memoizes.thunks
  kept node other known := by
    rw [value?_conclude]
    split
    · rename_i same
      have waits := (memoizes.waiting id List.mem_cons_self).1
      rw [← same, memoizes.kept node other known] at waits
      cases waits
    · exact memoizes.kept node other known
  right node other known := by
    rw [value?_conclude] at known
    split at known
    · rename_i same
      cases known
      rw [same]
      exact depthFirst_subset (List.nil_subset path) found
    · exact memoizes.right node other known
  closed node other needs known := by
    rw [value?_conclude] at known ⊢
    split
    · rfl
    · split at known
      · rename_i same
        subst same
        exact dependencies other needs
      · exact memoizes.closed node other needs known
  progress := memoizes.mem_erase off
  waiting node on := by
    have different : node ≠ id := by
      rintro rfl
      exact off on
    rw [value?_conclude, if_neg different]
    exact memoizes.waiting node (List.mem_cons_of_mem _ on)

end

end Context.Memoizes

/-- What an evaluation along a path does to a machine: values are only kept, and the recipe of a
node succeeds at most once, and only if it gives the node its first value. -/
structure Machine.Proceeds (start : Context) (compute : Materializers) (path : List NodeId)
    (machine after : Machine) : Prop where
  memoizes : start.Memoizes compute path after.context
  kept : ∀ id value, machine.context.value? id = some value →
    after.context.value? id = some value
  once : ∀ id, after.session.runs id = machine.session.runs id ∨
    after.session.runs id = machine.session.runs id + 1 ∧
      machine.context.value? id = none ∧ (after.context.value? id).isSome

namespace Machine.Proceeds

variable {start : Context} {compute : Materializers} {path : List NodeId}
  {machine middle after : Machine}

theorem refl (memoizes : start.Memoizes compute path machine.context) :
    machine.Proceeds start compute path machine :=
  ⟨memoizes, fun _ _ known => known, fun _ => .inl rfl⟩

theorem isSome (proceeds : machine.Proceeds start compute path after) {id : NodeId}
    (known : (machine.context.value? id).isSome) : (after.context.value? id).isSome := by
  obtain ⟨value, known⟩ := Option.isSome_iff_exists.1 known
  rw [proceeds.kept id value known]
  rfl

theorem trans (first : machine.Proceeds start compute path middle)
    (second : middle.Proceeds start compute path after) :
    machine.Proceeds start compute path after where
  memoizes := second.memoizes
  kept id value known := second.kept id value (first.kept id value known)
  once id := by
    rcases first.once id with same | ⟨counted, unknown, known⟩ <;>
      rcases second.once id with again | ⟨countedAgain, unknownStill, knownThen⟩
    · exact .inl (again.trans same)
    · refine .inr ⟨countedAgain.trans (congrArg (· + 1) same), ?_, knownThen⟩
      cases before : machine.context.value? id with
      | none => rfl
      | some value =>
        rw [first.kept id value before] at unknownStill
        cases unknownStill
    · exact .inr ⟨again.trans counted, unknown, second.isSome known⟩
    · rw [unknownStill] at known
      cases known

end Machine.Proceeds

/-- The machine after several nodes were evaluated, whether this succeeded or not. -/
def Machine.asked (machine : Machine) (evaluate : NodeId → Eval Value) (queries : List NodeId) :
    Machine :=
  queries.foldl (fun machine id => (evaluate id machine).2) machine

/-- An evaluation along a path gives what depth-first evaluation gives, and keeps its value. -/
structure Machine.Gives (start : Context) (compute : Materializers) (path : List NodeId)
    (id : NodeId) (machine : Machine) (result : Except EvalError Value × Machine) : Prop where
  outcome : result.1 = start.depthFirst compute path id
  proceeds : machine.Proceeds start compute path result.2
  keeps : ∀ value, result.1 = .ok value → result.2.context.value? id = some value

section

variable {start : Context} {compute : Materializers} {path : List NodeId}

/-- So does an evaluation of several nodes, one after the other. -/
theorem mapM_gives {evaluate : NodeId → Eval Value}
    (each : ∀ (id : NodeId) (machine : Machine),
      start.Memoizes compute path machine.context →
        machine.Gives start compute path id (evaluate id machine))
    (ids : List NodeId) (machine : Machine)
    (memoizes : start.Memoizes compute path machine.context) :
    (ids.mapM evaluate machine).1 = ids.mapM (start.depthFirst compute path) ∧
      machine.Proceeds start compute path (ids.mapM evaluate machine).2 ∧
      ∀ values, (ids.mapM evaluate machine).1 = .ok values →
        ∀ id ∈ ids, ((ids.mapM evaluate machine).2.context.value? id).isSome := by
  induction ids generalizing machine with
  | nil => exact ⟨rfl, .refl memoizes, fun _ _ _ mem => absurd mem List.not_mem_nil⟩
  | cons id ids ih =>
    obtain ⟨outcome, proceeds, keeps⟩ := each id machine memoizes
    rw [List.mapM_cons, List.mapM_cons]
    generalize ran : evaluate id machine = result at outcome proceeds keeps
    obtain ⟨_ | value, middle⟩ := result
    · rw [Step.bind_error ran, ← outcome]
      exact ⟨rfl, proceeds, nofun⟩
    · obtain ⟨outcomes, goesOn, keepsAll⟩ := ih middle proceeds.memoizes
      rw [Step.bind_ok ran, ← outcome]
      generalize rest : ids.mapM evaluate middle = result at outcomes goesOn keepsAll
      obtain ⟨_ | values, after⟩ := result
      · rw [Step.bind_error rest, show (Except.ok value >>= _) = _ from rfl, ← outcomes]
        exact ⟨rfl, proceeds.trans goesOn, nofun⟩
      · rw [Step.bind_ok rest, show (Except.ok value >>= _) = _ from rfl, ← outcomes]
        refine ⟨rfl, proceeds.trans goesOn, fun _ _ other mem => ?_⟩
        rcases List.mem_cons.1 mem with rfl | mem
        · exact goesOn.isSome (by rw [keeps value rfl]; rfl)
        · exact keepsAll values rfl other mem

end

namespace Evaluator

section Observed

variable {start : Context} {compute : Materializers} (computes : start.Computes compute)
  {observe : NodeId → Eval Unit} (discreet : Eval.Discreet observe) {path : List NodeId}
  {id : NodeId} {thunk : Thunk} {context : Context} {session : Session}

/-- The context while a node is being evaluated. -/
def entered (context : Context) (id : NodeId) : Context :=
  { context with inProgress := context.inProgress.insert id }

/-- The session one level deeper. -/
def deeper (session : Session) : Session :=
  { session with depth := session.depth + 1 }

/-- A nested evaluation that fails leaves no trace of the node. -/
theorem proceeds_leave (off : id ∉ path) {middle : Context} {later : Session}
    (proceeds : Machine.Proceeds start compute (id :: path) ⟨entered context id, deeper session⟩
      ⟨middle, later⟩) :
    Machine.Proceeds start compute path ⟨context, session⟩
      ⟨{ middle with inProgress := middle.inProgress.erase id },
        { later with depth := session.depth }⟩ where
  memoizes := proceeds.memoizes.leave off
  kept := proceeds.kept
  once := proceeds.once

/-- A nested evaluation that comes to a value keeps it, and its recipe had not been counted. -/
theorem proceeds_conclude (off : id ∉ path) (unknown : context.value? id = none)
    {middle : Context} {later counted : Session}
    (proceeds : Machine.Proceeds start compute (id :: path) ⟨entered context id, deeper session⟩
      ⟨middle, later⟩)
    (counts : ∀ other, counted.runs other = later.runs other ∨
      other = id ∧ counted.runs other = later.runs other + 1)
    {value : Value} (gives : start.depthFirst compute path id = .ok value)
    (dependencies : ∀ other, start.Needs id other → (middle.value? other).isSome) :
    Machine.Proceeds start compute path ⟨context, session⟩
      ⟨middle.conclude id value, { counted with depth := session.depth }⟩ where
  memoizes := proceeds.memoizes.conclude off gives dependencies
  kept other own known := by
    have different : other ≠ id := by
      rintro rfl
      rw [show context.value? other = some own from known] at unknown
      cases unknown
    rw [Context.value?_conclude, if_neg different]
    exact proceeds.kept other own known
  once other := by
    have runs : counted.runs other = (⟨middle.conclude id value,
      { counted with depth := session.depth }⟩ : Machine).session.runs other := rfl
    have before := proceeds.once other
    have waits := (proceeds.memoizes.waiting id List.mem_cons_self).1
    rw [← runs, Context.value?_conclude]
    by_cases same : other = id
    · subst same
      rw [if_pos rfl]
      -- The node has no value yet, so its recipe was not counted on the way.
      have idle : later.runs other = session.runs other := by
        rcases before with idle | ⟨-, -, known⟩
        · exact idle
        · rw [waits] at known
          cases known
      rcases counts other with still | ⟨-, more⟩
      · exact .inl (still.trans idle)
      · exact .inr ⟨more.trans (congrArg (· + 1) idle), unknown, rfl⟩
    · rw [if_neg same]
      rcases counts other with still | ⟨equal, -⟩
      · rw [still]
        exact before
      · exact absurd equal same

theorem nested_concludes {step : Eval Value} {value : Value} {middle : Context} {later : Session}
    (ran : step ⟨entered context id, deeper session⟩ = (.ok value, ⟨middle, later⟩)) :
    nested id step ⟨context, session⟩ =
      (.ok value, ⟨middle.conclude id value, { later with depth := session.depth }⟩) := by
  unfold entered deeper at ran
  rw [nested_eq, ran]

theorem nested_leaves {step : Eval Value} {error : EvalError} {middle : Context} {later : Session}
    (ran : step ⟨entered context id, deeper session⟩ = (.error error, ⟨middle, later⟩)) :
    nested id step ⟨context, session⟩ =
      (.error error, ⟨{ middle with inProgress := middle.inProgress.erase id },
        { later with depth := session.depth }⟩) := by
  unfold entered deeper at ran
  rw [nested_eq, ran]

include computes discreet in
/-- A nested evaluation gives what depth-first evaluation gives if those of its dependencies do. -/
theorem nested_gives {evaluate : NodeId → Eval Value}
    (each : ∀ (other : NodeId) (machine : Machine),
      start.Memoizes compute (id :: path) machine.context →
        machine.Gives start compute (id :: path) other (evaluate other machine))
    (plan : Plan) (limits : Limits) (memoizes : start.Memoizes compute path context)
    (unknown : context.value? id = none) (found : context.thunk? id = some thunk)
    (off : id ∉ path) :
    Machine.Gives start compute path id ⟨context, session⟩
      (nested id (do
        let values ← thunk.dependencies.mapM evaluate
        let value ← Call.follow plan limits evaluate id thunk.recipe values
        observe id
        return value) ⟨context, session⟩) := by
  have recipe : start.thunk? id = some thunk := (memoizes.thunk? id).symm.trans found
  have walk : start.depthFirst compute path id =
      (thunk.dependencies.mapM (start.depthFirst compute (id :: path)) >>= compute id) :=
    Context.depthFirst_run (memoizes.unknown unknown) recipe off
  obtain ⟨outcomes, proceeds, known⟩ := mapM_gives each thunk.dependencies
    ⟨entered context id, deeper session⟩ (memoizes.enter unknown found)
  rw [← outcomes] at walk
  generalize ran : thunk.dependencies.mapM evaluate ⟨entered context id, deeper session⟩ =
    result at outcomes proceeds known walk
  obtain ⟨error | values, ⟨middle, later⟩⟩ := result
  · rw [nested_leaves (Step.bind_error ran)]
    exact ⟨walk.symm, proceeds_leave off proceeds, nofun⟩
  · cases computed : compute id values with
    | error error =>
      have fails : Call.follow plan limits evaluate id thunk.recipe values ⟨middle, later⟩ =
          (.error error, ⟨middle, later⟩) := by
        rw [computes id thunk recipe, computed]
        rfl
      rw [nested_leaves ((Step.bind_ok ran).trans (Step.bind_error fails))]
      exact ⟨(walk.trans computed).symm, proceeds_leave off proceeds, nofun⟩
    | ok value =>
      have succeeds : Call.follow plan limits evaluate id thunk.recipe values ⟨middle, later⟩ =
          (.ok value, ⟨middle, later⟩) := by
        rw [computes id thunk recipe, computed]
        rfl
      obtain ⟨counted, observed, counts⟩ := discreet id middle later
      have gives := walk.trans computed
      rw [nested_concludes ((Step.bind_ok ran).trans
        ((Step.bind_ok succeeds).trans (Step.bind_ok observed)))]
      refine ⟨gives.symm, proceeds_conclude off unknown proceeds counts gives
        fun other needs => ?_, fun other same => ?_⟩
      · obtain ⟨-, again, same, mem⟩ := needs
        rw [recipe] at same
        cases same
        exact known values rfl other mem
      · cases same
        exact (Context.value?_conclude middle id value id).trans (if_pos rfl)

/-- Looking a node up gives what depth-first evaluation gives if running its thunk does. -/
theorem lookup_gives {run : Thunk → Eval Value}
    (memoizes : start.Memoizes compute path context)
    (runs : ∀ thunk, context.value? id = none → context.thunk? id = some thunk → id ∉ path →
      Machine.Gives start compute path id ⟨context, session⟩ (run thunk ⟨context, session⟩)) :
    Machine.Gives start compute path id ⟨context, session⟩ (lookup run id ⟨context, session⟩) := by
  cases unknown : context.value? id with
  | some value =>
    rw [lookup_value unknown]
    refine ⟨(memoizes.depthFirst_eq unknown).symm, .refl memoizes, fun other same => ?_⟩
    cases same
    exact unknown
  | none =>
    have unknownStart := memoizes.unknown unknown
    cases found : context.thunk? id with
    | none =>
      rw [lookup_missing unknown found]
      rw [memoizes.thunk?] at found
      exact ⟨(Context.depthFirst_missing unknownStart found).symm, .refl memoizes, nofun⟩
    | some thunk =>
      by_cases on : id ∈ path
      · rw [lookup_cycle unknown found ((memoizes.progress id).2 on)]
        rw [memoizes.thunk?] at found
        exact ⟨(Context.depthFirst_cycle unknownStart found on).symm, .refl memoizes, nofun⟩
      · rw [lookup_run unknown found (mt (memoizes.progress id).1 on)]
        exact runs thunk unknown found on

include computes discreet in
/-- Evaluation along a path gives what depth-first evaluation gives, if it may be nested as deep as
there are thunks. -/
theorem observeWithin_gives (evaluator : Evaluator) {budget : Nat} (nodup : path.Nodup)
    (enough : start.thunks.size ≤ path.length + budget) (machine : Machine)
    (memoizes : start.Memoizes compute path machine.context) :
    machine.Gives start compute path id (evaluator.observeWithin observe budget id machine) := by
  induction budget generalizing path id machine with
  | zero =>
    refine lookup_gives memoizes fun thunk unknown found off => ?_
    have shorter := memoizes.length_lt nodup found off
    omega
  | succ budget ih =>
    refine lookup_gives memoizes fun thunk unknown found off => ?_
    have nodupLonger : (id :: path).Nodup := List.nodup_cons.2 ⟨off, nodup⟩
    have enoughLonger : start.thunks.size ≤ (id :: path).length + budget := by
      rw [List.length_cons]
      omega
    exact nested_gives computes discreet
      (fun other machine memoizes => ih nodupLonger enoughLonger machine memoizes)
      evaluator.plan evaluator.limits memoizes unknown found off

end Observed

/-- Evaluates a node, and counts the recipes that succeed. -/
def evaluateCounting (evaluator : Evaluator) (id : NodeId) : Eval Value :=
  evaluator.observeWithin Eval.count evaluator.limits.depth id

section Queries

variable {start : Context} {compute : Materializers} (computes : start.Computes compute)
  {observe : NodeId → Eval Unit} (discreet : Eval.Discreet observe) (evaluator : Evaluator)
  (deep : start.thunks.size ≤ evaluator.limits.depth)

include computes discreet deep

/-- A query gives what depth-first evaluation gives. -/
theorem query_gives (id : NodeId) {machine : Machine}
    (memoizes : start.Memoizes compute [] machine.context) :
    machine.Gives start compute [] id
      (evaluator.observeWithin observe evaluator.limits.depth id machine) :=
  observeWithin_gives computes discreet evaluator List.nodup_nil
    (deep.trans (Nat.zero_add _).ge) machine memoizes

/-- Any queries keep the invariant. -/
theorem asked_proceeds (queries : List NodeId) {machine : Machine}
    (memoizes : start.Memoizes compute [] machine.context) :
    machine.Proceeds start compute []
      (machine.asked (evaluator.observeWithin observe evaluator.limits.depth) queries) := by
  induction queries generalizing machine with
  | nil => exact .refl memoizes
  | cons id queries ih =>
    have first := (query_gives computes discreet evaluator deep id memoizes).proceeds
    exact first.trans (ih first.memoizes)

end Queries

/-- In a context of thunks that compute functions of the values of their dependencies, memoization
cannot be seen: after any queries a query gives what it gives on the fresh context, which is what
depth-first evaluation gives. -/
theorem memoization_transparent {start : Context} {compute : Materializers}
    (computes : start.Computes compute) (idle : ∀ id, id ∉ start.inProgress)
    (evaluator : Evaluator) (deep : start.thunks.size ≤ evaluator.limits.depth)
    (session : Session) (queries : List NodeId) (id : NodeId) :
    let fresh : Machine := ⟨start, session⟩
    let later := fresh.asked evaluator.evaluate queries
    let counted := fresh.asked evaluator.evaluateCounting queries
    let outcome := (evaluator.evaluate id later).1
    outcome = (evaluator.evaluate id fresh).1 ∧
    outcome = start.depthFirst compute [] id ∧
    -- A query that succeeds needs only what is defined and does not need itself, and keeps it all.
    (∀ value, outcome = .ok value → start.Grounded id ∧
      ∀ other, ReflTransGen start.Needs id other →
        ((evaluator.evaluate id later).2.context.value? other).isSome) ∧
    -- There plain recursion has a solution, and every solution gives the outcome.
    (start.Grounded id →
      (∃ plain, ∀ other, ReflTransGen start.Needs id other →
        plain other = start.recursion compute plain other) ∧
      ∀ plain, (∀ other, ReflTransGen start.Needs id other →
        plain other = start.recursion compute plain other) → outcome = plain id) ∧
    (∀ error, outcome = .error error → start.Failure compute id error) ∧
    -- Counting changes no outcome, and counts every recipe at most once.
    (evaluator.evaluateCounting id counted).1 = outcome ∧
    ∀ other, counted.session.runs other ≤ session.runs other + 1 := by
  intro fresh later counted outcome
  have plain : evaluator.evaluate =
      evaluator.observeWithin (fun _ => pure ()) evaluator.limits.depth := by
    rw [observeWithin_pure]
    rfl
  have new : start.Memoizes compute [] fresh.context := .fresh idle
  have asked : fresh.Proceeds start compute [] later := by
    unfold later
    rw [plain]
    exact asked_proceeds computes Eval.discreet_pure evaluator deep queries new
  have counts : fresh.Proceeds start compute [] counted :=
    asked_proceeds computes Eval.discreet_count evaluator deep queries new
  have gives (machine : Machine) (memoizes : start.Memoizes compute [] machine.context) :
      machine.Gives start compute [] id (evaluator.evaluate id machine) := by
    rw [plain]
    exact query_gives computes Eval.discreet_pure evaluator deep id memoizes
  have last := gives later asked.memoizes
  have same : outcome = start.depthFirst compute [] id := last.outcome
  refine ⟨same.trans (gives fresh new).outcome.symm, same, fun value succeeds => ?_,
    fun grounded => ⟨⟨start.depthFirst compute [], fun other needed => ?_⟩,
      fun solution solves => ?_⟩, fun error fails => ?_, ?_, fun other => ?_⟩
  · refine ⟨Context.grounded_of_depthFirst (same.symm.trans succeeds), fun other needed => ?_⟩
    refine last.proceeds.memoizes.isSome_of_needs needed ?_
    rw [last.keeps value succeeds]
    rfl
  · exact Context.depthFirst_recursion (grounded.acyclic other needed)
  · exact same.trans (Context.depthFirst_eq_of_recursion grounded.acyclic solves
      fun other mem => absurd mem List.not_mem_nil)
  · exact Context.failure_of_depthFirst (fun other mem => absurd mem List.not_mem_nil)
      (same.symm.trans fails)
  · exact (query_gives computes Eval.discreet_count evaluator deep id counts.memoizes).outcome.trans
      same.symm
  · rcases counts.once other with still | ⟨once, -⟩
    · exact still.le.trans (Nat.le_succ _)
    · exact once.le

/-- The conjunction of the values of the dependencies, but the sixth node always fails. -/
def conjunctions : Materializers := fun id values =>
  if id = 6 then .error .divisionByZero
  else .ok (.boolean (values.all fun value => value.boolean? == some true))

/-- Two nodes that share what they need, a cycle, a node that needs an undefined one, and a node
that fails. -/
def sharedGraph : Context :=
  .ofGraph conjunctions [(0, .boolean true)]
    [(1, [0, 0]), (2, [1, 0, 1]), (3, [4]), (4, [3]), (5, [1, 9]), (6, [2])]

/-- After a cycle, a missing value and a failure, the shared nodes are evaluated as if nothing had
happened. -/
theorem memoization_transparent_sharedGraph :
    let evaluator : Evaluator := {}
    let fresh : Machine := ⟨sharedGraph, {}⟩
    let later := fresh.asked evaluator.evaluate [4, 5, 6]
    sharedGraph.Computes conjunctions ∧ (∀ id, id ∉ sharedGraph.inProgress) ∧
    sharedGraph.thunks.size ≤ evaluator.limits.depth ∧
    [4, 5, 6].map (fun id => (evaluator.evaluate id fresh).1.isOk) = [false, false, false] ∧
    ∃ value, (evaluator.evaluate 2 fresh).1 = .ok value ∧ value.boolean? = some true ∧
      (evaluator.evaluate 2 later).1 = .ok value ∧
      sharedGraph.depthFirst conjunctions [] 2 = .ok value ∧ sharedGraph.Grounded 2 := by
  intro evaluator fresh later
  have computes : sharedGraph.Computes conjunctions := Context.computes_ofGraph _ _ _
  have idle : ∀ id, id ∉ sharedGraph.inProgress := Context.idle_ofGraph _ _ _
  have deep : sharedGraph.thunks.size ≤ evaluator.limits.depth := by decide +kernel
  have failed : [4, 5, 6].map (fun id => (evaluator.evaluate id fresh).1.isOk) =
      [false, false, false] := by
    decide +kernel
  have checked : (evaluator.evaluate 2 fresh).1.toOption.bind Value.boolean? = some true := by
    decide +kernel
  obtain ⟨value, found, holds⟩ := Step.ok_of_toOption checked
  have first : (evaluator.evaluate 2 fresh).1 = .ok value := congrArg Prod.fst found
  obtain ⟨same, walk, keeps, -⟩ :=
    memoization_transparent computes idle evaluator deep {} [4, 5, 6] 2
  have again := same.trans first
  exact ⟨computes, idle, deep, failed, value, first, holds, again, walk.symm.trans again,
    (keeps value again).1⟩

end Evaluator

end DeclLang
