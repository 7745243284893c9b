import DeclLang.Proofs.Exploration
import DeclLang.Proofs.EvaluationInvariants
import DeclLang.Proofs.IntactContexts
import DeclLang.Proofs.LazyEvaluation

/-!
# Evaluation of data, with memory

**Input.**  A compiled program with a region of data, any queries to it, and a node of the region.

**Invariant.**  `Context.Retains`: the context has the recipes of the region, and what it keeps for
nodes of the region can be derived.

**Results.**
* `Evaluator.evaluateWithin_explores`: evaluating a node of the region has the outcome of a walk
  that keeps no value, unless evaluations are nested too deeply.
* `Compilation.evaluate_after`: this is so whatever the program was asked for before.
-/

namespace DeclLang

open Step (Keeps Ensures)

namespace EvalError

/-- Evaluations were nested too deeply. -/
def IsDepth : EvalError → Prop
  | depthExceeded .. => True
  | _ => False

end EvalError

/-- A step comes to an outcome, or evaluations are nested too deeply where that may be; it keeps a
property of the context either way. -/
def Eval.Yields {α : Type} (deep : Prop) (keeps : Context → Prop) (step : Eval α)
    (outcome : Except EvalError α) : Prop :=
  ∀ machine : Machine, keeps machine.context → keeps (step machine).2.context ∧
    ((step machine).1 = outcome ∨
      deep ∧ ∃ error, (step machine).1 = .error error ∧ error.IsDepth)

namespace Eval

variable {α β : Type} {deep : Prop} {keeps : Context → Prop}

theorem Yields.bind {step : Eval α} {next : α → Eval β} {first : Except EvalError α}
    {outcome : Except EvalError β} (h : Yields deep keeps step first)
    (fails : ∀ error, first = .error error → outcome = .error error)
    (rest : ∀ a, first = .ok a → Yields deep keeps (next a) outcome) :
    Yields deep keeps (step >>= next) outcome := by
  intro machine kept
  obtain ⟨keptFirst, ends⟩ := h machine kept
  cases ran : step machine with
  | mk result middle =>
    rw [ran] at keptFirst ends
    cases result with
    | error error =>
      rw [Step.bind_error ran]
      refine ⟨keptFirst, ends.imp (fun same => ?_) fun ⟨may, other, same, isDepth⟩ => ?_⟩
      · exact (fails error same.symm).symm
      · cases same
        exact ⟨may, error, rfl, isDepth⟩
    | ok a =>
      rw [Step.bind_ok ran]
      rcases ends with same | ⟨-, error, same, -⟩
      · exact rest a same.symm middle keptFirst
      · cases same

end Eval

/-- An inquiry is carried out to the outcome that is foretold, if evaluation comes to the outcomes
for the nodes that it asks for. -/
theorem Inquiry.perform_yields {knows : NodeId → Value → Prop} {deep : Prop}
    {keeps : Context → Prop}
    {evaluate : NodeId → Eval Value} {find : NodeId → Except EvalError Value} (plan : Plan)
    (limits : Limits) (id : NodeId) {inquiry : Inquiry} (inert : inquiry.Inert)
    (known : ∀ source value, inquiry.Asks knows source → find source = .ok value →
      knows source value ∧ value.inert = true)
    (each : ∀ source, inquiry.Asks knows source →
      Eval.Yields deep keeps (evaluate source) (find source)) :
    Eval.Yields deep keeps (inquiry.perform plan limits evaluate id) (inquiry.outcome find) := by
  induction inquiry with
  | answer result =>
    intro machine kept
    cases result <;> exact ⟨kept, .inl rfl⟩
  | call callee arguments result =>
    intro machine kept
    obtain ⟨outcome, context⟩ :=
      Call.callValue_native plan limits evaluate id inert.1 arguments result machine
    refine ⟨?_, .inl outcome⟩
    rw [perform, context]
    exact kept
  | ask source next ih =>
    refine (each source .first).bind (fun error failed => ?_) fun value found => ?_
    · rw [outcome, failed]
    · obtain ⟨knows, whole⟩ := known source value .first found
      rw [outcome, found]
      exact ih value (inert value whole)
        (fun other answer asks => known other answer (.later knows asks))
        fun other asks => each other (.later knows asks)

namespace Context

/-- The context differs from `start` on the region only in that it has kept values that can be
derived. -/
structure Retains (region : List NodeId) (start context : Context) : Prop where
  recipes : ∀ id ∈ region, context.thunk? id = start.thunk? id
  kept : ∀ id ∈ region, ∀ value, start.value? id = some value → context.value? id = some value
  derived : ∀ id ∈ region, ∀ value, context.value? id = some value → start.Derives id value

theorem Retains.refl (region : List NodeId) (start : Context) : start.Retains region start where
  recipes _ _ := rfl
  kept _ _ _ known := known
  derived _ _ _ known := ⟨0, known⟩

section

variable {region : List NodeId} {start context : Context}

theorem Retains.progress (retains : start.Retains region context)
    (inProgress : Std.TreeSet NodeId) : start.Retains region { context with inProgress } where
  recipes := retains.recipes
  kept := retains.kept
  derived := retains.derived

theorem Retains.addValue (retains : start.Retains region context) {id : NodeId} {value : Value}
    (derives : id ∈ region → start.Derives id value) :
    start.Retains region (context.addValue id value) where
  recipes := retains.recipes
  kept other mem before known := by
    rw [value?_addValue]
    split
    · rename_i same
      subst same
      rw [(derives mem).unique ⟨0, known⟩]
    · exact retains.kept other mem before known
  derived other mem after known := by
    rw [value?_addValue] at known
    split at known
    · rename_i same
      subst same
      cases known
      exact derives mem
    · exact retains.derived other mem after known

variable (region start) in
/-- On the region, the nodes on a path are in progress; nothing else about it has changed. -/
def Along (path : List NodeId) (context : Context) : Prop :=
  start.Retains region context ∧ ∀ id ∈ region, id ∈ context.inProgress ↔ id ∈ path

end

end Context

namespace Evaluator

variable {region : List NodeId} {start : Context}

/-- One level deeper, the node is on the path; its value is kept. -/
theorem nested_yields {id : NodeId} {path : List NodeId} (new : id ∉ path) {step : Eval Value}
    {deep : Prop} {outcome : Except EvalError Value}
    (derives : ∀ value, outcome = .ok value → start.Derives id value)
    (h : Eval.Yields deep (start.Along region (id :: path)) step outcome) :
    Eval.Yields deep (start.Along region path) (nested id step) outcome := by
  rintro ⟨context, session⟩ ⟨retains, progress⟩
  have entered : start.Along region (id :: path)
      { context with inProgress := context.inProgress.insert id } := by
    refine ⟨retains.progress _, fun other mem => ?_⟩
    rw [List.mem_cons, ← progress other mem]
    exact context.mem_inProgress_insert id other
  have left {after : Context} (along : start.Along region (id :: path) after) :
      ∀ other ∈ region, other ∈ after.inProgress.erase id ↔ other ∈ path := by
    intro other mem
    rw [after.mem_inProgress_erase, along.2 other mem, List.mem_cons]
    constructor
    · rintro ⟨different, same | before⟩
      · exact absurd same different
      · exact before
    · intro before
      refine ⟨?_, .inr before⟩
      rintro rfl
      exact new before
  obtain ⟨along, ends⟩ :=
    h ⟨{ context with inProgress := context.inProgress.insert id },
      { session with depth := session.depth + 1 }⟩ entered
  rw [nested_eq]
  cases ran : step ⟨{ context with inProgress := context.inProgress.insert id },
      { session with depth := session.depth + 1 }⟩ with
  | mk result after =>
    rw [ran] at along ends
    cases result with
    | error error => exact ⟨⟨along.1.progress _, left along⟩, ends⟩
    | ok value =>
      refine ⟨⟨(along.1.progress _).addValue fun _ => derives value ?_, left along⟩, ends⟩
      rcases ends with same | ⟨-, error, same, -⟩
      · exact same.symm
      · cases same

section

variable (data : start.Data region) {id : NodeId} (mem : id ∈ region) {path : List NodeId}
  (nodup : path.Nodup) (subset : path ⊆ region) (await : start.Await path id) {length : Nat}
  (enough : region.length ≤ length + path.length)

include data mem nodup subset await enough

/-- Looking a node up has the outcome of a walk, if running its thunk has. -/
theorem lookup_explores {deep : Prop} {run : Thunk → Eval Value}
    (h : ∀ thunk, start.value? id = none → start.thunk? id = some thunk → id ∉ path →
      Eval.Yields deep (start.Along region path) (run thunk) (start.explore length path id)) :
    Eval.Yields deep (start.Along region path) (lookup run id)
      (start.explore length path id) := by
  rintro ⟨context, session⟩ ⟨retains, progress⟩
  have current : Eval.context ⟨context, session⟩ = (.ok context, ⟨context, session⟩) := rfl
  unfold lookup
  rw [Step.bind_ok current]
  cases known : context.value? id with
  | some value =>
    refine ⟨⟨retains, progress⟩, .inl ?_⟩
    rw [Context.explore_of_derives data mem nodup subset await enough
      (retains.derived id mem value known)]
    rfl
  | none =>
    have unknown : start.value? id = none := by
      cases before : start.value? id with
      | none => rfl
      | some value =>
        rw [retains.kept id mem value before] at known
        cases known
    dsimp only
    rw [retains.recipes id mem]
    cases found : start.thunk? id with
    | none =>
      refine ⟨⟨retains, progress⟩, .inl ?_⟩
      rw [Context.explore_missing unknown found]
      rfl
    | some thunk =>
      dsimp only
      by_cases busy : id ∈ path
      · rw [if_pos (Std.TreeSet.contains_iff_mem.2 ((progress id mem).2 busy)),
          Context.explore_cycle unknown found length busy]
        exact ⟨⟨retains, progress⟩, .inl rfl⟩
      · rw [if_neg fun contains => busy ((progress id mem).1
          (Std.TreeSet.contains_iff_mem.1 contains))]
        exact h thunk unknown found busy ⟨context, session⟩ ⟨retains, progress⟩

/-- Evaluating a node of data has the outcome of a walk that keeps no value, unless evaluations are
nested too deeply, for which the region must have more nodes than may be nested. -/
theorem evaluateWithin_explores (evaluator : Evaluator) (budget : Nat) :
    Eval.Yields (budget + path.length < region.length) (start.Along region path)
      (evaluator.evaluateWithin budget id) (start.explore length path id) := by
  induction budget generalizing id path length with
  | zero =>
    refine lookup_explores data mem nodup subset await enough fun _ _ _ new machine along => ?_
    have deep : 0 + path.length < region.length := by
      by_contra shallow
      obtain ⟨_, same, -⟩ :=
        Context.length_pos_of_not_mem nodup subset mem new (Nat.le_of_not_lt shallow)
      cases same
    exact ⟨along, .inr ⟨deep, _, rfl, trivial⟩⟩
  | succ budget ih =>
    refine lookup_explores data mem nodup subset await enough fun thunk unknown found new => ?_
    obtain ⟨rest, rfl, further⟩ := Context.length_pos_of_not_mem nodup subset mem new enough
    rw [show budget + 1 + path.length = budget + (id :: path).length from
      (Nat.add_assoc _ _ _).trans (congrArg _ (Nat.add_comm _ _))]
    refine nested_yields new (fun value => Context.derives_of_explore data mem) ?_
    obtain ⟨recipe, sources⟩ := data.recipe mem unknown found
    have within := thunk.inquiry_within sources id
    rw [← Thunk.perform_inquiry evaluator.plan evaluator.limits _ id recipe,
      Context.explore_thunk unknown found rest new]
    refine Inquiry.perform_yields evaluator.plan evaluator.limits id (Thunk.inquiry_inert recipe id)
      (fun source value (asks : (thunk.inquiry id).Asks start.Derives source) found => ?_)
      fun source asks => ?_
    · have derives := Context.derives_of_explore data (asks.mem within) found
      exact ⟨derives, derives.inert data (asks.mem within)⟩
    · exact ih (asks.mem within) (List.nodup_cons.2 ⟨new, nodup⟩)
        (List.cons_subset.2 ⟨mem, subset⟩) (await.ask unknown found asks) further

end

/-- Nothing of the region is in progress; this concerns one context only. -/
abbrev Rests (region : List NodeId) (start : Context) : Machine → Prop :=
  Machine.Has (start.Along region []) fun _ => True

variable (data : start.Data region) (evaluator : Evaluator)

include data

/-- Evaluating any node keeps to what can be derived for a region of data: calls have contexts of
their own, and the region is closed. -/
theorem evaluateWithin_rests (budget : Nat) (id : NodeId) :
    Keeps (Rests region start) (evaluator.evaluateWithin budget id) := by
  induction budget generalizing id with
  | zero =>
    exact lookup_keeps fun _ _ _ _ => Step.ensures_get.bind fun _ _ => Step.ensures_throw _
  | succ budget ih =>
    by_cases mem : id ∈ region
    · intro machine has
      have await : start.Await [] id := fun _ mem => absurd mem List.not_mem_nil
      exact ⟨⟨(evaluateWithin_explores data mem List.nodup_nil (List.nil_subset _) await
        (Nat.le_refl _) evaluator (budget + 1) machine has.1).1, trivial⟩, fun _ _ => trivial⟩
    have progresses (context : Context) (inProgress : Std.TreeSet NodeId)
        (same : ∀ other, other ≠ id → (other ∈ inProgress ↔ other ∈ context.inProgress))
        (along : start.Along region [] context) :
        start.Along region [] { context with inProgress } := by
      refine ⟨along.1.progress inProgress, fun other inside => ?_⟩
      have different : other ≠ id := by
        rintro rfl
        exact mem inside
      exact (same other different).trans (along.2 other inside)
    have adds (context : Context) (value : Value) (along : start.Along region [] context) :
        start.Along region [] (context.addValue id value) :=
      ⟨along.1.addValue fun inside => absurd inside mem, along.2⟩
    exact lookup_keeps fun _ thunk _ _ =>
      nested_keeps progresses adds (Call.follow_keeps ih id thunk)

end Evaluator

namespace Compilation

section

variable {compilation : Compilation} (consistent : compilation.Consistent) {region : List NodeId}
  (data : compilation.context.Data region)

include consistent data

/-- Whatever a program was asked for before, its data can still be derived. -/
theorem rests_after (queries : List Query) :
    Evaluator.Rests region compilation.context (compilation.after queries) := by
  have idle (id : NodeId) : id ∉ compilation.context.inProgress := by
    rw [consistent.context, Registration.inProgress_ofProgram]
    exact Std.TreeSet.not_mem_emptyc
  have start : Evaluator.Rests region compilation.context compilation.start :=
    ⟨⟨Context.Retains.refl region _, fun id _ =>
      iff_of_false (idle id) List.not_mem_nil⟩, trivial⟩
  exact after_ensures start fun machine query _ rests => query.ask_ensures
    (Evaluator.evaluateWithin_rests data compilation.evaluator _) Eval.report_keeps
    (fun callee arguments _ => Call.callValue_keeps 0 callee arguments .unit) rests

/-- The outcome for a node of data is that of a walk through the program as it was compiled,
whatever was asked before, unless evaluations are nested too deeply. -/
theorem evaluate_after {id : NodeId} (mem : id ∈ region) (queries : List Query) :
    (compilation.evaluator.evaluate id (compilation.after queries)).1 =
        compilation.context.explore region.length [] id ∨
      ∃ error, (compilation.evaluator.evaluate id (compilation.after queries)).1 = .error error ∧
        error.IsDepth := by
  have await : compilation.context.Await [] id := fun _ mem => absurd mem List.not_mem_nil
  exact (Evaluator.evaluateWithin_explores data mem List.nodup_nil (List.nil_subset _) await
    (Nat.le_refl _) compilation.evaluator _ _ (rests_after consistent data queries).1).2.imp_right
      And.right

end

end Compilation

end DeclLang
