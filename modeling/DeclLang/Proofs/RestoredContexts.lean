import DeclLang.Proofs.LazyEvaluation
import DeclLang.Proofs.RegisteredRecipes
import DeclLang.Proofs.Termination

/-!
# Queries restore the context

**Input.**  A compiled program, and a sequence of queries, each of which may fail.

**Invariant.**  `Context.Restored`: two contexts have the same thunks, the same nodes in progress
and the same assignments, and the second knows every value that the first knows.

**Results.**
* `Evaluator.evaluateWithin_restores`: however an evaluation ends, it restores the context.
* `Query.FailsWith.reason`: whatever a query fails with has a reason; `Limits.Justifies` allows a
  failure for the depth of evaluations only one level below the limit.
* `Compilation.queries_restore`: between queries nothing is being evaluated, a query leaves nothing
  but new values, and at no moment are evaluations nested more deeply than the limit says.
-/

namespace DeclLang

open Step (Keeps Ensures)

/-- One context is left of another: nothing but new values have come. -/
structure Context.Restored (before after : Context) : Prop where
  thunks : after.thunks = before.thunks
  kept : ∀ id value, before.value? id = some value → after.value? id = some value
  inProgress : ∀ id, id ∈ after.inProgress ↔ id ∈ before.inProgress
  rebound : after.rebound = before.rebound

namespace Context.Restored

variable {before middle after : Context}

theorem refl (context : Context) : context.Restored context :=
  ⟨rfl, fun _ _ known => known, fun _ => Iff.rfl, rfl⟩

theorem trans (first : before.Restored middle) (second : middle.Restored after) :
    before.Restored after where
  thunks := second.thunks.trans first.thunks
  kept id value known := second.kept id value (first.kept id value known)
  inProgress id := (second.inProgress id).trans (first.inProgress id)
  rebound := second.rebound.trans first.rebound

/-- A node that was not in progress before no longer is. -/
theorem leave {id : NodeId} (idle : id ∉ before.inProgress)
    (inner : Restored { before with inProgress := before.inProgress.insert id } after) :
    before.Restored { after with inProgress := after.inProgress.erase id } where
  thunks := inner.thunks
  kept := inner.kept
  inProgress other := by
    have around := inner.inProgress other
    rw [mem_inProgress_insert] at around
    rw [mem_inProgress_erase, around]
    constructor
    · rintro ⟨different, same | mem⟩
      · exact absurd same different
      · exact mem
    · exact fun mem => ⟨fun same => idle (same ▸ mem), .inr mem⟩
  rebound := inner.rebound

/-- A node that had no value gets one. -/
theorem addValue {id : NodeId} (unknown : before.value? id = none)
    (restored : before.Restored after) (value : Value) :
    before.Restored (after.addValue id value) where
  thunks := restored.thunks
  kept other kept known := by
    rw [value?_addValue]
    split
    · rename_i same
      rw [same, unknown] at known
      cases known
    · exact restored.kept other kept known
  inProgress := restored.inProgress
  rebound := restored.rebound

end Context.Restored

/-- However a step ends, it restores the context. -/
abbrev Eval.Restores {α : Type} (step : Eval α) : Prop :=
  ∀ before : Context, Keeps (Machine.Has before.Restored fun _ => True) step

/-- It is enough that the context is restored in which the step begins. -/
theorem Eval.restores_of_here {α : Type} {step : Eval α}
    (h : ∀ machine : Machine, machine.context.Restored (step machine).2.context) :
    Eval.Restores step :=
  fun _ machine has => ⟨⟨has.1.trans (h machine), trivial⟩, fun _ _ => trivial⟩

theorem Eval.Restores.here {α : Type} {step : Eval α} (h : Eval.Restores step)
    (machine : Machine) : machine.context.Restored (step machine).2.context :=
  (h machine.context machine ⟨.refl _, trivial⟩).1.1

namespace Evaluator

variable {id : NodeId}

/-- A nested evaluation of a node without a value that is not in progress. -/
theorem nested_restores {step : Eval Value} (h : Eval.Restores step) {context : Context}
    (unknown : context.value? id = none) (idle : id ∉ context.inProgress) (session : Session) :
    context.Restored (nested id step ⟨context, session⟩).2.context := by
  rw [nested_eq]
  have inner := h.here ⟨{ context with inProgress := context.inProgress.insert id },
    { session with depth := session.depth + 1 }⟩
  cases ran : step ⟨{ context with inProgress := context.inProgress.insert id },
      { session with depth := session.depth + 1 }⟩ with
  | mk outcome after =>
    rw [ran] at inner
    cases outcome with
    | ok value => exact (inner.leave idle).addValue unknown value
    | error error => exact inner.leave idle

/-- However an evaluation ends, it restores the context. -/
theorem evaluateWithin_restores (evaluator : Evaluator) (budget : Nat) (id : NodeId) :
    Eval.Restores (evaluator.evaluateWithin budget id) := by
  induction budget using Nat.strong_induction_on generalizing id with
  | h budget ih =>
    refine Eval.restores_of_here fun machine => ?_
    rcases evaluator.evaluateWithin_cases budget id machine with
      nothing | ⟨less, thunk, rfl, unknown, -, idle, ran⟩
    · rw [nothing]
      exact .refl _
    · have follows : Eval.Restores (do
          let values ← thunk.dependencies.mapM (evaluator.evaluateWithin less)
          Call.follow evaluator.plan evaluator.limits (evaluator.evaluateWithin less) id
            thunk.recipe values) :=
        fun before => Call.follow_keeps (fun other => ih less (Nat.lt_succ_self less) other before)
          id thunk
      rw [ran]
      exact nested_restores follows unknown idle machine.session

end Evaluator

/-- A failure for the depth of evaluations comes one level below the limit. -/
def Limits.Justifies (limits : Limits) (error : EvalError) : Prop :=
  ∀ depth limit, error = .depthExceeded depth limit →
    limit = limits.depth ∧ depth = limits.depth + 1

theorem Limits.admits_justifies (limits : Limits) : limits.Admits limits.Justifies where
  plain error plain depth limit same := by
    subst same
    exact absurd trivial plain
  deep depth limit same := by
    cases same
    exact ⟨rfl, rfl⟩

namespace Registration

/-- No node is registered with a failure. -/
theorem Registers.not_failure {environment : Environment} {node : Node} {thunk : Thunk}
    (registers : Registers environment node thunk) (error : EvalError) :
    ¬thunk.recipe.FailsWith error := by
  cases registers with
  | @binary id operator left right => cases operator <;> exact not_false
  | _ => exact not_false

/-- Before anything is evaluated, nothing has failed. -/
theorem failsFor_ofProgram (reasons : EvalError → Prop) (root : Node) (scope : Scope)
    (typing : Typing) (solution : Substitution) :
    (Context.ofProgram root scope typing solution).FailsFor reasons := by
  intro id thunk error found failure
  obtain ⟨place, -, -, registers⟩ :=
    (sources_ofProgram root scope typing solution).thunks id thunk found
  exact absurd failure (registers.not_failure error)

end Registration

namespace Query

variable {compilation : Compilation}

theorem ask_restores (machine : Machine) (query : Query) :
    machine.context.Restored (query.ask compilation machine).context := by
  have here : machine.Has machine.context.Restored fun _ => True := ⟨.refl _, trivial⟩
  exact (query.ask_ensures
    (fun id => compilation.evaluator.evaluateWithin_restores _ id machine.context)
    Eval.report_keeps (fun callee arguments _ => Call.callValue_keeps 0 callee arguments .unit)
    here).1

/-- A query fails with an error, which is given or reported. -/
def FailsWith (compilation : Compilation) (machine : Machine) (error : EvalError) : Query → Prop
  | evaluate id | evaluateOrReport id =>
    (compilation.evaluator.evaluate id machine).1 = .error error
  | evaluateCondition id => (compilation.evaluator.evaluateCondition id machine).1 = .error error
  | evaluatePath path => ∃ id, compilation.names.values[path]? = some id ∧
    (compilation.evaluator.evaluate id machine).1 = .error error
  | callFunction callee arguments =>
    (compilation.evaluator.callFunction callee arguments machine).1 = .error error

/-- Whatever a query outside of all evaluations fails with has a reason. -/
theorem FailsWith.reason {reasons : EvalError → Prop} {machine : Machine} {error : EvalError}
    {query : Query} (fails : query.FailsWith compilation machine error)
    (admits : compilation.evaluator.limits.Admits reasons) (level : machine.Level reasons 0) :
    reasons error := by
  have given {α : Type} {run : Run α} {step : Eval α} {gives : α → Prop}
      (tracks : Run.Tracks False reasons 0 run step gives)
      (failed : (step machine).1 = .error error) : reasons error := by
    have ends := tracks.stays machine level
    rw [Machine.EndsAt, failed] at ends
    exact ends.2
  have watched (session : Session) :
      session.depth ≤ compilation.evaluator.limits.depth → (fun _ => true) session = true :=
    fun _ => rfl
  have evaluates (id : NodeId) :
      Run.Tracks False reasons 0 (compilation.evaluator.run (fun _ => true) 0 id)
        (compilation.evaluator.evaluate id) fun _ => True :=
    Evaluator.run_tracks admits watched (Nat.zero_add _) False.elim id
  have calls (callee : Value) (arguments : Arguments) :
      Run.Tracks False reasons 0
        (compilation.evaluator.runFunction (fun _ => true) 0 callee arguments)
        (compilation.evaluator.callFunction callee arguments) fun _ => True :=
    Evaluator.runFunction_tracks admits watched False.elim callee arguments
  cases query with
  | evaluate id => exact given (evaluates id) fails
  | evaluateCondition id =>
    exact given (Run.tracks_test (fun _ _ => rfl) admits evaluates id) fails
  | evaluateOrReport id => exact given (evaluates id) fails
  | evaluatePath path =>
    obtain ⟨id, -, fails⟩ := fails
    exact given (evaluates id) fails
  | callFunction callee arguments => exact given (calls callee arguments) fails

end Query

/-- Nothing is being evaluated, and nothing is marked as assigned. -/
structure Machine.Idle (machine : Machine) : Prop where
  depth : machine.session.depth = 0
  inProgress : ∀ id, id ∉ machine.context.inProgress
  rebound : ∀ id, id ∉ machine.context.rebound

namespace Compilation

variable {options : Options} {root : Node} {focus : Option NodeId} {reported reports : Reports}
  {compilation : Compilation}

theorem start_restored (queries : List Query) :
    compilation.context.Restored (compilation.after queries).context := by
  have start : compilation.start.Has compilation.context.Restored fun _ => True :=
    ⟨.refl _, trivial⟩
  exact (after_ensures start
    fun machine query _ has => ⟨has.1.trans (query.ask_restores machine), trivial⟩).1

/-- Between queries nothing is being evaluated.  A query, whether it fails or not, leaves nothing
but new values; if it fails for the depth of evaluations, then one level below the limit; and
followed as far as one likes, it comes to no session with more evaluations nested than the limit
says. -/
theorem queries_restore
    (compiled : ofTree options root focus reported = (.ok compilation, reports))
    (queries : List Query) (query : Query) :
    let limits := compilation.evaluator.limits
    let machine := compilation.after queries
    machine.Idle ∧ (query.ask compilation machine).Idle ∧
      machine.context.Restored (query.ask compilation machine).context ∧
      (∀ depth limit, query.FailsWith compilation machine (.depthExceeded depth limit) →
        limit = limits.depth ∧ depth = limits.depth + 1) ∧
      ∀ fuel, query.run compilation (fun session => session.depth ≤ limits.depth) fuel machine ≠
        .error .forbidden := by
  have consistent := consistent_of_ofTree compiled
  have admits := compilation.evaluator.limits.admits_justifies
  have level (queries : List Query) :
      (compilation.after queries).Level compilation.evaluator.limits.Justifies 0 := by
    refine compilation.level_after admits ?_ queries
    rw [consistent.context]
    exact Registration.failsFor_ofProgram _ _ _ _ _
  have idle (queries : List Query) : (compilation.after queries).Idle := by
    have restored := compilation.start_restored queries
    refine ⟨(level queries).1, fun id mem => ?_, fun id mem => ?_⟩
    · have mem := (restored.inProgress id).1 mem
      rw [consistent.context, Registration.inProgress_ofProgram] at mem
      exact Std.TreeSet.not_mem_emptyc mem
    · rw [restored.rebound, consistent.context, Registration.rebound_ofProgram] at mem
      exact Std.TreeSet.not_mem_emptyc mem
  have later : query.ask compilation (compilation.after queries) =
      compilation.after (queries ++ [query]) := by
    unfold after
    rw [List.foldl_append]
    rfl
  refine ⟨idle queries, later ▸ idle _, query.ask_restores _, fun depth limit fails =>
    fails.reason admits (level queries) depth limit rfl, fun fuel forbidden => ?_⟩
  have tracks : Run.Tracks False compilation.evaluator.limits.Justifies 0
      (query.run compilation
        (fun session => session.depth ≤ compilation.evaluator.limits.depth) fuel)
      (query.step compilation) fun _ => True :=
    query.run_tracks admits (fun _ shallow => decide_eq_true shallow) False.elim
  have like := (tracks _ (level queries)).2
  rw [forbidden] at like
  exact like

/-- After a cycle and an endless loop, a query that fails for the depth of evaluations leaves
nothing behind. -/
theorem queries_restore_tangle :
    let options : Options := { limits := { depth := 12, iterations := some 3 } }
    ∃ compilation reports, ofTree options tangle none {} = (.ok compilation, reports) ∧
      let machine := compilation.after [.evaluate 26, .evaluateOrReport 23]
      let query := Query.evaluatePath "deep"
      query.FailsWith compilation machine (.depthExceeded 13 12) ∧
        (query.ask compilation machine).Idle ∧
        machine.context.Restored (query.ask compilation machine).context ∧
        ∀ fuel, query.run compilation (fun session => session.depth ≤ 12) fuel machine ≠
          .error .forbidden := by
  intro options
  have checked : ((ofTree options tangle none {}).1.toOption.bind fun compilation =>
      compilation.names.values["deep"]?.bind fun id =>
        some (compilation.evaluator.limits.depth == 12 &&
          match (compilation.evaluator.evaluate id
            (compilation.after [.evaluate 26, .evaluateOrReport 23])).1 with
          | .error error => decide (error = .depthExceeded 13 12)
          | .ok _ => false)) = some true := by
    decide +kernel
  obtain ⟨compilation, compiled, holds⟩ := compiled_of_toOption checked
  obtain ⟨id, found, holds⟩ := Option.bind_eq_some_iff.1 holds
  simp only [Option.some.injEq, Bool.and_eq_true, beq_iff_eq] at holds
  obtain ⟨deep, fails⟩ := holds
  obtain ⟨-, idle, restored, -, shallow⟩ :=
    queries_restore compiled [.evaluate 26, .evaluateOrReport 23] (.evaluatePath "deep")
  refine ⟨compilation, _, compiled, ⟨id, found, ?_⟩, idle, restored, deep ▸ shallow⟩
  split at fails
  · rename_i error failed
    rw [failed, of_decide_eq_true fails]
  · cases fails

end Compilation

end DeclLang
