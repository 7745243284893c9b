import DeclLang.Proofs.IntactContexts
import DeclLang.Proofs.Tracking

/-!
# Evaluation ends

**Input.**  A compilation, a sequence of queries, and a limit for the turns of loops.

**Algorithm.**  A query is also a run without a bound: `Query.run`.

**Results.**
* `Query.run_tracks`: a query starts and ends outside of all evaluations, and no session on the way
  is too deep.
* `Compilation.evaluation_ends`: after any queries and in any context, evaluations and calls of
  functions end.  They give what `Evaluator.evaluate` and `Evaluator.callFunction` give, whose
  recursion is on the levels that are left: how functions call each other, how variables need each
  other and how loops are nested makes no difference.
-/

namespace DeclLang

namespace Query

/-- What a query does, apart from its value. -/
def step (compilation : Compilation) : Query → Eval Unit
  | evaluate id => do
    let _ ← compilation.evaluator.evaluate id
  | evaluateCondition id => do
    let _ ← compilation.evaluator.evaluateCondition id
  | evaluateOrReport id => do
    let _ ← compilation.evaluator.evaluateOrReport id
  | evaluatePath path => do
    let _ ← compilation.evaluatePath path
  | callFunction callee arguments => do
    let _ ← compilation.evaluator.callFunction callee arguments

theorem ask_eq (compilation : Compilation) (machine : Machine) (query : Query) :
    query.ask compilation machine = (query.step compilation machine).2 := by
  have ends {α : Type} (step : Eval α) :
      (step machine).2 = ((do let _ ← step : Eval Unit) machine).2 := by
    cases ran : step machine with
    | mk outcome after =>
      cases outcome with
      | ok a => rw [Step.bind_ok ran]; rfl
      | error error => rw [Step.bind_error ran]
  cases query <;> exact ends _

/-- A query without a bound, as far as the fuel reaches. -/
def run (compilation : Compilation) (watch : Session → Bool) (fuel : Nat) : Query → Run Unit
  | evaluate id => do
    let _ ← compilation.evaluator.run watch fuel id
  | evaluateCondition id => do
    let _ ← Run.test watch (compilation.evaluator.run watch fuel) id
  | evaluateOrReport id => reporting id
  | evaluatePath path =>
    match compilation.names.values[path]? with
    | some id => reporting id
    | none => return
  | callFunction callee arguments => do
    let _ ← compilation.evaluator.runFunction watch fuel callee arguments
where
  reporting (id : NodeId) : Run Unit := do
    if let .error error ← Run.attempt (compilation.evaluator.run watch fuel id) then
      Run.take watch (Eval.report id error)

variable {complete : Prop} {reasons : EvalError → Prop} {watch : Session → Bool}
  {compilation : Compilation} (admits : compilation.evaluator.limits.Admits reasons)
  (watched : ∀ session : Session,
    session.depth ≤ compilation.evaluator.limits.depth → watch session = true)
  {fuel : Nat} (enough : complete → ∃ limit, compilation.evaluator.limits.iterations = some limit ∧
    compilation.evaluator.limits.depth + limit + 2 ≤ fuel)

include admits watched enough

/-- A query starts and ends outside of all evaluations. -/
theorem run_tracks (query : Query) :
    Run.Tracks complete reasons 0 (query.run compilation watch fuel) (query.step compilation)
      fun _ => True := by
  have outside : ∀ session : Session, session.depth = 0 → watch session = true :=
    fun session same => watched session (by omega)
  have evaluates := Evaluator.run_tracks admits watched (Nat.zero_add _) enough
  have reports (id : NodeId) :
      Run.Tracks complete reasons 0 (run.reporting compilation watch fuel id)
        (do let _ ← compilation.evaluator.evaluateOrReport id) fun _ => True := by
    unfold Evaluator.evaluateOrReport
    rw [bind_assoc]
    refine (Run.tracks_attempt (evaluates id)).bind fun outcome _ => ?_
    cases outcome with
    | ok value => exact Run.tracks_pure trivial
    | error error => exact Run.tracks_changeSession outside fun _ => ⟨rfl, rfl⟩
  cases query with
  | evaluate id => exact (evaluates id).bind fun _ _ => Run.tracks_pure trivial
  | evaluateCondition id =>
    exact (Run.tracks_test outside admits evaluates id).bind fun _ _ => Run.tracks_pure trivial
  | evaluateOrReport id => exact reports id
  | evaluatePath path =>
    unfold run step Compilation.evaluatePath
    dsimp only
    cases compilation.names.values[path]? with
    | none => exact Run.tracks_pure trivial
    | some id => exact reports id
  | callFunction callee arguments =>
    exact (Evaluator.runFunction_tracks admits watched enough callee arguments).bind
      fun _ _ => Run.tracks_pure trivial

end Query

namespace Compilation

variable (compilation : Compilation)

/-- Between queries, nothing is being evaluated, and failures have their reasons. -/
theorem level_after {reasons : EvalError → Prop}
    (admits : compilation.evaluator.limits.Admits reasons)
    (start : compilation.context.FailsFor reasons) (queries : List Query) :
    (compilation.after queries).Level reasons 0 := by
  refine after_ensures ⟨rfl, start, fun _ mem => absurd mem (Array.not_mem_empty _)⟩
    fun machine query _ level => ?_
  have tracks : Run.Tracks False reasons 0 (query.run compilation (fun _ => true) 0)
      (query.step compilation) fun _ => True :=
    query.run_tracks admits (fun _ _ => rfl) False.elim
  rw [query.ask_eq]
  exact (tracks.stays machine level).1

/-- After any queries and in any context, evaluations and calls of functions end, if the turns of
loops are limited: a run that is followed far enough gives what evaluation gives. -/
theorem evaluation_ends (queries : List Query) {limit : Nat}
    (limited : compilation.evaluator.limits.iterations = some limit) (context : Context)
    {fuel : Nat} (far : compilation.evaluator.limits.depth + limit + 2 ≤ fuel) :
    let evaluator := compilation.evaluator
    let machine := { compilation.after queries with context }
    (∀ id, evaluator.run (fun _ => true) fuel id machine = .ok (evaluator.evaluate id machine)) ∧
      ∀ callee arguments, evaluator.runFunction (fun _ => true) fuel callee arguments machine =
        .ok (evaluator.callFunction callee arguments machine) := by
  have admits : compilation.evaluator.limits.Admits fun _ => True :=
    ⟨fun _ _ => trivial, trivial⟩
  have level : Machine.Level (fun _ => True) 0 { compilation.after queries with context } :=
    (compilation.level_after admits (fun _ _ _ _ _ => trivial) queries).withContext
      fun _ _ _ _ _ => trivial
  have watched (session : Session) :
      session.depth ≤ compilation.evaluator.limits.depth → (fun _ => true) session = true :=
    fun _ => rfl
  have enough (_ : True) : ∃ limit, compilation.evaluator.limits.iterations = some limit ∧
      compilation.evaluator.limits.depth + limit + 2 ≤ fuel := ⟨limit, limited, far⟩
  exact ⟨fun id => (Evaluator.run_tracks admits watched (Nat.zero_add _) enough id).eq level,
    fun callee arguments =>
      (Evaluator.runFunction_tracks admits watched enough callee arguments).eq level⟩

/-- A function that calls itself in a loop, a function whose loop never ends, and two variables
that need each other. -/
def tangle : Node :=
  .mk 0 (.program
    [.mk 1 (.functionDecl "dive" [] [.mk 2 (.parameter "on" (.mk 3 (.typeName "Boolean" [])) none)]
        (.mk 4 (.typeName "String" []))
        [.mk 5 (.loop (.mk 6 (.identifier "on"))
          [.mk 7 (.expressionStatement (.mk 8 (.call (.mk 9 (.identifier "dive"))
            [.mk 10 (.argument none (.mk 11 (.identifier "on")))])))]),
          .mk 12 (.returnStatement (some (.mk 13 (.literal (.string "surface")))))]),
      .mk 14 (.functionDecl "wait" [] [] (.mk 15 (.typeName "String" []))
        [.mk 16 (.loop (.mk 17 (.literal (.boolean true))) [])]),
      .mk 18 (.variableDecl "deep" none (some (.mk 19 (.call (.mk 20 (.identifier "dive"))
        [.mk 21 (.argument none (.mk 22 (.literal (.boolean true))))])))),
      .mk 23 (.variableDecl "late" none (some (.mk 24 (.call (.mk 25 (.identifier "wait")) [])))),
      .mk 26 (.variableDecl "left" none (some (.mk 27 (.identifier "right")))),
      .mk 28 (.variableDecl "right" none (some (.mk 29 (.identifier "left"))))])

/-- All evaluations of the program end, three of its variables with a failure. -/
theorem evaluation_ends_tangle :
    let options : Options := { limits := { depth := 12, iterations := some 3 } }
    ∃ compilation reports, ofTree options tangle none {} = (.ok compilation, reports) ∧
      (∀ id, compilation.evaluator.run (fun _ => true) 17 id (compilation.after [.evaluate 1]) =
        .ok (compilation.evaluator.evaluate id (compilation.after [.evaluate 1]))) ∧
      [18, 23, 26].map (fun id =>
          (compilation.evaluator.evaluate id (compilation.after [.evaluate 1])).1.isOk) =
        [false, false, false] := by
  intro options
  have checked : ((ofTree options tangle none {}).1.toOption.bind fun compilation =>
      some (decide (compilation.evaluator.limits.iterations = some 3) &&
        compilation.evaluator.limits.depth == 12 &&
        decide ([18, 23, 26].map (fun id =>
          (compilation.evaluator.evaluate id (compilation.after [.evaluate 1])).1.isOk) =
            [false, false, false]))) = some true := by
    decide +kernel
  obtain ⟨compilation, compiled, holds⟩ := compiled_of_toOption checked
  simp only [Option.some.injEq, Bool.and_eq_true, beq_iff_eq, decide_eq_true_eq] at holds
  obtain ⟨⟨limited, deep⟩, fails⟩ := holds
  exact ⟨compilation, _, compiled, (evaluation_ends compilation [.evaluate 1] limited _
    (deep ▸ Nat.le_refl _)).1, fails⟩

end Compilation

end DeclLang
