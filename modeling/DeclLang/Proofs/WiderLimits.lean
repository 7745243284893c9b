import DeclLang.Proofs.CompilationOutcomes
import DeclLang.Proofs.EvaluationInvariants
import DeclLang.Proofs.LazyEvaluation
import DeclLang.Proofs.Registered

/-!
# Wider limits

**Input.**  A program without assignments, and two choices of limits, one of which allows at least
as much nesting and as many turns of a loop as the other.

**Relation.**  `Step.Below`: where one step succeeds, the other gives the same and leaves the same
state.  A failure may be anything, so the steps never have to fail together.  There is one rule for
every way in which steps are put together.

**Results.**
* `Evaluator.evaluateWithin_below`: evaluation under narrow limits is below evaluation under wide
  ones.  Assignments are the exception: what is settled for their sake keeps a failure, even one
  that is only due to the limits.
* `Compilation.evaluate_wider`: a value that is found on a fresh compilation is found again under
  wider limits, and the machine is left the same: with the same values, function values, tallies and
  diagnostics.
-/

namespace DeclLang

/-- There is no assignment in the tree. -/
def Node.AssignmentFree (node : Node) : Prop :=
  ∀ inner ∈ node.preorder, ∀ target value, inner.kind ≠ .assignment target value

instance (node : Node) : Decidable node.AssignmentFree :=
  decidable_of_iff (∀ inner ∈ node.preorder, (inner.kind matches .assignment ..) = false) <|
    forall₂_congr fun inner _ => by cases inner.kind <;> simp

/-- How often the condition of a loop may hold. -/
def Limits.turns (limits : Limits) : Nat :=
  limits.iterations.getD limits.patience

/-- The other limits allow at least as much. -/
structure Limits.Within (limits wider : Limits) : Prop where
  depth : limits.depth ≤ wider.depth
  turns : limits.turns ≤ wider.turns

/-- A number of turns is within every larger number, and within having no limit at all. -/
theorem Limits.within_of_iterations {limits wider : Limits} (depth : limits.depth ≤ wider.depth)
    (same : wider.patience = limits.patience)
    (representable : ∀ most, limits.iterations = some most → most ≤ limits.patience)
    (permits : ∀ more, wider.iterations = some more →
      ∃ most ≤ more, limits.iterations = some most) : limits.Within wider where
  depth := depth
  turns := by
    unfold Limits.turns
    cases allowed : wider.iterations with
    | some more =>
      obtain ⟨most, le, limited⟩ := permits more allowed
      rw [limited]
      exact le
    | none =>
      rw [same]
      cases limited : limits.iterations with
      | none => exact Nat.le_refl _
      | some most => exact representable most limited

namespace Step

variable {ε σ α β : Type}

/-- Where the first step succeeds, the second gives the same and leaves the same state. -/
def Below (step wider : Step ε σ α) : Prop :=
  ∀ (state : σ) (a : α) (after : σ), step state = (.ok a, after) → wider state = (.ok a, after)

theorem Below.refl (step : Step ε σ α) : step.Below step :=
  fun _ _ _ ran => ran

theorem throw_below (error : ε) (wider : Step ε σ α) : (throw error : Step ε σ α).Below wider := by
  intro state a after ran
  cases ran

theorem Below.bind {step wider : Step ε σ α} {next more : α → Step ε σ β} (h : step.Below wider)
    (rest : ∀ a, (next a).Below (more a)) : (step >>= next).Below (wider >>= more) := by
  intro state b after ran
  obtain ⟨a, middle, first, last⟩ := bind_ok_inv ran
  rw [bind_ok (h state a middle first)]
  exact rest a middle b after last

theorem below_of_get {step wider : σ → Step ε σ α} (h : ∀ state, (step state).Below (wider state)) :
    Below (get >>= step) (get >>= wider) :=
  (Below.refl get).bind h

theorem mapM_below {items : List β} {step wider : β → Step ε σ α}
    (each : ∀ b, (step b).Below (wider b)) : (items.mapM step).Below (items.mapM wider) := by
  induction items with
  | nil => exact .refl _
  | cons b items ih =>
    rw [List.mapM_cons, List.mapM_cons]
    exact (each b).bind fun _ => ih.bind fun _ => .refl _

end Step

open Step (Below)

theorem Eval.within_below {α : Type} {step wider : Eval α} (h : step.Below wider)
    (context : Context) : (Eval.within context step).Below (Eval.within context wider) := by
  intro machine result after ran
  unfold Eval.within at ran ⊢
  cases inner : step { machine with context } with
  | mk outcome left =>
    rw [inner] at ran
    cases outcome with
    | error error => cases ran
    | ok a =>
      rw [h _ a left inner]
      exact ran

section

variable {plan : Plan} {limits wider : Limits} {evaluate again : NodeId → Eval Value}
  (aimless : ∀ id, plan.target? id = none) (within : limits.Within wider)
  (below : ∀ id, (evaluate id).Below (again id))

include below

theorem Eval.condition_below (id : NodeId) :
    Below (do Eval.condition (← evaluate id)) (do Eval.condition (← again id)) :=
  (below id).bind fun _ => .refl _

namespace Statement

omit below in
/-- Nothing has to be settled when nothing is affected. -/
theorem settle_nil (evaluate : NodeId → Eval Value) (pending : List NodeId) :
    settle plan evaluate [] pending = pure pending := by
  induction pending with
  | nil => rw [settle]
  | cons first pending ih =>
    have unaffected : (plan.readsOf first).any ([] : List NodeId).contains = false := by
      simp
    rw [settle, unaffected, ih]
    rfl

omit below in
theorem openTurn_below (subtree : List NodeId) {condition test : Eval Bool}
    (tests : condition.Below test) : (openTurn subtree condition).Below (openTurn subtree test) :=
  (Below.refl Eval.context).bind fun context =>
    Eval.within_below tests (context.copy.forget subtree)

omit below in
/-- A loop that ends within its turns ends in the same way if it may take more of them. -/
theorem repeatLoop_below (subtree : List NodeId) {condition test : Eval Bool}
    {body block : Eval Flow} (tests : condition.Below test) (runs : body.Below block)
    {turns more : Nat} (le : turns ≤ more) :
    (repeatLoop limits subtree condition body turns).Below
      (repeatLoop wider subtree test block more) := by
  induction turns generalizing more with
  | zero =>
    -- The condition does not hold when the turns are used up: otherwise the loop would fail.
    rw [repeatLoop]
    cases more <;> rw [repeatLoop] <;>
      refine (openTurn_below subtree tests).bind fun opened => ?_
    all_goals
      obtain ⟨holds, turn⟩ := opened
      cases holds with
      | true => exact Step.throw_below _ _
      | false => exact .refl _
  | succ turns ih =>
    obtain ⟨more, rfl⟩ := Nat.exists_eq_add_of_le' (Nat.le_trans (Nat.succ_pos turns) le)
    rw [repeatLoop, repeatLoop]
    refine (openTurn_below subtree tests).bind fun opened => ?_
    obtain ⟨holds, turn⟩ := opened
    cases holds with
    | false => exact .refl _
    | true =>
      refine (Eval.within_below runs turn).bind fun ran => ?_
      obtain ⟨flow, after⟩ := ran
      cases flow with
      | returned value => exact .refl _
      | next pending =>
        exact (Below.refl _).bind fun _ => ih (Nat.le_of_succ_le_succ le)

include aimless

theorem executeExpression_below (expression : Node) (pending : List NodeId) :
    (executeExpression plan evaluate expression pending).Below
      (executeExpression plan again expression pending) := by
  unfold executeExpression
  split
  · rw [aimless]
    exact Step.throw_below _ _
  · exact (below expression.id).bind fun _ => .refl _

omit below aimless in
theorem executeBlock_below_of {statements : List Node}
    (each : ∀ statement ∈ statements, ∀ pending,
      (execute plan limits evaluate statement pending).Below
        (execute plan wider again statement pending)) (pending : List NodeId) :
    (executeBlock plan limits evaluate statements pending).Below
      (executeBlock plan wider again statements pending) := by
  induction statements generalizing pending with
  | nil =>
    rw [executeBlock, executeBlock]
    exact .refl _
  | cons statement statements ih =>
    rw [executeBlock, executeBlock]
    refine (each statement List.mem_cons_self pending).bind fun flow => ?_
    cases flow with
    | next pending => exact ih (fun other mem => each other (List.mem_cons_of_mem _ mem)) pending
    | returned value => exact .refl _

include within

theorem execute_below (statement : Node) (pending : List NodeId) :
    (execute plan limits evaluate statement pending).Below
      (execute plan wider again statement pending) := by
  induction statement using Node.children_induction generalizing pending with
  | step statement ih =>
    obtain ⟨id, kind⟩ := statement
    cases kind with
    | branch condition statements =>
      rw [execute, execute]
      dsimp only [Node.kind_mk]
      refine (below condition.id).bind fun value => (Below.refl _).bind fun holds => ?_
      cases holds with
      | false => exact .refl _
      | true =>
        exact executeBlock_below_of (fun inner mem => ih inner (List.mem_cons_of_mem _ mem)) pending
    | loop condition statements =>
      have body : (executeBlock plan limits evaluate statements []).Below
          (executeBlock plan wider again statements []) :=
        executeBlock_below_of (fun inner mem => ih inner (List.mem_cons_of_mem _ mem)) []
      have nothing : (plan.subtree id).filterMap plan.target? = [] :=
        List.filterMap_eq_nil_iff.2 fun inner _ => aimless inner
      rw [execute, execute]
      dsimp only [Node.kind_mk, Node.id_mk]
      rw [nothing, settle_nil, settle_nil]
      refine (Below.refl _).bind fun pending => ?_
      refine (repeatLoop_below _ (Eval.condition_below below condition.id) body within.turns).bind
        fun outcome => ?_
      exact .refl _
    | returnStatement expression? =>
      rw [execute, execute]
      dsimp only [Node.kind_mk]
      cases expression? with
      | none => exact .refl _
      | some expression => exact (below expression.id).bind fun _ => .refl _
    | expressionStatement expression =>
      rw [execute, execute]
      exact executeExpression_below aimless below expression pending
    | variableDecl name type? initializer? =>
      rw [execute, execute]
      dsimp only [Node.kind_mk]
      cases initializer? <;> exact .refl _
    | _ =>
      rw [execute, execute]
      exact .refl _

theorem executeBlock_below (statements : List Node) (pending : List NodeId) :
    (executeBlock plan limits evaluate statements pending).Below
      (executeBlock plan wider again statements pending) :=
  executeBlock_below_of (fun statement _ => execute_below aimless within below statement) pending

end Statement

namespace Call

include aimless within

theorem callClosure_below (closure : Closure) (arguments : Arguments) :
    (callClosure plan limits evaluate closure arguments).Below
      (callClosure plan wider again closure arguments) := by
  rw [callClosure_eq, callClosure_eq]
  refine (Below.refl _).bind fun values => ?_
  exact (Eval.within_below (Statement.executeBlock_below aimless within below _ []) _).bind
    fun _ => .refl _

theorem callValue_below (id : NodeId) (callee : Value) (arguments : Arguments)
    (result : StaticType) :
    (callValue plan limits evaluate id callee arguments result).Below
      (callValue plan wider again id callee arguments result) := by
  unfold callValue
  split
  · exact .refl _
  · refine Step.below_of_get fun machine => ?_
    split
    · exact callClosure_below aimless within below _ arguments
    · exact .refl _
  · exact .refl _
  · exact .refl _
  · exact .refl _

theorem follow_below (id : NodeId) (recipe : Recipe) (values : List Value) :
    (follow plan limits evaluate id recipe values).Below
      (follow plan wider again id recipe values) := by
  cases recipe with
  | call result slots =>
    cases values with
    | nil => exact .refl _
    | cons callee values => exact callValue_below aimless within below id callee _ result
  | shortCircuit decisive first second =>
    refine (below first).bind fun value => (Below.refl _).bind fun holds => ?_
    split
    · exact .refl _
    · exact (below second).bind fun _ => .refl _
  | evaluate other => exact below other
  | condition other => exact (below other).bind fun _ => .refl _
  | evaluateApart other =>
    exact (Below.refl _).bind fun context => (Eval.within_below (below other) _).bind
      fun _ => .refl _
  | _ => exact .refl _

end Call

end

namespace Evaluator

theorem lookup_below {run again : Thunk → Eval Value} (h : ∀ thunk, (run thunk).Below (again thunk))
    (id : NodeId) : (lookup run id).Below (lookup again id) := by
  refine (Below.refl Eval.context).bind fun context => ?_
  split
  · exact .refl _
  · split
    · exact .refl _
    · split
      · exact .refl _
      · exact h _

theorem nested_below {step wider : Eval Value} (h : step.Below wider) (id : NodeId) :
    (nested id step).Below (nested id wider) := by
  rintro ⟨context, session⟩ value after ran
  rw [nested_eq] at ran ⊢
  generalize { context with inProgress := context.inProgress.insert id } = entered at ran ⊢
  cases inner : step ⟨entered, { session with depth := session.depth + 1 }⟩ with
  | mk outcome left =>
    rw [inner] at ran
    cases outcome with
    | error error => cases ran
    | ok result =>
      rw [h _ result left inner]
      exact ran

/-- What is found by an evaluation that may be nested less deep, and under narrower limits, is found
by the other one as well. -/
theorem evaluateWithin_below {evaluator : Evaluator} {limits : Limits}
    (aimless : ∀ id, evaluator.plan.target? id = none) (within : evaluator.limits.Within limits)
    {budget more : Nat} (le : budget ≤ more) (id : NodeId) :
    (evaluator.evaluateWithin budget id).Below
      ({ evaluator with limits }.evaluateWithin more id) := by
  induction budget generalizing more id with
  | zero =>
    have fails (run : Thunk → Eval Value) : (evaluator.evaluateWithin 0 id).Below (lookup run id) :=
      lookup_below (fun thunk => by
        intro machine value after ran
        cases ran) id
    cases more with
    | zero => exact fails _
    | succ more => exact fails _
  | succ budget ih =>
    obtain ⟨more, rfl⟩ := Nat.exists_eq_add_of_le' (Nat.le_trans (Nat.succ_pos budget) le)
    have deeper (id : NodeId) := ih (Nat.le_of_succ_le_succ le) id
    refine lookup_below (fun thunk => nested_below ?_ id) id
    refine (Step.mapM_below deeper).bind fun values => ?_
    exact Call.follow_below aimless within deeper id thunk.recipe values

theorem evaluate_below {evaluator : Evaluator} {limits : Limits}
    (aimless : ∀ id, evaluator.plan.target? id = none) (within : evaluator.limits.Within limits)
    (id : NodeId) : (evaluator.evaluate id).Below ({ evaluator with limits }.evaluate id) :=
  evaluateWithin_below aimless within within.depth id

theorem evaluateOrReport_ok {evaluator : Evaluator} {id : NodeId} {machine after : Machine}
    {value : Value} (h : evaluator.evaluate id machine = (.ok value, after)) :
    evaluator.evaluateOrReport id machine = (.ok (some value), after) := by
  unfold evaluateOrReport
  rw [Step.bind_ok (Eval.attempt_eq h)]
  rfl

end Evaluator

namespace Compilation

/-- The same compilation, to be evaluated under other limits. -/
def withLimits (compilation : Compilation) (limits : Limits) : Compilation :=
  { compilation with evaluator := { compilation.evaluator with limits } }

/-- The limits only matter for evaluation: nothing else in a compilation, and nothing that it
reports, depends on them. -/
theorem ofPrograms_limits (options : Options) (limits : Limits) (rootId : NodeId)
    (programs : List Node) :
    ofPrograms { options with limits } rootId programs =
      (fun compilation => compilation.withLimits limits) <$>
        ofPrograms options rootId programs := by
  simp only [ofPrograms, ofTree, map_bind, map_pure]
  rfl

/-- A tree without assignments has a plan without targets. -/
theorem target?_eq_none {programs : List Node} {options : Options} {rootId : NodeId}
    (assignmentFree : ∀ program ∈ programs, program.AssignmentFree) {before after : Reports}
    {compilation : Compilation}
    (compiled : ofPrograms options rootId programs before = (.ok compilation, after))
    (place : NodeId) : compilation.evaluator.plan.target? place = none := by
  have joinedTree := ofTree_of_ofPrograms compiled
  rw [(consistent_of_ofTree joinedTree).plan, root_of_ofTree joinedTree]
  refine Option.eq_none_iff_forall_ne_some.2 fun declaration planned => ?_
  obtain ⟨node, mem, -, target, value, kind, -⟩ := Plan.assignment_of_target? planned
  rcases mem_preorder_joined mem with rfl | ⟨program, given, below⟩
  · cases kind
  · exact assignmentFree program given node below target value kind

/-- Limits are conservative.  In a program without assignments, whatever value is found under some
limits on a fresh compilation is found under wider limits as well.  The programs compile under the
wider limits to the same reports, and evaluation leaves the same machine: all values and function
values in it are the same, and so are the diagnostics.  The same goes for evaluation that reports
its failures. -/
theorem evaluate_wider {programs : List Node}
    (assignmentFree : ∀ program ∈ programs, program.AssignmentFree) {options : Options}
    {limits : Limits} (within : options.limits.Within limits) {rootId : NodeId}
    {before after : Reports} {compilation : Compilation}
    (compiled : ofPrograms options rootId programs before = (.ok compilation, after))
    {id : NodeId} {value : Value} {machine : Machine}
    (found : compilation.evaluator.evaluate id compilation.start = (.ok value, machine)) :
    ∃ wider, ofPrograms { options with limits } rootId programs before = (.ok wider, after) ∧
      wider.evaluator.evaluate id wider.start = (.ok value, machine) ∧
      wider.evaluator.evaluateOrReport id wider.start = (.ok (some value), machine) ∧
      compilation.evaluator.evaluateOrReport id compilation.start =
        (.ok (some value), machine) := by
  have allows : compilation.evaluator.limits.Within limits := by
    rw [limits_of_ofTree (ofTree_of_ofPrograms compiled)]
    exact within
  have again := Evaluator.evaluate_below (target?_eq_none assignmentFree compiled) allows id
    compilation.start value machine found
  refine ⟨compilation.withLimits limits, ?_, again, Evaluator.evaluateOrReport_ok again,
    Evaluator.evaluateOrReport_ok found⟩
  rw [ofPrograms_limits, map_eq_pure_bind, Step.bind_ok compiled]
  rfl

/-- A function that returns from a loop without an end, and a variable that calls it. -/
def returningLoop : Node :=
  .mk 1 (.program
    [.mk 2 (.functionDecl "leave" [] [] (.mk 3 (.typeName "Boolean" []))
        [.mk 4 (.loop (.mk 5 (.literal (.boolean true)))
          [.mk 6 (.returnStatement (some (.mk 7 (.literal (.boolean true)))))])]),
      .mk 8 (.variableDecl "left" none (some (.mk 9 (.call (.mk 10 (.identifier "leave")) []))))])

/-- One turn and a few nested evaluations are enough for the variable, so its value is the same
without a limit for loops. -/
theorem evaluate_wider_returningLoop :
    let narrow : Options := { limits := { depth := 4, iterations := some 1 } }
    let wide : Limits := { depth := 9 }
    returningLoop.AssignmentFree ∧ narrow.limits.Within wide ∧
    ∃ compilation reports value machine wider,
      ofPrograms narrow 0 [returningLoop] {} = (.ok compilation, reports) ∧
      compilation.evaluator.evaluate 8 compilation.start = (.ok value, machine) ∧
      value.boolean? = some true ∧
      ofPrograms { narrow with limits := wide } 0 [returningLoop] {} = (.ok wider, reports) ∧
      wider.evaluator.evaluate 8 wider.start = (.ok value, machine) := by
  intro narrow wide
  have free : returningLoop.AssignmentFree := by decide +kernel
  have within : narrow.limits.Within wide :=
    Limits.within_of_iterations (by decide) rfl (by rintro most ⟨⟩; decide) nofun
  have checked : ((ofPrograms narrow 0 [returningLoop] {}).1.toOption.bind fun compilation =>
      (compilation.evaluator.evaluate 8 compilation.start).1.toOption.bind Value.boolean?) =
        some true := by
    decide +kernel
  obtain ⟨compilation, compiled, evaluated⟩ := Step.ok_of_toOption checked
  obtain ⟨value, found, holds⟩ := Step.ok_of_toOption evaluated
  obtain ⟨wider, again, same, -⟩ :=
    evaluate_wider (by simpa using free) within compiled found
  exact ⟨free, within, compilation, _, value, _, wider, compiled, found, holds, again, same⟩

end Compilation

end DeclLang
