import DeclLang.Compilation
import DeclLang.Proofs.ExecutionInvariants

/-!
# What evaluation and queries keep

**Input.**  A property of contexts and one of function values, and a program that is asked for
something time after time.

**Algorithm.**  `Evaluator.Invariant` lists what has to be shown of the two properties: they survive
whatever evaluation does to one context, and the body of a function value keeps them if evaluation
does.

**Results.**
* `Evaluator.Invariant.evaluateWithin`: evaluation keeps the properties.
* `Evaluator.Invariant.after`: they hold after all queries.
-/

namespace DeclLang

open Step (Keeps Ensures)

/-- All contexts at hand have one property, all function values another. -/
abbrev Machine.All (contexts : Context → Prop) (closures : Closure → Prop) : Machine → Prop :=
  Machine.Has contexts fun made => ∀ closure ∈ made, closures closure

/-- The context in which the body of a function value is executed. -/
def Closure.frame (closure : Closure) (plan : Plan) (values : List Value) : Context :=
  (closure.base.copy.forget (plan.subtree closure.declaration.id)).addValues
    ((closure.parameters.map fun parameter => parameter.1.id).zip values)

/-- The parameters of a function value by name, with their defaults. -/
def Closure.slots (closure : Closure) : List (String × Option Value) :=
  closure.parameters.map fun parameter => (parameter.1.declaredName?.getD "", parameter.2)

/-- The value of a call whose body ended in some way. -/
def Flow.result : Flow → Value
  | .returned value => value
  | .next _ => .unit

namespace Step

variable {ε σ α β : Type} {keeps : σ → Prop}

/-- As many steps as there are items give as many results. -/
theorem mapM_ensures_length {items : List α} {step : α → Step ε σ β}
    (each : ∀ a ∈ items, Keeps keeps (step a)) :
    Ensures keeps (items.mapM step) fun results => results.length = items.length := by
  induction items with
  | nil => exact ensures_pure rfl
  | cons a items ih =>
    rw [List.mapM_cons]
    refine (each a List.mem_cons_self).bind fun result _ => ?_
    refine (ih fun b mem => each b (List.mem_cons_of_mem _ mem)).bind fun results length => ?_
    exact ensures_pure (congrArg Nat.succ length)

end Step

namespace Call

theorem callClosure_eq (plan : Plan) (limits : Limits) (evaluate : NodeId → Eval Value)
    (closure : Closure) (arguments : Arguments) :
    callClosure plan limits evaluate closure arguments = (do
      let values ← Eval.ofExcept (receive closure.slots arguments)
      let (flow, _) ← Eval.within (closure.frame plan values)
        (Statement.executeBlock plan limits evaluate (bodyOf closure.declaration) [])
      return flow.result) := by
  have ends (result : Flow × Context) : (match result with
      | (flow, _) => match flow with
        | .returned value => return value
        | .next _ => return .unit : Eval Value) = return result.1.result := by
    obtain ⟨_ | _, _⟩ := result <;> rfl
  simp only [← ends]
  rfl

/-- A call that receives values executes the body in a context of its own. -/
theorem callClosure_apply (plan : Plan) (limits : Limits) (evaluate : NodeId → Eval Value)
    {closure : Closure} {arguments : Arguments} {values : List Value}
    (received : receive closure.slots arguments = .ok values) (machine : Machine) :
    let ran := Statement.executeBlock plan limits evaluate (bodyOf closure.declaration) []
      ⟨closure.frame plan values, machine.session⟩
    callClosure plan limits evaluate closure arguments machine =
      (ran.1.map Flow.result, ⟨machine.context, ran.2.session⟩) := by
  intro ran
  rw [callClosure_eq, received]
  have given : Eval.ofExcept (.ok values) machine = (.ok values, machine) := rfl
  rw [Step.bind_ok given]
  have within : Eval.within (closure.frame plan values) (Statement.executeBlock plan limits evaluate
      (bodyOf closure.declaration) []) machine =
        (ran.1.map fun flow => (flow, ran.2.context), ⟨machine.context, ran.2.session⟩) := rfl
  cases ended : ran.1 with
  | error error =>
    rw [ended] at within
    rw [Step.bind_error within]
    rfl
  | ok flow =>
    rw [ended] at within
    rw [Step.bind_ok within]
    rfl

/-- A call ends as its body does, in the frame of the values that the parameters receive. -/
theorem callClosure_fst (plan : Plan) (limits : Limits) (evaluate : NodeId → Eval Value)
    (closure : Closure) (arguments : Arguments) (machine : Machine) :
    (callClosure plan limits evaluate closure arguments machine).1 =
      (receive closure.slots arguments).bind fun values =>
        (Statement.executeBlock plan limits evaluate (bodyOf closure.declaration) []
          ⟨closure.frame plan values, machine.session⟩).1.map Flow.result := by
  cases received : receive closure.slots arguments with
  | error error =>
    rw [callClosure_eq, received]
    rfl
  | ok values => exact congrArg Prod.fst (callClosure_apply plan limits evaluate received machine)

section

variable {plan : Plan} {limits : Limits} {evaluate : NodeId → Eval Value}
  {contexts : Context → Prop}

/-- The body of a function works in a context of its own. -/
theorem callValue_keeps (id : NodeId) (callee : Value) (arguments : Arguments)
    (result : StaticType) : Keeps (Machine.Has contexts fun _ => True)
      (callValue plan limits evaluate id callee arguments result) := by
  refine callValue_ensures (fun _ _ _ closure _ => ?_) id callee result
  rw [callClosure_eq]
  exact (Eval.ofExcept_keeps _).bind fun _ _ =>
    (Eval.within_keeps fun _ _ => trivial).bind fun _ _ => Step.ensures_pure trivial

/-- Running a thunk does nothing to the context but evaluate nodes. -/
theorem follow_keeps
    (evaluates : ∀ id, Keeps (Machine.Has contexts fun _ => True) (evaluate id)) (id : NodeId)
    (thunk : Thunk) : Keeps (Machine.Has contexts fun _ => True) (do
      let values ← thunk.dependencies.mapM evaluate
      follow plan limits evaluate id thunk.recipe values) := by
  refine (Step.mapM_keeps fun dependency _ => evaluates dependency).bind fun values _ => ?_
  exact follow_ensures evaluates (fun _ _ _ => Eval.within_keeps fun _ _ => trivial)
    (fun _ _ _ _ _ has => ⟨⟨has.1, trivial⟩, fun _ _ => trivial⟩) id
    fun callee arguments result => callValue_keeps id callee arguments result

end

theorem map_fst_distribute {α : Type} (slots : List (α × Bool)) (values : List Value) :
    (distribute slots values).map Prod.fst = slots.map Prod.fst := by
  induction slots generalizing values with
  | nil => rfl
  | cons slot slots ih =>
    obtain ⟨a, given⟩ := slot
    cases given <;> exact congrArg (a :: ·) (ih _)

end Call

/-- A property of contexts and one of function values that evaluation keeps. -/
structure Evaluator.Invariant (evaluator : Evaluator) (contexts : Context → Prop)
    (closures : Closure → Prop) : Prop where
  copies : ∀ context, contexts context → contexts context.copy
  progresses : ∀ (context : Context) inProgress, contexts context →
    contexts { context with inProgress }
  /-- Nodes with a recipe may get a value. -/
  adds : ∀ before id thunk, contexts before → before.thunk? id = some thunk →
    ∀ context value, contexts context → contexts (context.addValue id value)
  /-- A function is made with the values that its recipe depends on. -/
  makes : ∀ before id thunk name type declaration, contexts before →
    before.thunk? id = some thunk → thunk.recipe = .closure name type declaration →
      ∀ values : List Value, values.length = thunk.dependencies.length →
        ∀ context, contexts context → closures
          { declaration
            parameters := Call.distribute (Call.parametersOf declaration) values
            base := context.copy }
  /-- A body is executed in a frame of its own. -/
  runs : ∀ budget,
    (∀ id, Keeps (Machine.All contexts closures) (evaluator.evaluateWithin budget id)) →
      ∀ closure, closures closure → ∀ values, Keeps (Machine.All contexts closures)
        (Eval.within (closure.frame evaluator.plan values)
          (Statement.executeBlock evaluator.plan evaluator.limits (evaluator.evaluateWithin budget)
            (Call.bodyOf closure.declaration) []))

/-- What a program can be asked for. -/
inductive Query where
  | evaluate (id : NodeId)
  | evaluateCondition (id : NodeId)
  | evaluateOrReport (id : NodeId)
  | evaluatePath (path : String)
  | callFunction (callee : Value) (arguments : Arguments)

/-- The machine after a query. -/
def Query.ask (compilation : Compilation) (machine : Machine) : Query → Machine
  | evaluate id => (compilation.evaluator.evaluate id machine).2
  | evaluateCondition id => (compilation.evaluator.evaluateCondition id machine).2
  | evaluateOrReport id => (compilation.evaluator.evaluateOrReport id machine).2
  | evaluatePath path => (compilation.evaluatePath path machine).2
  | callFunction callee arguments =>
    (compilation.evaluator.callFunction callee arguments machine).2

/-- A query keeps what evaluating, reporting and, if it is a call, calling keep. -/
theorem Query.ask_ensures {compilation : Compilation} {keeps : Machine → Prop} (query : Query)
    (evaluates : ∀ id, Keeps keeps (compilation.evaluator.evaluate id))
    (report : ∀ id error, Keeps keeps (Eval.report id error))
    (calls : ∀ callee arguments, query = .callFunction callee arguments →
      Keeps keeps (Call.callValue compilation.evaluator.plan compilation.evaluator.limits
        (compilation.evaluator.evaluateWithin compilation.evaluator.limits.depth) 0 callee arguments
        .unit))
    {machine : Machine} (has : keeps machine) : keeps (query.ask compilation machine) := by
  have reports (id : NodeId) : Keeps keeps (compilation.evaluator.evaluateOrReport id) := by
    refine (Eval.attempt_keeps (evaluates id)).bind fun outcome _ => ?_
    cases outcome with
    | ok value => exact Step.ensures_pure trivial
    | error error => exact (report id error).bind fun _ _ => Step.ensures_pure trivial
  cases query with
  | evaluate id => exact (evaluates id machine has).1
  | evaluateCondition id =>
    exact ((evaluates id).bind (fun value _ => Eval.condition_keeps value) machine has).1
  | evaluateOrReport id => exact (reports id machine has).1
  | evaluatePath path =>
    have finds : Keeps keeps (compilation.evaluatePath path) := by
      unfold Compilation.evaluatePath
      split
      · exact (reports _).toKeeps
      · exact Step.ensures_pure trivial
    exact (finds machine has).1
  | callFunction callee arguments =>
    have runs : Keeps keeps (compilation.evaluator.callFunction callee arguments) := by
      unfold Evaluator.callFunction
      split
      · exact (calls callee arguments rfl).bind fun _ _ => Step.ensures_pure trivial
      · exact (calls callee arguments rfl).bind fun _ _ => Step.ensures_pure trivial
      · exact Step.ensures_pure trivial
    exact (runs machine has).1

namespace Compilation

/-- The machine after several queries. -/
def after (compilation : Compilation) (queries : List Query) : Machine :=
  queries.foldl (Query.ask compilation) compilation.start

/-- Queries keep what one query keeps. -/
theorem after_ensures {compilation : Compilation} {keeps : Machine → Prop} {queries : List Query}
    (start : keeps compilation.start)
    (asks : ∀ machine, ∀ query ∈ queries, keeps machine →
      keeps (Query.ask compilation machine query)) : keeps (compilation.after queries) := by
  unfold after
  generalize compilation.start = machine at start
  induction queries generalizing machine with
  | nil => exact start
  | cons query queries ih =>
    exact ih (fun machine other mem => asks machine other (List.mem_cons_of_mem _ mem)) _
      (asks machine query List.mem_cons_self start)

end Compilation

namespace Evaluator.Invariant

variable {evaluator : Evaluator} {contexts : Context → Prop} {closures : Closure → Prop}
  (invariant : evaluator.Invariant contexts closures)

include invariant

theorem callValue {budget : Nat}
    (evaluates : ∀ id, Keeps (Machine.All contexts closures) (evaluator.evaluateWithin budget id))
    (id : NodeId) (callee : Value) (arguments : Arguments) (result : StaticType) :
    Keeps (Machine.All contexts closures)
      (Call.callValue evaluator.plan evaluator.limits (evaluator.evaluateWithin budget) id callee
        arguments result) := by
  refine Call.callValue_ensures (fun machine (has : machine.All contexts closures) serial closure
    found => ?_) id callee result
  rw [Call.callClosure_eq]
  exact (Eval.ofExcept_keeps _).bind fun values _ =>
    (invariant.runs budget evaluates closure (has.2 closure (Array.mem_of_getElem? found))
      values).bind fun _ _ => Step.ensures_pure trivial

/-- A new function value is made in the current context. -/
theorem makeClosure {before : Context} {id : NodeId} {thunk : Thunk} (has : contexts before)
    (found : before.thunk? id = some thunk) {name : String} {type : StaticType}
    {declaration : Node} (same : thunk.recipe = .closure name type declaration)
    {values : List Value} (length : values.length = thunk.dependencies.length) :
    Keeps (Machine.All contexts closures) (Call.makeClosure name type declaration values) := by
  refine Eval.ensures_context.bind fun context inContext => Step.ensures_get.bind fun _ _ => ?_
  refine Ensures.bind (Step.ensures_modify fun machine has => ⟨has.1, fun closure mem => ?_⟩)
    fun _ _ => Step.ensures_pure trivial
  rcases Array.mem_push.1 mem with earlier | rfl
  · exact has.2 closure earlier
  · exact invariant.makes before id thunk name type declaration ‹_› found same values length context
      inContext

/-- Evaluation keeps the properties. -/
theorem evaluateWithin (budget : Nat) (id : NodeId) :
    Keeps (Machine.All contexts closures) (evaluator.evaluateWithin budget id) := by
  induction budget generalizing id with
  | zero =>
    exact lookup_keeps fun _ _ _ _ => Step.ensures_get.bind fun _ _ => Step.ensures_throw _
  | succ budget ih =>
    refine lookup_keeps fun before thunk has found =>
      nested_keeps (fun context inProgress _ has => invariant.progresses context inProgress has)
        (invariant.adds before id thunk has found) ?_
    refine (Step.mapM_ensures_length fun dependency _ => ih dependency).bind fun values length => ?_
    exact Call.follow_ensures ih
      (fun context other has =>
        (Eval.ensures_within_has (invariant.copies context has) (ih other)).toKeeps)
      (fun name type declaration same => invariant.makeClosure has found same length) id
      fun callee arguments result => invariant.callValue ih id callee arguments result

end Evaluator.Invariant

/-- The properties hold after all queries, if they hold at the start. -/
theorem Evaluator.Invariant.after {compilation : Compilation} {contexts : Context → Prop}
    {closures : Closure → Prop} (invariant : compilation.evaluator.Invariant contexts closures)
    (start : contexts compilation.context) (queries : List Query) :
    (compilation.after queries).All contexts closures := by
  have empty : compilation.start.All contexts closures :=
    ⟨start, fun _ mem => absurd mem (Array.not_mem_empty _)⟩
  exact Compilation.after_ensures empty fun machine query _ has => query.ask_ensures
    (invariant.evaluateWithin _) Eval.report_keeps
    (fun callee arguments _ => invariant.callValue (invariant.evaluateWithin _) 0 callee arguments
      .unit) has

end DeclLang
