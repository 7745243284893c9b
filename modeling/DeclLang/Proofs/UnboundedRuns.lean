import DeclLang.Evaluation.Evaluate

/-!
# Runs without a bound

Evaluation as it goes when nothing but its own two counters can end it.

**Algorithm.**  A run takes the steps of evaluation, except that no recursion is bounded in advance.
Every evaluation reads the depth counter that all contexts share and refuses to go below the limit;
a loop goes round until its condition fails or its turns are used up, and forever if their number is
not limited.  Nothing says that a run ends.  It is therefore followed only for a while: `fuel` is
how many evaluations inside each other, and how many turns of one loop, are looked at.

Every change that a run makes is watched, so that a property of all its moments can be stated: a run
that comes to a session which the watch does not allow is over.
-/

namespace DeclLang

/-- Why a run is not followed any further. -/
inductive Halt where
  /-- It goes on, but nobody looks. -/
  | unfinished
  /-- It came to a session that the watch does not allow. -/
  | forbidden
  deriving DecidableEq, Repr

/-- Steps that may fail, like those of the machine, and that need not come to an end. -/
abbrev Run := ExceptT EvalError (StateT Machine (Except Halt))

namespace Run

variable {α : Type}

/-- A run that is not looked at. -/
def unfinished : Run α := fun _ => .error .unfinished

/-- Takes a run to its end, and goes on with its outcome even if it failed. -/
def attempt (run : Run α) : Run (Except EvalError α) := fun machine =>
  (run machine).map fun (outcome, after) => (.ok outcome, after)

/-- Takes a run in another context, and comes back with what became of that context. -/
def within (context : Context) (run : Run α) : Run (α × Context) := fun machine =>
  (run { machine with context }).map fun (outcome, after) =>
    (outcome.map fun a => (a, after.context), { after with context := machine.context })

/-- The current context. -/
def context : Run Context :=
  return (← get).context

section Watched

variable (watch : Session → Bool)

/-- Takes a single step of the machine and watches what has become of the session. -/
def take (step : Eval α) : Run α := fun machine =>
  let (outcome, after) := step machine
  if watch after.session then .ok (outcome, after) else .error .forbidden

variable (plan : Plan) (limits : Limits) (fuel : Nat) (evaluate : NodeId → Run Value)

/-- Settles the pending variables that depend on affected declarations. -/
def settle (affected : List NodeId) : List NodeId → Run (List NodeId)
  | [] => return []
  | first :: pending => do
    if (plan.readsOf first).any affected.contains then
      if let .error error ← attempt (evaluate first) then
        take watch (Eval.change fun context =>
          context.addThunk first { dependencies := [], recipe := .failure error })
      settle (first :: affected) pending
    else
      return first :: (← settle affected pending)

/-- Opens a turn of a loop. -/
def openTurn (subtree : List NodeId) (condition : Run Bool) : Run (Bool × Context) := do
  within ((← context).copy.forget subtree) condition

/-- Goes round in a loop, of which `turn` turns are behind.  Only a limit or the condition ends
it. -/
def repeatLoop (subtree : List NodeId) (condition : Run Bool) (body : Run Flow) :
    Nat → Nat → Run (Option Value)
  | 0, _ => unfinished
  | fuel + 1, turn => do
    let (holds, opened) ← openTurn subtree condition
    if holds then
      match limits.iterations.filter (· ≤ turn) with
      | some limit => throw (.iterationLimit limit)
      | none =>
        match ← within opened body with
        | (.returned value, _) => return some value
        | (.next _, closed) =>
          take watch (Eval.change fun context => context.adopt closed)
          repeatLoop subtree condition body fuel (turn + 1)
    else
      return none

/-- Evaluates a node as a condition. -/
def test (id : NodeId) : Run Bool := do
  take watch (Eval.condition (← evaluate id))

/-- Executes an expression as a statement. -/
def executeExpression (expression : Node) (pending : List NodeId) : Run Flow := do
  match expression.kind with
  | .assignment _ value =>
    match plan.target? expression.id with
    | none => throw (.unboundAssignment expression.id)
    | some target =>
      let pending ← settle watch plan evaluate [target] pending
      let value ← evaluate value.id
      take watch (Eval.change fun context => context.rebind target value)
      return .next pending
  | _ =>
    let _ ← evaluate expression.id
    return .next pending

mutual

/-- Executes a statement. -/
def execute (statement : Node) (pending : List NodeId) : Run Flow := do
  match _h : statement.kind with
  | .branch condition block =>
    if ← test watch evaluate condition.id then
      executeBlock block pending
    else
      return .next pending
  | .loop condition block =>
    let subtree := plan.subtree statement.id
    let pending ← settle watch plan evaluate (subtree.filterMap plan.target?) pending
    let outcome ← repeatLoop watch limits subtree (test watch evaluate condition.id)
      (executeBlock block []) fuel 0
    match outcome with
    | some value => return .returned value
    | none => return .next pending
  | .returnStatement expression? =>
    match expression? with
    | some expression => return .returned (← evaluate expression.id)
    | none => return .returned .unit
  | .expressionStatement expression => executeExpression watch plan evaluate expression pending
  | .variableDecl _ _ (some _) => return .next (pending ++ [statement.id])
  | _ => return .next pending
termination_by sizeOf statement
decreasing_by
  all_goals
    obtain ⟨id, kind⟩ := statement
    simp only [Node.kind_mk] at _h
    subst _h
    simp
    omega

/-- Executes statements in order until one returns. -/
def executeBlock (statements : List Node) (pending : List NodeId) : Run Flow := do
  match statements with
  | [] => return .next pending
  | statement :: statements =>
    match ← execute statement pending with
    | .next pending => executeBlock statements pending
    | .returned value => return .returned value
termination_by sizeOf statements

end

/-- Calls a function value. -/
def callClosure (closure : Closure) (arguments : Arguments) : Run Value := do
  let slots := closure.parameters.map fun parameter =>
    (parameter.1.declaredName?.getD "", parameter.2)
  let values ← take watch (Eval.ofExcept (Call.receive slots arguments))
  let bindings := (closure.parameters.map fun parameter => parameter.1.id).zip values
  let frame := bindings.foldl (fun (frame : Context) (id, value) => frame.addValue id value)
    (closure.base.copy.forget (plan.subtree closure.declaration.id))
  let (flow, _) ← within frame
    (executeBlock watch plan limits fuel evaluate (Call.bodyOf closure.declaration) [])
  match flow with
  | .returned value => return value
  | .next _ => return .unit

/-- Calls a value. -/
def callValue (id : NodeId) (callee : Value) (arguments : Arguments) (result : StaticType) :
    Run Value := do
  match callee.content with
  | .builtin path => take watch (Eval.ofExcept (Builtin.call path (arguments.filterMap Prod.snd)))
  | .closure _ declaration serial =>
    match (← get).session.closures[serial]? with
    | some closure => callClosure watch plan limits fuel evaluate closure arguments
    | none => throw (.missingValue declaration)
  | .recordConstructor _ fields =>
    let values ← take watch (Eval.ofExcept (Call.receive fields arguments))
    return .mk result (.record ((fields.map Prod.fst).zip values))
  | .caseConstructor caseName =>
    return .mk result (.enumeration caseName (arguments.filterMap Prod.snd))
  | _ =>
    take watch (Eval.report id (.notCallable callee.text))
    return .unit

/-- Follows the recipe of a node, given the values of its dependencies. -/
def follow (id : NodeId) (recipe : Recipe) (values : List Value) : Run Value := do
  match recipe with
  | .relay =>
    match values with
    | value :: _ => return value
    | [] => throw (.missingValue id)
  | .array type => return .mk type (.array values)
  | .closure name type declaration => take watch (Call.makeClosure name type declaration values)
  | .recordConstructor type record fields =>
    return .mk type (.recordConstructor record (Call.distribute fields values))
  | .call result slots =>
    match values with
    | callee :: values =>
      callValue watch plan limits fuel evaluate id callee (Call.distribute slots values) result
    | [] => throw (.missingValue id)
  | .operation operator =>
    match values with
    | [left, right] => take watch (Eval.ofExcept (operator.apply left right))
    | _ => throw (.missingValue id)
  | .shortCircuit decisive first second =>
    let holds ← test watch evaluate first
    if holds = decisive then return .boolean holds
    else return .boolean (← test watch evaluate second)
  | .failure error => throw error
  | .compute function => take watch (Eval.ofExcept (function values))
  | .evaluate other => evaluate other
  | .condition other => return .boolean (← test watch evaluate other)
  | .evaluateApart other =>
    let (value, _) ← within (← context).copy (evaluate other)
    return value
  | .tally key =>
    let count := (← get).session.tallies[key]?.getD 0 + 1
    take watch (Eval.changeSession fun session =>
      { session with tallies := session.tallies.insert key count })
    return .number (Float.ofNat count)

/-- The value of a node if it is known, else the outcome of running its thunk. -/
def lookup (thunkRun : Thunk → Run Value) (id : NodeId) : Run Value := do
  let context ← context
  match context.value? id with
  | some value => return value
  | none =>
    match context.thunk? id with
    | none => throw (.missingValue id)
    | some thunk =>
      if context.inProgress.contains id then throw (.cycle id) else thunkRun thunk

/-- Goes one level deeper while the node counts as being evaluated, and keeps the value. -/
def nested (id : NodeId) (run : Run Value) : Run Value := do
  let depth := (← get).session.depth
  take watch (Eval.change fun context =>
    { context with inProgress := context.inProgress.insert id })
  take watch (Eval.changeSession fun session => { session with depth := depth + 1 })
  let outcome ← attempt run
  take watch (Eval.changeSession fun session => { session with depth })
  take watch (Eval.change fun context => { context with inProgress := context.inProgress.erase id })
  let value ← take watch (Eval.ofExcept outcome)
  take watch (Eval.change fun context => context.addValue id value)
  return value

end Watched

end Run

namespace Evaluator

/-- Evaluates a node, as far as the fuel reaches.  The recursion checks nothing but the depth
counter. -/
def run (evaluator : Evaluator) (watch : Session → Bool) : Nat → NodeId → Run Value
  | 0, _ => Run.unfinished
  | fuel + 1, id =>
    Run.lookup (fun thunk => do
      let depth := (← get).session.depth + 1
      if evaluator.limits.depth < depth then
        throw (.depthExceeded depth evaluator.limits.depth)
      else
        Run.nested watch id do
          let values ← thunk.dependencies.mapM (evaluator.run watch fuel)
          Run.follow watch evaluator.plan evaluator.limits fuel (evaluator.run watch fuel) id
            thunk.recipe values) id

/-- Calls a function value or a native function, as far as the fuel reaches. -/
def runFunction (evaluator : Evaluator) (watch : Session → Bool) (fuel : Nat) (callee : Value)
    (arguments : Arguments) : Run (Option Value) := do
  match callee.content with
  | .closure .. | .builtin _ =>
    return some (← Run.callValue watch evaluator.plan evaluator.limits fuel
      (evaluator.run watch fuel) 0 callee arguments .unit)
  | _ => return none

end Evaluator

end DeclLang
