import DeclLang.Evaluation.Statement
import DeclLang.Value.Builtin

/-!
# Evaluation

**Input.**  A machine, limits and the plan of a program; the identity of a node.

**Algorithm.**  A node with a value has that value.  Otherwise its thunk is run: the dependencies
are evaluated from left to right, then the recipe is followed, and the value is kept.  A node that
is needed for its own value is a cycle; evaluations that are nested too deeply fail.

**Results.**  Everything is defined by recursion on how many further evaluations may be nested, so
evaluation ends on every program.
-/

namespace DeclLang

/-- Arguments of a call in written order, with their labels; one without a value leaves its slot to
the default. -/
abbrev Arguments := List (Option String × Option Value)

namespace Call

/-- Pairs names with values in order, as far as they are said to have one. -/
def distribute {α : Type} : List (α × Bool) → List Value → List (α × Option Value)
  | [], _ => []
  | (a, false) :: slots, values => (a, none) :: distribute slots values
  | (a, true) :: slots, values => (a, values.head?) :: distribute slots values.tail

/-- The value of every slot: its argument, or else its default. -/
def receive (slots : List (String × Option Value)) (arguments : Arguments) :
    Except EvalError (List Value) :=
  match align (slots.map fun slot => { name := slot.1, hasDefault := slot.2.isSome }) arguments with
  | .error error => .error (.invalidArguments error)
  | .ok filled =>
    (slots.zip filled).mapM fun (slot, argument) =>
      match argument.join.or slot.2 with
      | some value => .ok value
      | none => .error (.missingArgument slot.1)

/-- The parameters of a function declaration, and whether each has a default. -/
def parametersOf (declaration : Node) : List (Node × Bool) :=
  match declaration.kind with
  | .functionDecl _ _ parameters _ _ =>
    parameters.map fun parameter =>
      (parameter, (parameter.parameterSlot?.map Slot.hasDefault).getD false)
  | _ => []

/-- The statements of a function declaration. -/
def bodyOf (declaration : Node) : List Node :=
  match declaration.kind with
  | .functionDecl _ _ _ _ body => body
  | _ => []

/-- Makes a function value of a declaration, in the current context. -/
def makeClosure (name : String) (type : StaticType) (declaration : Node) (defaults : List Value) :
    Eval Value := do
  let base := (← Eval.context).copy
  let serial := (← get).session.closures.size
  let parameters := distribute (parametersOf declaration) defaults
  Eval.changeSession fun session =>
    { session with closures := session.closures.push { declaration, parameters, base } }
  return .mk type (.closure name declaration.id serial)

section

variable (plan : Plan) (limits : Limits) (evaluate : NodeId → Eval Value)

/-- Calls a function value: its body is executed in a copy of the context that the function was
made in, with everything below the declaration forgotten and the parameters bound. -/
def callClosure (closure : Closure) (arguments : Arguments) : Eval Value := do
  let slots := closure.parameters.map fun parameter =>
    (parameter.1.declaredName?.getD "", parameter.2)
  let values ← Eval.ofExcept (receive slots arguments)
  let bindings := (closure.parameters.map fun parameter => parameter.1.id).zip values
  let frame := bindings.foldl (fun (frame : Context) (id, value) => frame.addValue id value)
    (closure.base.copy.forget (plan.subtree closure.declaration.id))
  let (flow, _) ← Eval.within frame
    (Statement.executeBlock plan limits evaluate (bodyOf closure.declaration) [])
  match flow with
  | .returned value => return value
  | .next _ => return .unit

/-- Calls a value.  A record or an enumeration value gets the given type; calling something that
cannot be called is reported and gives the unit value. -/
def callValue (id : NodeId) (callee : Value) (arguments : Arguments) (result : StaticType) :
    Eval Value := do
  match callee.content with
  | .builtin path => Eval.ofExcept (Builtin.call path (arguments.filterMap Prod.snd))
  | .closure _ declaration serial =>
    match (← get).session.closures[serial]? with
    | some closure => callClosure plan limits evaluate closure arguments
    | none => throw (.missingValue declaration)
  | .recordConstructor _ fields =>
    let values ← Eval.ofExcept (receive fields arguments)
    return .mk result (.record ((fields.map Prod.fst).zip values))
  | .caseConstructor caseName =>
    return .mk result (.enumeration caseName (arguments.filterMap Prod.snd))
  | _ =>
    Eval.report id (.notCallable callee.text)
    return .unit

/-- Follows the recipe of a node, given the values of its dependencies. -/
def follow (id : NodeId) (recipe : Recipe) (values : List Value) : Eval Value := do
  match recipe with
  | .relay =>
    match values with
    | value :: _ => return value
    | [] => throw (.missingValue id)
  | .array type => return .mk type (.array values)
  | .closure name type declaration => makeClosure name type declaration values
  | .recordConstructor type record fields =>
    return .mk type (.recordConstructor record (distribute fields values))
  | .call result slots =>
    match values with
    | callee :: values => callValue plan limits evaluate id callee (distribute slots values) result
    | [] => throw (.missingValue id)
  | .operation operator =>
    match values with
    | [left, right] => Eval.ofExcept (operator.apply left right)
    | _ => throw (.missingValue id)
  | .shortCircuit decisive first second =>
    let holds ← Eval.condition (← evaluate first)
    if holds = decisive then return .boolean holds
    else return .boolean (← Eval.condition (← evaluate second))
  | .failure error => throw error
  | .compute function => Eval.ofExcept (function values)
  | .evaluate other => evaluate other
  | .condition other => return .boolean (← Eval.condition (← evaluate other))
  | .evaluateApart other =>
    let (value, _) ← Eval.within (← Eval.context).copy (evaluate other)
    return value
  | .tally key =>
    let count := (← get).session.tallies[key]?.getD 0 + 1
    Eval.changeSession fun session => { session with tallies := session.tallies.insert key count }
    return .number (Float.ofNat count)

end

end Call

/-- What a machine is set up with: the plan of its program, and its limits. -/
structure Evaluator where
  plan : Plan := {}
  limits : Limits := {}

namespace Evaluator

/-- The value of a node if it is known, else the outcome of running its thunk. -/
def lookup (run : Thunk → Eval Value) (id : NodeId) : Eval Value := do
  let context ← Eval.context
  match context.value? id with
  | some value => return value
  | none =>
    match context.thunk? id with
    | none => throw (.missingValue id)
    | some thunk =>
      if context.inProgress.contains id then throw (.cycle id) else run thunk

/-- Takes a step one level deeper while the node counts as being evaluated, and keeps the value. -/
def nested (id : NodeId) (step : Eval Value) : Eval Value := do
  let depth := (← get).session.depth
  Eval.change fun context => { context with inProgress := context.inProgress.insert id }
  Eval.changeSession fun session => { session with depth := depth + 1 }
  let outcome ← Eval.attempt step
  Eval.changeSession fun session => { session with depth }
  Eval.change fun context => { context with inProgress := context.inProgress.erase id }
  let value ← Eval.ofExcept outcome
  Eval.change fun context => context.addValue id value
  return value

/-- Evaluates a node, when as many further evaluations may be nested as `budget` says. -/
def evaluateWithin (evaluator : Evaluator) : Nat → NodeId → Eval Value
  | 0, id =>
    lookup (fun _ => do
      throw (.depthExceeded ((← get).session.depth + 1) evaluator.limits.depth)) id
  | budget + 1, id =>
    lookup (fun thunk => nested id do
      let values ← thunk.dependencies.mapM (evaluator.evaluateWithin budget)
      Call.follow evaluator.plan evaluator.limits (evaluator.evaluateWithin budget) id
        thunk.recipe values) id

/-- Evaluates a node. -/
def evaluate (evaluator : Evaluator) (id : NodeId) : Eval Value :=
  evaluator.evaluateWithin evaluator.limits.depth id

/-- Evaluates a node as a condition. -/
def evaluateCondition (evaluator : Evaluator) (id : NodeId) : Eval Bool := do
  Eval.condition (← evaluator.evaluate id)

/-- Evaluates a node, and reports a failure. -/
def evaluateOrReport (evaluator : Evaluator) (id : NodeId) : Eval (Option Value) := do
  match ← Eval.attempt (evaluator.evaluate id) with
  | .ok value => return some value
  | .error error =>
    Eval.report id error
    return none

/-- Calls a function value or a native function; gives nothing for any other value. -/
def callFunction (evaluator : Evaluator) (callee : Value) (arguments : Arguments) :
    Eval (Option Value) := do
  match callee.content with
  | .closure .. | .builtin _ =>
    let evaluate := evaluator.evaluateWithin evaluator.limits.depth
    return some (← Call.callValue evaluator.plan evaluator.limits evaluate 0 callee arguments .unit)
  | _ => return none

end Evaluator

end DeclLang
