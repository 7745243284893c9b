import DeclLang.Evaluation.Machine

/-!
# Statements

**Input.**  The statements of a function, a context in which its parameters are bound, and a way to
evaluate nodes.

**Algorithm.**  Statements are executed in order.  The initializer of a local variable is not
evaluated where it stands but when the variable is first read; until then the variable is pending.
So that it still sees the values of its own place, a pending variable whose initializer reads, or
depends on, a declaration about to be assigned is settled first: it is evaluated, and if that fails
the failure is kept for whoever reads it.  Every turn of a loop runs in a copy of the context in
which everything inside the loop is forgotten; afterwards the context takes over the assignments.

**Results.**  Either the statements end, leaving pending variables, or a value is returned.
-/

namespace DeclLang

/-- How statements end. -/
inductive Flow where
  | next (pending : List NodeId)
  | returned (value : Value)

namespace Statement

section

variable (plan : Plan) (limits : Limits) (evaluate : NodeId → Eval Value)

/-- Settles the pending variables that depend on affected declarations, and gives back the others.
A settled variable is itself affected for those that follow. -/
def settle (affected : List NodeId) : List NodeId → Eval (List NodeId)
  | [] => return []
  | first :: pending => do
    if (plan.readsOf first).any affected.contains then
      if let .error error ← Eval.attempt (evaluate first) then
        Eval.change fun context =>
          context.addThunk first { dependencies := [], recipe := .failure error }
      settle (first :: affected) pending
    else
      return first :: (← settle affected pending)

/-- The failure of a loop that goes on beyond its limit. -/
def overrun : EvalError :=
  match limits.iterations with
  | some limit => .iterationLimit limit
  | none => .givenUp

/-- Opens a turn of a loop: evaluates its condition in a copy of the context in which the nodes of
the subtree are computed anew. -/
def openTurn (subtree : List NodeId) (condition : Eval Bool) : Eval (Bool × Context) := do
  Eval.within ((← Eval.context).copy.forget subtree) condition

/-- Runs a loop whose condition may hold as often as `turns` says.  The outcome is the value that
the body returned, if it did. -/
def repeatLoop (subtree : List NodeId) (condition : Eval Bool) (body : Eval Flow) :
    Nat → Eval (Option Value)
  | 0 => do
    let (holds, _) ← openTurn subtree condition
    if holds then throw (overrun limits) else return none
  | turns + 1 => do
    let (holds, turn) ← openTurn subtree condition
    if holds then
      match ← Eval.within turn body with
      | (.returned value, _) => return some value
      | (.next _, turn) =>
        Eval.change fun context => context.adopt turn
        repeatLoop subtree condition body turns
    else
      return none

/-- Executes an expression as a statement.  An assignment settles the variables that depend on its
target before it evaluates the new value. -/
def executeExpression (expression : Node) (pending : List NodeId) : Eval Flow := do
  match expression.kind with
  | .assignment _ value =>
    match plan.target? expression.id with
    | none => throw (.unboundAssignment expression.id)
    | some target =>
      let pending ← settle plan evaluate [target] pending
      let value ← evaluate value.id
      Eval.change fun context => context.rebind target value
      return .next pending
  | _ =>
    let _ ← evaluate expression.id
    return .next pending

mutual

/-- Executes a statement. -/
def execute (statement : Node) (pending : List NodeId) : Eval Flow := do
  match _h : statement.kind with
  | .branch condition block =>
    if ← Eval.condition (← evaluate condition.id) then
      executeBlock block pending
    else
      return .next pending
  | .loop condition block =>
    let subtree := plan.subtree statement.id
    let pending ← settle plan evaluate (subtree.filterMap plan.target?) pending
    let turns := limits.iterations.getD limits.patience
    let outcome ← repeatLoop limits subtree (do Eval.condition (← evaluate condition.id))
      (executeBlock block []) turns
    match outcome with
    | some value => return .returned value
    | none => return .next pending
  | .returnStatement expression? =>
    match expression? with
    | some expression => return .returned (← evaluate expression.id)
    | none => return .returned .unit
  | .expressionStatement expression => executeExpression plan evaluate expression pending
  | .variableDecl _ _ (some _) => return .next (pending ++ [statement.id])
  | _ => return .next pending
termination_by sizeOf statement
decreasing_by
  all_goals
    obtain ⟨id, kind⟩ := statement
    simp only [Node.kind_mk] at _h
    subst _h
    simp
    omega

/-- Executes statements in order until one returns. -/
def executeBlock (statements : List Node) (pending : List NodeId) : Eval Flow := do
  match statements with
  | [] => return .next pending
  | statement :: statements =>
    match ← execute statement pending with
    | .next pending => executeBlock statements pending
    | .returned value => return .returned value
termination_by sizeOf statements

end

end

end Statement

end DeclLang
