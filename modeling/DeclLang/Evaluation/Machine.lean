import DeclLang.Diagnostics
import DeclLang.Evaluation.Context
import DeclLang.Evaluation.Plan

/-!
# The machine

Evaluation works on one context at a time.  What all contexts of a program share is the session:
how deep evaluations are nested, the functions made so far, and the diagnostics.  A step of the
machine may fail; what it did to context and session until then stays done.
-/

namespace DeclLang

/-- How far evaluation may go. -/
structure Limits where
  /-- The most evaluations that may be nested. -/
  depth : Nat := 512
  /-- The most turns of one loop. -/
  iterations : Option Nat := none
  /-- After how many turns a loop without a limit is given up, so that evaluation always ends. -/
  patience : Nat := 1 <<< 64

/-- A function value: its declaration, its parameters with their defaults, and the context in which
it was made. -/
structure Closure where
  declaration : Node
  parameters : List (Node × Option Value)
  base : Context

/-- What all contexts of a program share. -/
structure Session where
  depth : Nat := 0
  closures : Array Closure := #[]
  tallies : Std.TreeMap Nat Nat := ∅
  diagnostics : Diagnostics := {}

/-- A context at work in a session. -/
structure Machine where
  context : Context := {}
  session : Session := {}

/-- The steps of the machine. -/
abbrev Eval := Step EvalError Machine

namespace Eval

/-- Succeeds or fails as told. -/
def ofExcept {α : Type} : Except EvalError α → Eval α
  | .ok a => pure a
  | .error error => throw error

/-- Takes a step, and goes on with its outcome even if it failed. -/
def attempt {α : Type} (step : Eval α) : Eval (Except EvalError α) := fun machine =>
  let (outcome, machine) := step machine
  (.ok outcome, machine)

/-- Takes a step in another context, and comes back with what became of that context. -/
def within {α : Type} (context : Context) (step : Eval α) : Eval (α × Context) := fun machine =>
  let (outcome, after) := step { machine with context }
  (outcome.map fun a => (a, after.context), { after with context := machine.context })

/-- The current context. -/
def context : Eval Context :=
  return (← get).context

/-- Changes the current context. -/
def change (f : Context → Context) : Eval Unit :=
  modify fun machine => { machine with context := f machine.context }

/-- Changes the session. -/
def changeSession (f : Session → Session) : Eval Unit :=
  modify fun machine => { machine with session := f machine.session }

/-- Reports the failure of a node. -/
def report (id : NodeId) (error : EvalError) : Eval Unit :=
  changeSession fun session => { session with
    diagnostics := session.diagnostics.error (NodeId.text id ++ ": " ++ error.message) }

/-- A value as a condition. -/
def condition (value : Value) : Eval Bool :=
  match value.boolean? with
  | some b => pure b
  | none => throw (.notABoolean value.text)

end Eval

end DeclLang
