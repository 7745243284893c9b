import Std.Data.TreeSet
import DeclLang.Evaluation.Error
import DeclLang.Value.Basic

/-!
# Evaluation contexts

What is known about every node while a program is evaluated: its value, or a thunk from which the
value can be computed.  A thunk names the nodes it depends on and says in a recipe what to do with
their values; the recipes of a program are data, so contexts can be copied and compared step by
step.

A context also remembers which nodes are being evaluated, to notice cycles, and which declarations
were assigned, so that the context around a loop can take the assignments over.
-/

namespace DeclLang

/-- What to do with the values of the dependencies of a thunk. -/
inductive Recipe where
  /-- Take the first of them. -/
  | relay
  /-- Collect them in an array of a type. -/
  | array (type : StaticType)
  /-- Make a function of a declaration; they are the defaults of its parameters. -/
  | closure (name : String) (type : StaticType) (declaration : Node)
  /-- Make the constructor of a record from its fields, some of which have a default. -/
  | recordConstructor (type : StaticType) (record : NodeId) (fields : List (String × Bool))
  /-- Call the first of them with the others; an argument without a value is left to its default. -/
  | call (result : StaticType) (slots : List (Option String × Bool))
  /-- Apply an operator to two of them. -/
  | operation (operator : Operator)
  /-- Evaluate a condition, and a second one unless the first is decisive. -/
  | shortCircuit (decisive : Bool) (first second : NodeId)
  /-- Fail. -/
  | failure (error : EvalError)
  /-- Apply a function to them. -/
  | compute (function : List Value → Except EvalError Value)
  /-- Evaluate a node in the same context. -/
  | evaluate (id : NodeId)
  /-- Evaluate a condition in the same context. -/
  | condition (id : NodeId)
  /-- Evaluate a node in a copy of the context. -/
  | evaluateApart (id : NodeId)
  /-- Count how often this happens. -/
  | tally (key : Nat)
  deriving Inhabited

/-- A deferred computation. -/
structure Thunk where
  dependencies : List NodeId
  recipe : Recipe
  deriving Inhabited

/-- Values and thunks by node. -/
structure Context where
  values : Std.TreeMap NodeId Value := ∅
  thunks : Std.TreeMap NodeId Thunk := ∅
  inProgress : Std.TreeSet NodeId := ∅
  rebound : Std.TreeSet NodeId := ∅

namespace Context

/-- The value of a node, if it is known already. -/
def value? (context : Context) (id : NodeId) : Option Value :=
  context.values[id]?

/-- The thunk of a node. -/
def thunk? (context : Context) (id : NodeId) : Option Thunk :=
  context.thunks[id]?

def addValue (context : Context) (id : NodeId) (value : Value) : Context :=
  { context with values := context.values.insert id value }

def addThunk (context : Context) (id : NodeId) (thunk : Thunk) : Context :=
  { context with thunks := context.thunks.insert id thunk }

/-- A context with the same values and thunks, in which nothing is being evaluated and nothing is
assigned. -/
def copy (context : Context) : Context :=
  { values := context.values, thunks := context.thunks }

/-- Gives a declaration a new value, and remembers that. -/
def rebind (context : Context) (id : NodeId) (value : Value) : Context :=
  { context with
    values := context.values.insert id value
    rebound := context.rebound.insert id }

/-- Takes over every assignment made in another context. -/
def adopt (context other : Context) : Context :=
  other.rebound.toList.foldl (fun context id =>
    match other.value? id with
    | some value => context.rebind id value
    | none => context) context

/-- Drops the values of nodes that have a thunk, so that they are computed again. -/
def forget (context : Context) (ids : List NodeId) : Context :=
  { context with
    values := ids.foldl (fun values id =>
      if context.thunks.contains id then values.erase id else values) context.values }

end Context

end DeclLang
