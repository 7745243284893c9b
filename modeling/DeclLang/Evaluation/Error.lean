import DeclLang.Number.Shortest
import DeclLang.Syntax.Arguments
import DeclLang.Syntax.Operator

/-!
# Evaluation errors

Why the evaluation of a node fails.  No failure ends a program: what depends on the failing node
has no value, and everything else goes on.
-/

namespace DeclLang

/-- Why a node has no value. -/
inductive EvalError where
  /-- The node has neither a value nor a recipe for one. -/
  | missingValue (id : NodeId)
  /-- The value of the node is needed for itself. -/
  | cycle (id : NodeId)
  | depthExceeded (depth limit : Nat)
  | iterationLimit (limit : Nat)
  /-- A loop without a limit was given up. -/
  | givenUp
  | notABoolean (shown : String)
  | missingArgument (name : String)
  | invalidArguments (error : AlignmentError)
  | invalidBuiltinArguments (path : String)
  | indexOutOfBounds (index : Float) (length : Nat)
  | invalidRange (start stop : Float)
  | rangeTooLong (length limit : Nat)
  | unboundAssignment (id : NodeId)
  | divisionByZero
  | invalidOperands (operator : Operator) (left right : String)
  | notCallable (shown : String)
  deriving DecidableEq, Repr

namespace EvalError

/-- The shortest decimal of a number. -/
def decimal (x : Float) : String :=
  (Binary64.ofFloat x).text

/-- The text of the error. -/
def message : EvalError → String
  | missingValue id => "no value for node " ++ NodeId.text id
  | cycle id => "cycle detected while evaluating node " ++ NodeId.text id
  | depthExceeded depth limit => s!"evaluation depth {depth} exceeds maximum of {limit}"
  | iterationLimit limit => s!"loop exceeded {limit} iterations"
  | givenUp => "loop does not end"
  | notABoolean shown => s!"condition evaluated to {shown}, expected a boolean"
  | missingArgument name => s!"missing argument `{name}`"
  | invalidArguments error => "invalid arguments: " ++ error.message
  | invalidBuiltinArguments path => s!"invalid arguments to builtin `{path}`"
  | indexOutOfBounds index length =>
    "index " ++ decimal index ++ s!" out of bounds (length: {length})"
  | invalidRange start stop =>
    "cannot build a range from " ++ decimal start ++ " to " ++ decimal stop
  | rangeTooLong length limit => s!"range of {length} numbers exceeds the limit of {limit}"
  | unboundAssignment id => "assignment " ++ NodeId.text id ++ " does not target a declaration"
  | divisionByZero => "division by zero"
  | invalidOperands operator left right =>
    "operator `" ++ operator.symbol ++ "` cannot be applied to " ++ left ++ " and " ++ right
  | notCallable shown => shown ++ " is not callable"

end EvalError

end DeclLang
