import DeclLang.Evaluation.Error
import DeclLang.Value.Basic

/-!
# Operators on values

What the binary operators compute.  Arithmetic is that of floating-point numbers, except that a
division by zero is an error; any two contents can be compared for equality.
-/

namespace DeclLang

namespace Operator

/-- The result of an arithmetic operator.  The other operators give nothing. -/
def arithmetic? (operator : Operator) (x y : Float) : Option (Except EvalError Float) :=
  match operator with
  | add => some (.ok (x + y))
  | subtract => some (.ok (x - y))
  | multiply => some (.ok (x * y))
  | divide => some (if y == 0 then .error .divisionByZero else .ok (x / y))
  | _ => none

/-- The result of an ordering operator.  The other operators give nothing. -/
def ordering? (operator : Operator) (x y : Float) : Option Bool :=
  match operator with
  | less => some (x < y)
  | greater => some (x > y)
  | lessOrEqual => some (x ≤ y)
  | greaterOrEqual => some (x ≥ y)
  | _ => none

/-- The result of an operator on two numbers. -/
def onNumbers? (operator : Operator) (x y : Float) : Option (Except EvalError Value) :=
  match operator.arithmetic? x y with
  | some result => some (result.map Value.number)
  | none => (operator.ordering? x y).map fun result => .ok (.boolean result)

/-- The result of an operator on two booleans. -/
def onBooleans? (operator : Operator) (a b : Bool) : Option Bool :=
  match operator with
  | and => some (a && b)
  | or => some (a || b)
  | _ => none

/-- The result of an operator on two values. -/
def apply (operator : Operator) (left right : Value) : Except EvalError Value :=
  let unfit := Except.error (.invalidOperands operator left.text right.text)
  match operator with
  | equal => .ok (.boolean (Value.equalContents left.content right.content))
  | notEqual => .ok (.boolean (!Value.equalContents left.content right.content))
  | operator =>
    match left.content, right.content with
    | .number x, .number y => (operator.onNumbers? x y).getD unfit
    | .boolean a, .boolean b =>
      match operator.onBooleans? a b with
      | some result => .ok (.boolean result)
      | none => unfit
    | _, _ => unfit

end Operator

end DeclLang
