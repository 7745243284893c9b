import DeclLang.Value.Operation

/-!
# Native functions

Functions that the language computes itself, by the path of the declaration they stand for.  They
take their arguments by position, and refuse a wrong number or a wrong kind of arguments by the
path.
-/

namespace DeclLang

namespace Builtin

/-- The largest magnitude up to which all integers are floating-point numbers, `2 ^ 53`. -/
def largestExact : Float := 9007199254740992

/-- The most numbers that a range holds, `2 ^ 20`. -/
def longestRange : Nat := 1048576

/-- Whether a range can start or stop at the number: counting by one from there stays exact. -/
def isBound (x : Float) : Bool :=
  -largestExact ≤ x && x ≤ largestExact

/-- The numbers from `start` in steps of one that stay below `stop`. -/
def range (start stop : Float) : Except EvalError Value :=
  if isBound start && isBound stop then
    let length := (((Binary64.ofFloat (stop - start)).ceiling?).getD 0).toNat
    if longestRange < length then .error (.rangeTooLong length longestRange)
    else .ok (.array .number
      ((List.range length).map fun step => .number (start + Float.ofNat step)))
  else .error (.invalidRange start stop)

/-- The item at a position, which has to be a whole number below the length. -/
def itemAt (items : List Value) (index : Float) : Except EvalError Value :=
  let found := match (Binary64.ofFloat index).whole? with
    | some (.ofNat position) => items[position]?
    | _ => none
  match found with
  | some item => .ok item
  | none => .error (.indexOutOfBounds index items.length)

/-- A native function: what it computes from arguments that fit.  Others give nothing. -/
abbrev Native := List Value → Option (Except EvalError Value)

/-- A function of two booleans. -/
def ofBooleans (f : Bool → Bool → Bool) : Native
  | [left, right] => do
    let a ← left.boolean?
    let b ← right.boolean?
    return .ok (.boolean (f a b))
  | _ => none

/-- A function of two numbers. -/
def ofNumbers (f : Float → Float → Except EvalError Value) : Native
  | [left, right] => do
    let x ← left.number?
    let y ← right.number?
    return f x y
  | _ => none

/-- A predicate of two numbers. -/
def ofComparison (f : Float → Float → Bool) : Native :=
  ofNumbers fun x y => .ok (.boolean (f x y))

/-- An arithmetic operator as a function. -/
def ofArithmetic (operator : Operator) : Native :=
  ofNumbers fun x y =>
    (operator.onNumbers? x y).getD
      (.error (.invalidOperands operator (Value.number x).text (Value.number y).text))

/-- A function of two strings, or colors. -/
def ofStrings (f : String → String → Value) : Native
  | [left, right] => do
    let a ← left.text?
    let b ← right.text?
    return .ok (f a b)
  | _ => none

def negation : Native
  | [argument] => argument.boolean?.map fun b => .ok (.boolean !b)
  | _ => none

def arrayAt : Native
  | [array, index] => do
    let items ← array.items?
    let x ← index.number?
    return itemAt items x
  | _ => none

def arrayCount : Native
  | [array] => array.items?.map fun items => .ok (.number (Float.ofNat items.length))
  | _ => none

/-- Every native function by its path. -/
def table : List (String × Native) :=
  [("Boolean.and", ofBooleans (· && ·)),
    ("Boolean.or", ofBooleans (· || ·)),
    ("Boolean.not", negation),
    ("Boolean.isEqual", ofBooleans (· == ·)),
    ("Number.add", ofArithmetic .add),
    ("Number.subtract", ofArithmetic .subtract),
    ("Number.multiply", ofArithmetic .multiply),
    ("Number.divide", ofArithmetic .divide),
    ("Number.isEqual", ofComparison (· == ·)),
    ("Number.isLessThan", ofComparison fun x y => x < y),
    ("Number.isGreaterThan", ofComparison fun x y => x > y),
    ("Number.isLessThanOrEqual", ofComparison fun x y => x ≤ y),
    ("Number.isGreaterThanOrEqual", ofComparison fun x y => x ≥ y),
    ("Number.range", ofNumbers range),
    ("String.isEqual", ofStrings fun a b => .boolean (a == b)),
    ("String.concat", ofStrings fun a b => .string (a ++ b)),
    ("Array.at", arrayAt),
    ("Array.count", arrayCount)]

/-- The paths of all native functions. -/
def paths : List String :=
  table.map Prod.fst

/-- Whether there is a native function with the path. -/
def isPath (path : String) : Bool :=
  paths.contains path

/-- Calls the native function with the path. -/
def call (path : String) (arguments : List Value) : Except EvalError Value :=
  ((table.lookup path).bind fun native => native arguments).getD
    (.error (.invalidBuiltinArguments path))

end Builtin

end DeclLang
