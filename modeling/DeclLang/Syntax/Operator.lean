/-!
# Binary operators

The twelve binary operators, their spelling and the two families that the type rules and the
evaluator distinguish: arithmetic and ordering.
-/

namespace DeclLang

/-- The operator of a binary expression. -/
inductive Operator where
  | add
  | subtract
  | multiply
  | divide
  | equal
  | notEqual
  | less
  | greater
  | lessOrEqual
  | greaterOrEqual
  | and
  | or
  deriving DecidableEq, Repr, Inhabited

namespace Operator

/-- How the operator is written in a program. -/
def symbol : Operator → String
  | add => "+"
  | subtract => "-"
  | multiply => "*"
  | divide => "/"
  | equal => "=="
  | notEqual => "!="
  | less => "<"
  | greater => ">"
  | lessOrEqual => "<="
  | greaterOrEqual => ">="
  | and => "and"
  | or => "or"

/-- Every operator, arithmetic first. -/
def all : List Operator :=
  [add, subtract, multiply, divide, equal, notEqual, less, greater, lessOrEqual, greaterOrEqual,
    and, or]

/-- The operator with a given spelling. -/
def ofSymbol? (text : String) : Option Operator :=
  all.find? fun operator => operator.symbol == text

/-- Operators that take two numbers to a number. -/
def isArithmetic : Operator → Bool
  | add | subtract | multiply | divide => true
  | _ => false

/-- Operators that compare two numbers by size. -/
def isOrdering : Operator → Bool
  | less | greater | lessOrEqual | greaterOrEqual => true
  | _ => false

theorem ofSymbol?_symbol (operator : Operator) : ofSymbol? operator.symbol = some operator := by
  cases operator <;> decide +kernel

end Operator

end DeclLang
