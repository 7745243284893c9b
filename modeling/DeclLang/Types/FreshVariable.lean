import DeclLang.Types.StaticType

/-!
# Fresh type variables

A supply of type variables that never repeats: the `n`-th name is the stem followed by the numeral
of `n` in base 36.
-/

namespace DeclLang

namespace Numeral36

/-- The digits of a number in base 36, most significant first, without leading zeros. -/
def digits (n : Nat) : List Nat :=
  if n < 36 then [n] else digits (n / 36) ++ [n % 36]
termination_by n
decreasing_by omega

/-- Digits from ten on are written as lower-case letters. -/
def digitChar (digit : Nat) : Char :=
  if digit < 10 then Char.ofNat ('0'.toNat + digit) else Char.ofNat ('a'.toNat + (digit - 10))

/-- The numeral of a number. -/
def ofNat (n : Nat) : String :=
  String.ofList ((digits n).map digitChar)

end Numeral36

/-- A supply of type variables: all names start with the stem, and `next` of them are taken. -/
structure VariableSupply where
  stem : String := "?"
  next : Nat := 0
  deriving Repr

namespace VariableSupply

/-- Takes a name from the supply. -/
def takeName (supply : VariableSupply) : String × VariableSupply :=
  (supply.stem ++ Numeral36.ofNat supply.next, { supply with next := supply.next + 1 })

/-- Takes a variable from the supply. -/
def takeVariable (supply : VariableSupply) : StaticType × VariableSupply :=
  let (name, rest) := supply.takeName
  (.variable name, rest)

/-- Takes several names from the supply. -/
def takeNames (supply : VariableSupply) : Nat → List String × VariableSupply
  | 0 => ([], supply)
  | count + 1 =>
    let (name, rest) := supply.takeName
    let (names, rest) := rest.takeNames count
    (name :: names, rest)

end VariableSupply

end DeclLang
