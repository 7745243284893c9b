import DeclLang.Number.Binary64

/-!
# The shortest decimal of a number

**Input.**  A floating-point number with exact value `m · 2 ^ q`.

**Algorithm.**  All reals between the midpoints to the neighbouring floating-point numbers read
back as the number; the midpoints themselves do if `m` is even.  Grids of decimals are tried from
coarse to fine.  On each grid only the two points around the value matter; the first grid with a
point that reads back wins, and of two such points the nearer, the upper one on a tie.

**Results.**  `text` writes that decimal without an exponent.
-/

namespace DeclLang

namespace Shortest

/-- A positive fraction. -/
structure Ratio where
  numerator : Nat
  denominator : Nat

/-- A power with an integer exponent as a fraction. -/
def power (base : Nat) : Int → Ratio
  | .ofNat e => ⟨base.pow e, 1⟩
  | .negSucc e => ⟨1, base.pow (e + 1)⟩

/-- The reals that read back as a number: `low ≤ x ≤ high` in units of `unit`, the ends included
or not; the number itself is `value` units. -/
structure Interval where
  low : Nat
  value : Nat
  high : Nat
  unit : Ratio
  closed : Bool

/-- The interval of a number with a positive mantissa.  Below a power of two the neighbour is only
half as far away as above it. -/
def interval (mantissa : Nat) (exponent : Int) : Interval where
  low :=
    if mantissa = Binary64.leastNormal && -1074 < exponent then 4 * mantissa - 1
    else 4 * mantissa - 2
  value := 4 * mantissa
  high := 4 * mantissa + 2
  unit := power 2 (exponent - 2)
  closed := mantissa % 2 == 0

/-- Whether `digits · 10 ^ place` lies in the interval. -/
def Interval.contains (i : Interval) (place : Ratio) (digits : Nat) : Bool :=
  let point := digits * place.numerator * i.unit.denominator
  let low := i.low * i.unit.numerator * place.denominator
  let high := i.high * i.unit.numerator * place.denominator
  if i.closed then low ≤ point && point ≤ high else low < point && point < high

/-- The point of the grid with steps of `10 ^ exponent` that reads back, if there is one. -/
def onGrid (i : Interval) (exponent : Int) : Option Nat :=
  let place := power 10 exponent
  let numerator := i.value * i.unit.numerator * place.denominator
  let denominator := i.unit.denominator * place.numerator
  let below := numerator / denominator
  let remainder := numerator % denominator
  match i.contains place below, i.contains place (below + 1) with
  | false, false => none
  | true, false => some below
  | false, true => some (below + 1)
  | true, true => some (if 2 * remainder < denominator then below else below + 1)

/-- Tries grids from coarse to fine, as many as `tries` says. -/
def search (i : Interval) (exponent : Int) : Nat → Nat × Int
  | 0 => (i.value, exponent)
  | tries + 1 =>
    match onGrid i exponent with
    | some digits => (digits, exponent)
    | none => search i (exponent - 1) tries

/-- The shortest decimal `digits · 10 ^ exponent` of a number with a positive mantissa.  The first
grid is coarser than the number; no number needs more than 17 digits. -/
def decimal (mantissa : Nat) (exponent : Int) : Nat × Int :=
  let start := (Nat.log2 mantissa + exponent) * 30103 / 100000 + 2
  search (interval mantissa exponent) start 24

/-- Writes `digits · 10 ^ exponent` without an exponent. -/
def positional (digits : Nat) (exponent : Int) : String :=
  let written := (Nat.repr digits).toList
  match exponent with
  | .ofNat e => String.ofList (written ++ List.replicate e '0')
  | .negSucc e =>
    let places := e + 1
    if places < written.length then
      String.ofList (written.take (written.length - places) ++ '.' ::
        written.drop (written.length - places))
    else
      String.ofList ('0' :: '.' :: List.replicate (places - written.length) '0' ++ written)

end Shortest

namespace Binary64

/-- The shortest decimal that reads back as the value, written without an exponent. -/
def text : Binary64 → String
  | .notANumber => "NaN"
  | .infinite negative => if negative then "-inf" else "inf"
  | .finite negative mantissa exponent =>
    let (digits, place) := if mantissa = 0 then (0, 0) else Shortest.decimal mantissa exponent
    (if negative then "-" else "") ++ Shortest.positional digits place

end Binary64

end DeclLang
