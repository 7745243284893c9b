/-!
# Numbers as exact values

A floating-point number of 64 bits is either no number, an infinity, or exactly
`±mantissa · 2 ^ exponent`.  Everything that depends on the exact value (is it whole, which whole
number comes next above it, how is it written) is computed from this form, in integers.
-/

namespace DeclLang

/-- The exact value of a floating-point number. -/
inductive Binary64 where
  | notANumber
  | infinite (negative : Bool)
  | finite (negative : Bool) (mantissa : Nat) (exponent : Int)
  deriving DecidableEq, Repr

namespace Binary64

/-- The least mantissa of a number that is not subnormal, `2 ^ 52`. -/
def leastNormal : Nat := 1 <<< 52

/-- Reads sign, exponent and fraction off the 64 bits. -/
def ofBits (bits : Nat) : Binary64 :=
  let negative := (bits >>> 63) % 2 == 1
  let biased : Nat := (bits >>> 52) % 2048
  let fraction : Nat := bits % leastNormal
  if biased = 2047 then
    if fraction = 0 then .infinite negative else .notANumber
  else if biased = 0 then .finite negative fraction (-1074)
  else .finite negative (leastNormal + fraction) (biased - 1075)

def ofFloat (x : Float) : Binary64 :=
  ofBits x.toBits.toNat

/-- A number with its sign. -/
def signed (negative : Bool) (magnitude : Nat) : Int :=
  if negative then -magnitude else magnitude

/-- The integer that the value is equal to. -/
def whole? : Binary64 → Option Int
  | .finite negative mantissa exponent =>
    match exponent with
    | .ofNat e => some (signed negative (mantissa <<< e))
    | .negSucc e =>
      let magnitude := mantissa >>> (e + 1)
      if magnitude <<< (e + 1) = mantissa then some (signed negative magnitude) else none
  | _ => none

/-- The least integer that is not below the value. -/
def ceiling? : Binary64 → Option Int
  | .finite negative mantissa exponent =>
    match exponent with
    | .ofNat e => some (signed negative (mantissa <<< e))
    | .negSucc e => some (-((-signed negative mantissa) >>> (e + 1)))
  | _ => none

end Binary64

end DeclLang
