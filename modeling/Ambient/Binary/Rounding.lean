import Ambient.Binary.Number

/-
Rounding to a binary format: the nearest magnitude, of two equally near ones the
one whose last bit is zero, and infinity from half a unit above the greatest
finite magnitude. A decimal number is rounded once, from its exact value.
-/

namespace Ambient.Binary

/-- The natural number nearest to a quotient; of two the even one. -/
def nearestEven (n d : Nat) : Nat :=
  let q := n / d
  let r := n % d
  if 2 * r < d then q
  else if d < 2 * r then q + 1
  else if q % 2 = 0 then q else q + 1

def floorLog2 (n d : Nat) : Int :=
  let k : Int := (Nat.log2 n : Int) - Nat.log2 d
  if d * Nat.pow 2 k.toNat ≤ n * Nat.pow 2 (-k).toNat then k else k - 1

def roundRatio (f : Format) (n d : Nat) : Nat :=
  if n = 0 then 0
  else
    let q := max (floorLog2 n d - f.fractionBits) f.leastScale
    let m := nearestEven (n * Nat.pow 2 (-q).toNat) (d * Nat.pow 2 q.toNat)
    min ((q - f.leastScale).toNat * Nat.pow 2 f.fractionBits + m) f.infinity

/-- The number of decimal digits of a positive number, and zero of zero. -/
def digitCount (n : Nat) : Nat :=
  if n = 0 then 0 else digitCount (n / 10) + 1
termination_by n
decreasing_by omega

/-- The magnitude nearest to `digits * 10 ^ exponent`. Values that are surely too
large or too small are told by their number of digits, whatever the exponent. -/
def roundDecimal (f : Format) (digits : Nat) (exponent : Int) : Nat :=
  if digits = 0 then 0
  else
    let top : Int := exponent + digitCount digits
    if (f.bias : Int) + 1 < top then f.infinity
    else if top < -((f.bias : Int) + f.fractionBits) then 0
    else roundRatio f (digits * Nat.pow 10 exponent.toNat) (Nat.pow 10 (-exponent).toNat)

end Ambient.Binary
