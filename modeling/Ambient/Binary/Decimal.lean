import Ambient.Binary.Rounding
import Ambient.Text.Ascii
import Ambient.Text.Decimal

/-
Numbers of a binary format as decimal text. A finite number is written with the
fewest digits that read back, and of these with the nearest; of two equally near
ones with the greater. The text is positional, without an exponent, and has no
point if the value is a whole number. Reading also takes an exponent, and the
names of infinity and of what is no number in any case.
-/

namespace Ambient.Binary

open Ambient.Text

/-- A decimal number `digits * 10 ^ exponent`. -/
structure Scaled where
  digits : Nat
  exponent : Int
deriving DecidableEq

def ratio (f : Format) (magnitude : Nat) : Nat × Nat :=
  let q := scale f magnitude
  (significand f magnitude * Nat.pow 2 q.toNat, Nat.pow 2 (-q).toNat)

def floorLog10 (n d : Nat) : Int :=
  if d ≤ n then (digitCount (n / d) : Int) - 1 else -(digitCount ((d - 1) / n) : Int)

/-- The neighbours of a quotient among the multiples of `10 ^ exponent`, the nearer
one first, and the greater one if both are equally near. -/
def neighbours (n d : Nat) (exponent : Int) : List Scaled :=
  let n' := n * Nat.pow 10 (-exponent).toNat
  let d' := d * Nat.pow 10 exponent.toNat
  let below : Scaled := ⟨n' / d', exponent⟩
  let above : Scaled := ⟨n' / d' + 1, exponent⟩
  if 2 * (n' % d') < d' then [below, above] else [above, below]

def readsBack (f : Format) (magnitude : Nat) (x : Scaled) : Bool :=
  roundDecimal f x.digits x.exponent == magnitude

def enoughDigits : Nat := 17

def exactDecimal (f : Format) (magnitude : Nat) : Scaled :=
  let q := scale f magnitude
  if 0 ≤ q then ⟨significand f magnitude * Nat.pow 2 q.toNat, 0⟩
  else ⟨significand f magnitude * Nat.pow 5 (-q).toNat, q⟩

def shortest (f : Format) (magnitude : Nat) : Scaled :=
  if magnitude = 0 then ⟨0, 0⟩
  else
    let (n, d) := ratio f magnitude
    let top := floorLog10 n d
    let candidates := (List.range enoughDigits).flatMap fun i : Nat => neighbours n d (top - i)
    (candidates.find? (readsBack f magnitude)).getD (exactDecimal f magnitude)

/-- The last `width` digits of a number in decimal. -/
def lastDigits : (width : Nat) → (n : Nat) → List Char
  | 0, _ => []
  | w + 1, n => lastDigits w (n / 10) ++ [digitOf (n % 10)]

/-- Positional text: no exponent, and no zeros at the end of the fraction. -/
def positional (x : Scaled) : List Char :=
  if 0 ≤ x.exponent then natural (x.digits * Nat.pow 10 x.exponent.toNat)
  else
    let places := (-x.exponent).toNat
    let fraction := (lastDigits places x.digits).reverse.dropWhile (· == '0')
    natural (x.digits / Nat.pow 10 places) ++ (if fraction = [] then [] else '.' :: fraction.reverse)

def magnitudeText (f : Format) (magnitude : Nat) : List Char :=
  if magnitude = f.infinity then "inf".toList else positional (shortest f magnitude)

/-- The text of a number; what is no number has no sign. -/
def Number.text {f : Format} (x : Number f) : List Char :=
  if x.isNaN then "NaN".toList
  else if x.negative then '-' :: magnitudeText f x.magnitude
  else magnitudeText f x.magnitude

/-- Reads the exponent behind the digits of a number, zero if there is none. -/
def readExponent : List Char → Option Int
  | [] => some 0
  | c :: rest => if c = 'e' ∨ c = 'E' then readSigned rest else none

/-- Reads a point and the digits behind it; both may be missing. -/
def readFraction : List Char → List Char × List Char
  | '.' :: rest => rest.span Char.isDigit
  | s => ([], s)

def readFinite (f : Format) (s : List Char) : Option Nat :=
  let (whole, rest) := s.span Char.isDigit
  let (fraction, rest) := readFraction rest
  (readNatural (whole ++ fraction)).bind fun digits =>
    (readExponent rest).map fun e => roundDecimal f digits (e - fraction.length)

def readMagnitude (f : Format) (s : List Char) : Option Nat :=
  let name := String.ofList (lower s)
  if name = "inf" ∨ name = "infinity" then some f.infinity
  else if name = "nan" then some f.noNumber
  else readFinite f s

/-- Reads a number that may start with `+` or `-`. -/
def Number.read? (f : Format) : List Char → Option (Number f)
  | '+' :: rest => (readMagnitude f rest).map fun m => ⟨false, m⟩
  | '-' :: rest => (readMagnitude f rest).map fun m => ⟨true, m⟩
  | s => (readMagnitude f s).map fun m => ⟨false, m⟩

end Ambient.Binary
