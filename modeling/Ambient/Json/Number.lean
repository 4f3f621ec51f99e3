import Ambient.Binary.Rounding
import Ambient.Json.Fault
import Ambient.Text.Decimal

/-
Numbers in a document. No field of a configuration is a number, so a number is
only skipped, by its form, or found where something else should stand. In that
place it is read in full, and one too great for a float of 64 bits is no number
at all.
-/

namespace Ambient.Json

open Binary Text

def skipExponent (s : List Char) : Except Fault (List Char) :=
  let s := match s with
    | '+' :: r => r
    | '-' :: r => r
    | s => s
  match s with
  | c :: r => if c.isDigit then .ok (r.dropWhile Char.isDigit) else .error .malformed
  | [] => .error .malformed

/-- Skips the exponent of a number, if there is one. -/
def skipOptionalExponent : List Char → Except Fault (List Char)
  | [] => .ok []
  | c :: s => if c = 'e' ∨ c = 'E' then skipExponent s else .ok (c :: s)

def skipUnsigned (s : List Char) : Except Fault (List Char) :=
  let whole := s.takeWhile Char.isDigit
  let s := s.dropWhile Char.isDigit
  if whole = [] then .error .malformed
  else if whole.head? = some '0' ∧ 1 < whole.length then .error .malformed
  else match s with
    | '.' :: s =>
      if (s.takeWhile Char.isDigit).isEmpty then .error .malformed
      else skipOptionalExponent (s.dropWhile Char.isDigit)
    | s => skipOptionalExponent s

/-- A number as it is read: the digits that fit a word of 64 bits, and a power of ten. -/
structure Reading where
  significand : Nat
  exponent : Int

namespace Reading

def fits (r : Reading) (digit : Nat) : Bool := decide (r.significand * 10 + digit < Nat.pow 2 64)

/-- Reads the digits before the point. Once a digit does not fit, each further one
counts as a power of ten. -/
def whole (r : Reading) : List Char → Reading
  | [] => r
  | c :: s =>
    let d := c.toNat - '0'.toNat
    if r.fits d then whole ⟨r.significand * 10 + d, r.exponent⟩ s
    else ⟨r.significand, r.exponent + (s.length + 1)⟩

/-- Reads the digits behind the point, up to the first that does not fit. -/
def fraction (r : Reading) : List Char → Reading
  | [] => r
  | c :: s =>
    let d := c.toNat - '0'.toNat
    if r.fits d then fraction ⟨r.significand * 10 + d, r.exponent - 1⟩ s else r

def greatestPower : Int := 308

/-- True if the significand and the power of ten, each as a float of 64 bits, have a
finite product. -/
def isFinite (r : Reading) : Bool :=
  if r.significand = 0 ∨ r.exponent < 0 then true
  else if greatestPower < r.exponent then false
  else
    let a := roundDecimal double r.significand 0
    let b := roundDecimal double 1 r.exponent
    let product := Binary.significand double a * Binary.significand double b
    let scale := Binary.scale double a + Binary.scale double b
    roundRatio double (product * Nat.pow 2 scale.toNat) (Nat.pow 2 (-scale).toNat) != double.infinity

end Reading

def misplaced (r : Reading) : Fault := if r.isFinite then .mismatch else .malformed

/-- The fault of a misplaced number, from behind the letter of its exponent. -/
def misplacedExponent (r : Reading) (s : List Char) : Fault :=
  let (negative, s) := match s with
    | '+' :: t => (false, t)
    | '-' :: t => (true, t)
    | t => (false, t)
  match s with
  | [] => .ended
  | c :: _ =>
    if c.isDigit then
      let e : Int := (readNatural (s.takeWhile Char.isDigit)).getD 0
      misplaced ⟨r.significand, if negative then r.exponent - e else r.exponent + e⟩
    else .malformed

/-- The fault of a misplaced number, from behind its digits. -/
def misplacedOptionalExponent (r : Reading) : List Char → Fault
  | [] => misplaced r
  | c :: s => if c = 'e' ∨ c = 'E' then misplacedExponent r s else misplaced r

def misplacedUnsigned (s : List Char) : Fault :=
  let whole := s.takeWhile Char.isDigit
  let rest := s.dropWhile Char.isDigit
  if s = [] then .ended
  else if whole = [] then .malformed
  else if whole.head? = some '0' ∧ 1 < whole.length then .malformed
  else
    let r := Reading.whole ⟨0, 0⟩ whole
    match rest with
    | '.' :: rest =>
      let digits := rest.takeWhile Char.isDigit
      if digits = [] then (if rest = [] then .ended else .malformed)
      else misplacedOptionalExponent (r.fraction digits) (rest.dropWhile Char.isDigit)
    | rest => misplacedOptionalExponent r rest

end Ambient.Json
