/-
Binary floating-point numbers of a format. A number is a sign and a magnitude,
the bits below the sign read as a natural number. Magnitudes are ordered as the
values they stand for: zero, the finite values, infinity, and above it those
that stand for no number.
-/

namespace Ambient.Binary

/-- The widths of the fields of a binary format. -/
structure Format where
  exponentBits : Nat
  fractionBits : Nat
deriving DecidableEq

def single : Format := ⟨8, 23⟩

def double : Format := ⟨11, 52⟩

namespace Format

def bias (f : Format) : Nat := Nat.pow 2 (f.exponentBits - 1) - 1

def leastScale (f : Format) : Int := 1 - f.bias - f.fractionBits

def infinity (f : Format) : Nat := (Nat.pow 2 f.exponentBits - 1) * Nat.pow 2 f.fractionBits

def noNumber (f : Format) : Nat := f.infinity + Nat.pow 2 (f.fractionBits - 1)

end Format

/-- A number of a format. -/
structure Number (f : Format) where
  negative : Bool
  magnitude : Nat
deriving DecidableEq

namespace Number

variable {f : Format}

def isNaN (x : Number f) : Bool := decide (f.infinity < x.magnitude)

/-- Equality of values: both zeros are equal, and what is no number equals nothing. -/
def sameValue (x y : Number f) : Bool :=
  !x.isNaN && x.magnitude == y.magnitude && (x.magnitude == 0 || x.negative == y.negative)

end Number

def significand (f : Format) (magnitude : Nat) : Nat :=
  if magnitude < Nat.pow 2 f.fractionBits then magnitude
  else Nat.pow 2 f.fractionBits + magnitude % Nat.pow 2 f.fractionBits

def scale (f : Format) (magnitude : Nat) : Int :=
  f.leastScale + ((magnitude / Nat.pow 2 f.fractionBits - 1 : Nat) : Int)

end Ambient.Binary
