/-
Numbers in base sixteen with a fixed count of digits. Writing pads with zeros on
the left and uses small letters; reading takes either case. The two agree
(`readHex_hex`).
-/

namespace Ambient.Text

/-- The value of a digit 0 to 9, a to f or A to F. -/
def hexValue? (c : Char) : Option Nat :=
  if '0' ≤ c ∧ c ≤ '9' then some (c.toNat - '0'.toNat)
  else if 'a' ≤ c ∧ c ≤ 'f' then some (c.toNat - 'a'.toNat + 10)
  else if 'A' ≤ c ∧ c ≤ 'F' then some (c.toNat - 'A'.toNat + 10)
  else none

/-- The digit of a number below sixteen, as a small letter from ten on. -/
def hexDigit (n : Nat) : Char :=
  if n < 10 then Char.ofNat ('0'.toNat + n) else Char.ofNat ('a'.toNat + (n - 10))

/-- The last `width` digits of a number in base sixteen. -/
def hex : (width : Nat) → (n : Nat) → List Char
  | 0, _ => []
  | w + 1, n => hex w (n / 16) ++ [hexDigit (n % 16)]

def readHexFrom (acc : Nat) : List Char → Option Nat
  | [] => some acc
  | c :: rest => (hexValue? c).bind fun d => readHexFrom (16 * acc + d) rest

/-- Reads a text of exactly `width` digits in base sixteen. -/
def readHex (width : Nat) (s : List Char) : Option Nat :=
  if s.length = width then readHexFrom 0 s else none

theorem hexValue?_hexDigit {n : Nat} (h : n < 16) : hexValue? (hexDigit n) = some n := by
  have : ∀ m : Fin 16, hexValue? (hexDigit m) = some m.val := by decide
  exact this ⟨n, h⟩

@[simp] theorem length_hex (w n : Nat) : (hex w n).length = w := by
  induction w generalizing n with
  | zero => rfl
  | succ w ih => simp [hex, ih]

theorem readHexFrom_append (acc : Nat) (s t : List Char) :
    readHexFrom acc (s ++ t) = (readHexFrom acc s).bind fun n => readHexFrom n t := by
  induction s generalizing acc with
  | nil => rfl
  | cons c r ih =>
    simp only [List.cons_append, readHexFrom]
    cases hexValue? c with
    | none => rfl
    | some d => simpa using ih (16 * acc + d)

theorem readHexFrom_hex (w n : Nat) : readHexFrom 0 (hex w n) = some (n % Nat.pow 16 w) := by
  induction w generalizing n with
  | zero => simp [hex, readHexFrom, Nat.mod_one]
  | succ w ih =>
    rw [hex, readHexFrom_append, ih]
    simp only [Option.bind_some, readHexFrom, hexValue?_hexDigit (Nat.mod_lt n (by omega : 16 > 0))]
    congr 1
    have hp : Nat.pow 16 (w + 1) = 16 * Nat.pow 16 w := Nat.mul_comm (Nat.pow 16 w) 16
    rw [hp, Nat.mod_mul]
    omega

/-- Reading what was written gives the number, cut to the width. -/
@[simp] theorem readHex_hex (w n : Nat) : readHex w (hex w n) = some (n % Nat.pow 16 w) := by
  simp [readHex, readHexFrom_hex]

end Ambient.Text
