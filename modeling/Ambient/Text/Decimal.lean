/-
Integers in decimal. A natural number is written without leading zeros. Reading
takes any number of digits, and at least one; a signed number may start with a
single `+` or `-`, an unsigned one with a single `+`. What is written reads back
(`readNatural_natural`, `readSigned_integer`).
-/

namespace Ambient.Text

def digitValue? (c : Char) : Option Nat :=
  if '0' ≤ c ∧ c ≤ '9' then some (c.toNat - '0'.toNat) else none

def digitOf (n : Nat) : Char := Char.ofNat ('0'.toNat + n)

def natural (n : Nat) : List Char :=
  if n < 10 then [digitOf n] else natural (n / 10) ++ [digitOf (n % 10)]
termination_by n
decreasing_by omega

/-- An integer in decimal, with a sign if it is negative. -/
def integer (n : Int) : List Char :=
  if n < 0 then '-' :: natural n.natAbs else natural n.natAbs

def readDigitsFrom (acc : Nat) : List Char → Option Nat
  | [] => some acc
  | c :: rest => (digitValue? c).bind fun d => readDigitsFrom (10 * acc + d) rest

/-- Reads one or more digits, and nothing else. -/
def readNatural (s : List Char) : Option Nat :=
  if s = [] then none else readDigitsFrom 0 s

/-- Reads a natural number that may start with `+`. -/
def readUnsigned : List Char → Option Nat
  | '+' :: rest => readNatural rest
  | s => readNatural s

/-- Reads an integer that may start with `+` or `-`. -/
def readSigned : List Char → Option Int
  | '+' :: rest => (readNatural rest).map Int.ofNat
  | '-' :: rest => (readNatural rest).map fun n => -Int.ofNat n
  | s => (readNatural s).map Int.ofNat

theorem digitValue?_digitOf {n : Nat} (h : n < 10) : digitValue? (digitOf n) = some n := by
  have : ∀ m : Fin 10, digitValue? (digitOf m) = some m.val := by decide
  exact this ⟨n, h⟩

theorem readDigitsFrom_append (acc : Nat) (s t : List Char) :
    readDigitsFrom acc (s ++ t) = (readDigitsFrom acc s).bind fun n => readDigitsFrom n t := by
  induction s generalizing acc with
  | nil => rfl
  | cons c r ih =>
    simp only [List.cons_append, readDigitsFrom]
    cases digitValue? c with
    | none => rfl
    | some d => simpa using ih (10 * acc + d)

theorem readDigitsFrom_natural (n : Nat) : readDigitsFrom 0 (natural n) = some n := by
  fun_induction natural n with
  | case1 n h => simp [readDigitsFrom, digitValue?_digitOf h]
  | case2 n h ih =>
    rw [readDigitsFrom_append, ih]
    simp only [Option.bind_some, readDigitsFrom, digitValue?_digitOf (Nat.mod_lt n (by omega : 10 > 0))]
    congr 1; omega

theorem natural_ne_nil (n : Nat) : natural n ≠ [] := by
  unfold natural; split <;> simp

@[simp] theorem readNatural_natural (n : Nat) : readNatural (natural n) = some n := by
  simp [readNatural, natural_ne_nil, readDigitsFrom_natural]

/-- A written natural number consists of digits. -/
theorem digitValue?_of_mem_natural {n : Nat} {c : Char} (h : c ∈ natural n) :
    (digitValue? c).isSome := by
  fun_induction natural n with
  | case1 n hn =>
    rw [List.mem_singleton] at h; subst h; simp [digitValue?_digitOf hn]
  | case2 n _ ih =>
    rcases List.mem_append.1 h with h | h
    · exact ih h
    · rw [List.mem_singleton] at h; subst h
      simp [digitValue?_digitOf (Nat.mod_lt n (by omega : 10 > 0))]

theorem readSigned_natural (n : Nat) : readSigned (natural n) = some (n : Int) := by
  have hd : ∀ c ∈ natural n, (digitValue? c).isSome := fun c h => digitValue?_of_mem_natural h
  have hr := readNatural_natural n
  generalize natural n = s at hd hr
  unfold readSigned
  split
  · exact absurd (hd '+' (by simp)) (by decide)
  · exact absurd (hd '-' (by simp)) (by decide)
  · simp [hr]

@[simp] theorem readSigned_integer (n : Int) : readSigned (integer n) = some n := by
  unfold integer
  split
  · simp only [readSigned, readNatural_natural, Option.map_some, Option.some.injEq,
      Int.ofNat_eq_natCast]
    omega
  · rw [readSigned_natural, Option.some.injEq]; omega

end Ambient.Text
