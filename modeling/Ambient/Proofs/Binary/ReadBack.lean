import Ambient.Binary.Decimal
import Ambient.Proofs.Binary.Rounding
import Ambient.Proofs.Text.Digits

/-
The text of a number is read as that number (`Number.read?_text`). The digits that
are written round back, because they were searched for by rounding them, and the
exact value is there if the search finds none (`roundDecimal_shortest`); and the
positional text of a decimal number is read as a decimal number of the same value
(`readFinite_positional`).
-/

namespace Ambient.Binary

open Ambient.Text

/-! ## Digits that read back -/

theorem exactDecimal_eq (f : Format) (m : Nat) :
    ((exactDecimal f m).digits : Rat) * 10 ^ (exactDecimal f m).exponent = f.value m := by
  unfold exactDecimal Format.value
  dsimp only
  split
  · rename_i h
    have hq : (2 : Rat) ^ scale f m = 2 ^ (scale f m).toNat := by rw [← zpow_natCast, Int.toNat_of_nonneg h]
    rw [hq, zpow_zero, mul_one, Nat.pow_eq]
    push_cast
    rfl
  · rename_i h
    obtain ⟨k, hk⟩ : ∃ k : Nat, scale f m = -k := ⟨(-scale f m).toNat, by omega⟩
    have hten : (10 : Rat) = 2 * 5 := by norm_num
    rw [hk, neg_neg, Int.toNat_natCast, Nat.pow_eq, zpow_neg, zpow_neg, zpow_natCast, zpow_natCast, hten, mul_pow]
    push_cast
    field_simp

/-- What is written of a finite magnitude rounds to it. -/
theorem roundDecimal_shortest {f : Format} {m : Nat} (h : m < f.infinity) :
    roundDecimal f (shortest f m).digits (shortest f m).exponent = m := by
  unfold shortest
  split
  · rename_i h0
    rw [h0]
    rfl
  · dsimp only
    generalize List.flatMap _ _ = candidates
    cases hc : candidates.find? (readsBack f m) with
    | none => exact roundDecimal_exact h (exactDecimal_eq f m)
    | some x =>
      have hx : readsBack f m x = true := List.find?_some hc
      exact beq_iff_eq.1 hx

/-! ## The last digits -/

theorem isDigit_of_mem_lastDigits {w n : Nat} {c : Char} (h : c ∈ lastDigits w n) : c.isDigit = true := by
  induction w generalizing n with
  | zero => cases h
  | succ w ih =>
    rcases List.mem_append.1 h with h | h
    · exact ih h
    · rw [List.mem_singleton] at h
      exact h ▸ isDigit_digitOf (Nat.mod_lt n (by decide))

theorem length_lastDigits (w n : Nat) : (lastDigits w n).length = w := by
  induction w generalizing n with
  | zero => rfl
  | succ w ih => rw [lastDigits, List.length_append, ih, List.length_singleton]

theorem readDigitsFrom_lastDigits (w n k : Nat) :
    readDigitsFrom n (lastDigits w k) = some (n * 10 ^ w + k % 10 ^ w) := by
  induction w generalizing k with
  | zero => rw [lastDigits, readDigitsFrom, Nat.pow_zero, Nat.mod_one, Nat.mul_one, Nat.add_zero]
  | succ w ih =>
    have hmod : k % 10 ^ (w + 1) = k % 10 + 10 * (k / 10 % 10 ^ w) := by rw [Nat.pow_succ', Nat.mod_mul]
    rw [lastDigits, readDigitsFrom_append, ih, Option.bind_some, readDigitsFrom,
      digitValue?_digitOf (Nat.mod_lt k (by decide)), hmod, Nat.pow_succ]
    simp only [Option.bind_some, readDigitsFrom, Option.some.injEq]
    ring

/-! ## Positional text -/

/-- Digits, and a point and further digits unless there are none, are read as the
number that all of them make, scaled down by those behind the point. -/
theorem readFinite_digits (f : Format) {whole fraction : List Char} {n : Nat} (hw : ∀ c ∈ whole, c.isDigit = true)
    (hf : ∀ c ∈ fraction, c.isDigit = true) (hn : readNatural (whole ++ fraction) = some n) :
    readFinite f (whole ++ (if fraction = [] then [] else '.' :: fraction)) =
      some (roundDecimal f n (-(fraction.length : Int))) := by
  have hspan : (whole ++ (if fraction = [] then [] else '.' :: fraction)).span Char.isDigit =
      (whole, if fraction = [] then [] else '.' :: fraction) := by
    refine span_digits hw fun c hc => ?_
    split at hc
    · cases hc
    · cases hc
      rfl
  have hfraction : readFraction (if fraction = [] then [] else '.' :: fraction) = (fraction, []) := by
    split
    · rename_i h
      rw [h]
      rfl
    · have h := span_digits (t := []) hf (fun _ hc => nomatch hc)
      rwa [List.append_nil] at h
  unfold readFinite
  simp only [hspan, hfraction, hn, readExponent, Option.bind_some, Option.map_some, zero_sub]

/-- A number cut before its last digits, without the zeros at the end of these: what is
left are digits of a number that makes the given one with as many zeros. -/
theorem exists_fraction (places n : Nat) : ∃ fraction k m,
    (lastDigits places n).reverse.dropWhile (· == '0') = fraction ∧ fraction.length + k = places ∧
      (∀ c ∈ fraction.reverse, c.isDigit = true) ∧ n = m * 10 ^ k ∧
      readNatural (natural (n / 10 ^ places) ++ fraction.reverse) = some m := by
  obtain ⟨k, hk⟩ := exists_zeros (lastDigits places n)
  generalize (lastDigits places n).reverse.dropWhile (· == '0') = fraction at hk ⊢
  have hdigits : ∀ c ∈ fraction.reverse, c.isDigit = true := fun c hc =>
    isDigit_of_mem_lastDigits (hk ▸ List.mem_append_left _ hc)
  obtain ⟨m, hm⟩ := readDigitsFrom_digits hdigits (n / 10 ^ places)
  refine ⟨fraction, k, m, rfl, ?_, hdigits, ?_, ?_⟩
  · have hl := congrArg List.length hk
    rwa [List.length_append, List.length_reverse, List.length_replicate, length_lastDigits] at hl
  · have hall : readDigitsFrom (n / 10 ^ places) (lastDigits places n) = some n := by
      rw [readDigitsFrom_lastDigits, Nat.div_add_mod']
    rw [← hk, readDigitsFrom_append, hm, Option.bind_some, readDigitsFrom_zeros, Option.some.injEq] at hall
    exact hall.symm
  · unfold readNatural
    rw [if_neg (by simp [natural_ne_nil]), readDigitsFrom_append, readDigitsFrom_natural, Option.bind_some, hm]

/-- The positional text of a decimal number is read as its value is rounded. -/
theorem readFinite_positional (f : Format) (x : Scaled) :
    readFinite f (positional x) = some (roundDecimal f x.digits x.exponent) := by
  unfold positional
  split
  · rename_i h
    have hn : readNatural (natural (x.digits * 10 ^ x.exponent.toNat) ++ []) =
        some (x.digits * 10 ^ x.exponent.toNat) := by
      rw [List.append_nil, readNatural_natural]
    have hread := readFinite_digits f (fun _ => isDigit_of_mem_natural) (List.forall_mem_nil _) hn
    rw [if_pos rfl, List.append_nil] at hread
    rw [Nat.pow_eq, hread, List.length_nil, roundDecimal_rescale]
    congr 2
    omega
  · rename_i h
    dsimp only
    obtain ⟨places, hplaces⟩ : ∃ places : Nat, x.exponent = -places := ⟨(-x.exponent).toNat, by omega⟩
    obtain ⟨fraction, k, m, hfraction, hlength, hdigits, hm, hnatural⟩ := exists_fraction places x.digits
    rw [hplaces, neg_neg, Int.toNat_natCast, Nat.pow_eq, hfraction]
    have hread := readFinite_digits f (fun _ => isDigit_of_mem_natural) hdigits hnatural
    simp only [List.reverse_eq_nil_iff] at hread
    rw [hread, List.length_reverse, hm, roundDecimal_rescale]
    congr 2
    omega

/-! ## Numbers -/

theorem exists_cons_positional (x : Scaled) : ∃ c s, positional x = c :: s ∧ c.isDigit = true := by
  have cons : ∀ n t, ∃ c s, natural n ++ t = c :: s ∧ c.isDigit = true := by
    intro n t
    cases hn : natural n with
    | nil => exact absurd hn (natural_ne_nil n)
    | cons c s => exact ⟨c, s ++ t, rfl, isDigit_of_mem_natural (hn ▸ List.mem_cons_self)⟩
  unfold positional
  split
  · have h := cons (x.digits * Nat.pow 10 x.exponent.toNat) []
    rwa [List.append_nil] at h
  · exact cons _ _

/-- A text that starts with a digit is no name. -/
theorem readMagnitude_of_digit (f : Format) {c : Char} (s : List Char) (h : c.isDigit = true) :
    readMagnitude f (c :: s) = readFinite f (c :: s) := by
  have hlower : c.toLower ≠ 'i' ∧ c.toLower ≠ 'n' := by
    obtain ⟨n, rfl⟩ := eq_digitOf h
    have all : ∀ n : Fin 10, (digitOf n).toLower ≠ 'i' ∧ (digitOf n).toLower ≠ 'n' := by decide
    exact all n
  have hname : ∀ {d : Char} {t : List Char}, c.toLower ≠ d → String.ofList (lower (c :: s)) ≠ String.ofList (d :: t) := by
    intro d t hd he
    exact hd (List.cons.inj (String.ofList_injective he)).1
  unfold readMagnitude
  dsimp only
  rw [if_neg (not_or.2 ⟨hname hlower.1, hname hlower.1⟩), if_neg (hname hlower.2)]

/-- The text of a magnitude is read as it, and has no sign. -/
theorem readMagnitude_text {f : Format} {m : Nat} (h : m ≤ f.infinity) :
    readMagnitude f (magnitudeText f m) = some m ∧ ∀ c ∈ (magnitudeText f m).head?, c ≠ '+' ∧ c ≠ '-' := by
  unfold magnitudeText
  split
  · rename_i hm
    subst hm
    refine ⟨rfl, fun c hc => ?_⟩
    cases hc
    decide
  · rename_i hne
    obtain ⟨c, s, hs, hc⟩ := exists_cons_positional (shortest f m)
    have hread := readFinite_positional f (shortest f m)
    rw [roundDecimal_shortest (lt_of_le_of_ne h hne)] at hread
    rw [hs] at hread ⊢
    refine ⟨(readMagnitude_of_digit f s hc).trans hread, fun d hd => ?_⟩
    cases hd
    constructor <;> rintro rfl <;> exact absurd hc (by decide)

theorem Number.read?_of_unsigned (f : Format) {s : List Char} (h : ∀ c ∈ s.head?, c ≠ '+' ∧ c ≠ '-') :
    Number.read? f s = (readMagnitude f s).map fun m => ⟨false, m⟩ := by
  unfold read?
  split
  · exact absurd rfl (h '+' rfl).1
  · exact absurd rfl (h '-' rfl).2
  · rfl

/-- The text of a number is read as that number; that of what is no number as no number. -/
theorem Number.read?_text {f : Format} (x : Number f) :
    ∃ y, Number.read? f x.text = some y ∧ (x = y ∨ x.isNaN = true ∧ y.isNaN = true) := by
  obtain ⟨negative, m⟩ := x
  unfold text
  split
  · rename_i h
    refine ⟨⟨false, f.noNumber⟩, rfl, .inr ⟨h, decide_eq_true ?_⟩⟩
    exact Nat.lt_add_of_pos_right (Nat.two_pow_pos _)
  · rename_i h
    have hm : m ≤ f.infinity := by simpa [isNaN] using h
    obtain ⟨hread, hsign⟩ := readMagnitude_text hm
    refine ⟨⟨negative, m⟩, ?_, .inl rfl⟩
    cases negative with
    | false => rw [if_neg Bool.false_ne_true, read?_of_unsigned f hsign, hread, Option.map_some]
    | true => rw [if_pos rfl, read?, hread, Option.map_some]

end Ambient.Binary
