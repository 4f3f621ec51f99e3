import Ambient.Binary.Rounding
import Mathlib.Algebra.Order.Field.Power
import Mathlib.Data.Int.Log
import Mathlib.Data.Rat.Floor
import Mathlib.Tactic.FieldSimp
import Mathlib.Tactic.Linarith
import Mathlib.Tactic.Positivity
import Mathlib.Tactic.Ring

/-
What rounding to a binary format computes. It depends on the value alone
(`roundRatio_congr`, `roundDecimal_rescale`), and a value of the format is its own
rounding (`roundRatio_exact`, `roundDecimal_exact`).

Values are compared as rational numbers: a quotient `n / d` of natural numbers, a
decimal number `digits * 10 ^ exponent`, and `Format.value` of a magnitude.
-/

namespace Ambient.Binary

/-! ## Powers -/

/-- A power with an integer exponent as the quotient of two with natural ones. -/
theorem zpow_eq_div {b : Rat} (hb : b ≠ 0) (k : Int) : b ^ k = b ^ k.toNat / b ^ (-k).toNat := by
  rw [eq_div_iff (pow_ne_zero _ hb), ← zpow_natCast, ← zpow_natCast, ← zpow_add₀ hb]
  congr 1
  omega

/-- A quotient against a power of two, without division. -/
theorem zpow_le_div_iff {n d : Nat} (hd : 0 < d) (k : Int) :
    (2 : Rat) ^ k ≤ (n : Rat) / d ↔ d * 2 ^ k.toNat ≤ n * 2 ^ (-k).toNat := by
  have hd : (0 : Rat) < d := by exact_mod_cast hd
  rw [zpow_eq_div two_ne_zero, div_le_div_iff₀ (by positivity) hd, ← @Nat.cast_le Rat]
  push_cast
  rw [mul_comm]

/-! ## The binade -/

theorem le_log_iff {x : Rat} (hx : 0 < x) (k : Int) : k ≤ Int.log 2 x ↔ (2 : Rat) ^ k ≤ x := by
  rw [← Int.zpow_le_iff_le_log Nat.one_lt_two hx, Nat.cast_ofNat]

theorem log_lt_iff {x : Rat} (hx : 0 < x) (k : Int) : Int.log 2 x < k ↔ x < (2 : Rat) ^ k := by
  rw [← Int.lt_zpow_iff_log_lt Nat.one_lt_two hx, Nat.cast_ofNat]

theorem zpow_log2_le {n : Nat} (hn : 0 < n) : (2 : Rat) ^ (n.log2 : Int) ≤ n := by
  rw [zpow_natCast]
  exact_mod_cast Nat.log2_self_le hn.ne'

theorem lt_zpow_log2_succ (n : Nat) : (n : Rat) < 2 ^ ((n.log2 : Int) + 1) := by
  have h : n < 2 ^ (n.log2 + 1) := Nat.lt_log2_self
  exact_mod_cast h

/-- The floor of the logarithm of a quotient. -/
theorem floorLog2_eq {n d : Nat} (hn : 0 < n) (hd : 0 < d) : floorLog2 n d = Int.log 2 ((n : Rat) / d) := by
  have hd' : (0 : Rat) < d := by exact_mod_cast hd
  have hx : (0 : Rat) < (n : Rat) / d := div_pos (by exact_mod_cast hn) hd'
  have hupper : (n : Rat) / d < 2 ^ ((n.log2 : Int) - d.log2 + 1) := by
    rw [div_lt_iff₀ hd']
    calc (n : Rat) < 2 ^ ((n.log2 : Int) + 1) := lt_zpow_log2_succ n
      _ = 2 ^ ((n.log2 : Int) - d.log2 + 1) * 2 ^ (d.log2 : Int) := by
        rw [← zpow_add₀ two_ne_zero]
        congr 1
        omega
      _ ≤ 2 ^ ((n.log2 : Int) - d.log2 + 1) * d := mul_le_mul_of_nonneg_left (zpow_log2_le hd) (by positivity)
  have hlower : (2 : Rat) ^ ((n.log2 : Int) - d.log2 - 1) ≤ (n : Rat) / d := by
    rw [le_div_iff₀ hd']
    calc (2 : Rat) ^ ((n.log2 : Int) - d.log2 - 1) * d
        ≤ 2 ^ ((n.log2 : Int) - d.log2 - 1) * 2 ^ ((d.log2 : Int) + 1) :=
          mul_le_mul_of_nonneg_left (lt_zpow_log2_succ d).le (by positivity)
      _ = 2 ^ (n.log2 : Int) := by
        rw [← zpow_add₀ two_ne_zero]
        congr 1
        omega
      _ ≤ n := zpow_log2_le hn
  have hle := (le_log_iff hx _).2 hlower
  have hlt := (log_lt_iff hx _).2 hupper
  have hiff := (le_log_iff hx ((n.log2 : Int) - d.log2)).trans (zpow_le_div_iff hd _)
  unfold floorLog2
  simp only [Nat.pow_eq]
  split
  · rename_i h
    have hk := hiff.2 h
    omega
  · rename_i h
    have hk := mt hiff.1 h
    omega

/-! ## The nearest natural number -/

theorem nearestEven_scale (n d : Nat) {c : Nat} (hc : 0 < c) : nearestEven (n * c) (d * c) = nearestEven n d := by
  have h2 : 2 * (n % d * c) = 2 * (n % d) * c := (Nat.mul_assoc ..).symm
  unfold nearestEven
  dsimp only
  rw [Nat.mul_div_mul_right _ _ hc, Nat.mul_mod_mul_right, h2]
  simp only [Nat.mul_lt_mul_right hc]

theorem nearestEven_congr {n d n' d' : Nat} (hd : 0 < d) (hd' : 0 < d') (h : n * d' = n' * d) :
    nearestEven n d = nearestEven n' d' := by
  rw [← nearestEven_scale n d hd', h, Nat.mul_comm d d', nearestEven_scale n' d' hd]

theorem nearestEven_mul (s : Nat) {d : Nat} (hd : 0 < d) : nearestEven (s * d) d = s := by
  unfold nearestEven
  dsimp only
  rw [Nat.mul_mod_left, Nat.mul_div_cancel _ hd]
  exact if_pos hd

/-! ## Rounding a quotient -/

section Ratio

variable {f : Format} {n d n' d' : Nat}

theorem div_eq_div_iff_mul (hd : 0 < d) (hd' : 0 < d') : (n : Rat) / d = (n' : Rat) / d' ↔ n * d' = n' * d := by
  rw [div_eq_div_iff (by exact_mod_cast hd.ne') (by exact_mod_cast hd'.ne')]
  exact_mod_cast Iff.rfl

/-- Rounding depends on the value alone. -/
theorem roundRatio_congr (hd : 0 < d) (hd' : 0 < d') (h : (n : Rat) / d = (n' : Rat) / d') :
    roundRatio f n d = roundRatio f n' d' := by
  have hm := (div_eq_div_iff_mul hd hd').1 h
  unfold roundRatio
  rcases Nat.eq_zero_or_pos n with rfl | hn
  · have hn' : n' = 0 := by
      rw [Nat.zero_mul, eq_comm, Nat.mul_eq_zero] at hm
      omega
    rw [hn', if_pos rfl, if_pos rfl]
  · have hn' : 0 < n' := by
      refine Nat.pos_of_ne_zero ?_
      rintro rfl
      rw [Nat.zero_mul, Nat.mul_eq_zero] at hm
      omega
    rw [if_neg hn.ne', if_neg hn'.ne', floorLog2_eq hn hd, floorLog2_eq hn' hd', h]
    generalize max (Int.log 2 ((n' : Rat) / d') - f.fractionBits) f.leastScale = q
    have hround : nearestEven (n * Nat.pow 2 (-q).toNat) (d * Nat.pow 2 q.toNat) =
        nearestEven (n' * Nat.pow 2 (-q).toNat) (d' * Nat.pow 2 q.toNat) := by
      refine nearestEven_congr (Nat.mul_pos hd (Nat.two_pow_pos _)) (Nat.mul_pos hd' (Nat.two_pow_pos _)) ?_
      rw [Nat.mul_mul_mul_comm, hm, Nat.mul_mul_mul_comm]
    dsimp only
    rw [hround]

end Ratio

/-! ## Values of a format -/

/-- The value of a finite magnitude. -/
def Format.value (f : Format) (m : Nat) : Rat := significand f m * 2 ^ scale f m

section Value

variable {f : Format} {m : Nat}

theorem significand_lt (f : Format) (m : Nat) : significand f m < 2 ^ (f.fractionBits + 1) := by
  have h := Nat.mod_lt m (Nat.two_pow_pos f.fractionBits)
  unfold significand
  simp only [Nat.pow_eq]
  rw [Nat.pow_succ]
  split <;> omega

theorem significand_pos (h : 0 < m) : 0 < significand f m := by
  have h := Nat.two_pow_pos f.fractionBits
  unfold significand
  simp only [Nat.pow_eq]
  split <;> omega

theorem leastScale_le_scale (f : Format) (m : Nat) : f.leastScale ≤ scale f m := by
  unfold scale
  omega

/-- Above the least scale, the leading bit of the significand is set. -/
theorem le_significand (h : f.leastScale < scale f m) : 2 ^ f.fractionBits ≤ significand f m := by
  unfold scale at h
  unfold significand
  simp only [Nat.pow_eq] at h ⊢
  split
  · rename_i hm
    rw [Nat.div_eq_of_lt hm] at h
    omega
  · omega

/-- A magnitude is made of its scale and its significand. -/
theorem scale_significand (f : Format) (m : Nat) :
    (scale f m - f.leastScale).toNat * 2 ^ f.fractionBits + significand f m = m := by
  have hs : (scale f m - f.leastScale).toNat = m / 2 ^ f.fractionBits - 1 := by
    unfold scale
    simp only [Nat.pow_eq]
    omega
  have hm := Nat.div_add_mod m (2 ^ f.fractionBits)
  rw [hs]
  unfold significand
  simp only [Nat.pow_eq]
  split
  · rename_i h
    rw [Nat.div_eq_of_lt h, Nat.zero_sub, Nat.zero_mul, Nat.zero_add]
  · rename_i h
    have hq : 1 ≤ m / 2 ^ f.fractionBits := (Nat.one_le_div_iff (Nat.two_pow_pos _)).2 (by omega)
    rw [← Nat.add_assoc, ← Nat.succ_mul, Nat.succ_eq_add_one, Nat.sub_add_cancel hq, Nat.mul_comm]
    exact hm

theorem value_pos (h : 0 < m) : 0 < f.value m := by
  have hs : (0 : Rat) < significand f m := by exact_mod_cast significand_pos h
  exact mul_pos hs (by positivity)

theorem value_lt (f : Format) (m : Nat) : f.value m < 2 ^ ((f.fractionBits : Int) + 1 + scale f m) := by
  have hs : (significand f m : Rat) < 2 ^ ((f.fractionBits : Int) + 1) := by exact_mod_cast significand_lt f m
  rw [zpow_add₀ two_ne_zero]
  exact mul_lt_mul_of_pos_right hs (by positivity)

/-- The scale of a positive magnitude is told by its value. -/
theorem scale_eq (h : 0 < m) : max (Int.log 2 (f.value m) - f.fractionBits) f.leastScale = scale f m := by
  have hv := value_pos (f := f) h
  have hlt : Int.log 2 (f.value m) < f.fractionBits + 1 + scale f m :=
    (log_lt_iff hv _).2 (value_lt f m)
  have hle : f.leastScale < scale f m → f.fractionBits + scale f m ≤ Int.log 2 (f.value m) := by
    intro hs
    have hsig : (2 : Rat) ^ (f.fractionBits : Int) ≤ significand f m := by exact_mod_cast le_significand hs
    rw [le_log_iff hv, zpow_add₀ two_ne_zero]
    exact mul_le_mul_of_nonneg_right hsig (by positivity)
  have hleast := leastScale_le_scale f m
  by_cases hs : f.leastScale < scale f m
  · have := hle hs
    omega
  · omega

@[simp] theorem value_zero (f : Format) : f.value 0 = 0 := by
  have hs : significand f 0 = 0 := if_pos (Nat.two_pow_pos _)
  unfold Format.value
  rw [hs, Nat.cast_zero, zero_mul]

theorem value_eq_zero_iff : f.value m = 0 ↔ m = 0 := by
  refine ⟨fun h => ?_, fun h => h ▸ value_zero f⟩
  by_contra hne
  exact absurd h (value_pos (Nat.pos_of_ne_zero hne)).ne'

theorem zpow_leastScale_le_value (h : 0 < m) : (2 : Rat) ^ f.leastScale ≤ f.value m := by
  have hs : (1 : Rat) ≤ significand f m := by exact_mod_cast significand_pos h
  calc (2 : Rat) ^ f.leastScale ≤ 2 ^ scale f m := zpow_le_zpow_right₀ one_le_two (leastScale_le_scale f m)
    _ ≤ f.value m := le_mul_of_one_le_left (by positivity) hs

/-- Every finite value is below the power of two after the greatest one. -/
theorem value_lt_of_lt_infinity (h : m < f.infinity) : f.value m < 2 ^ ((f.bias : Int) + 1) := by
  unfold Format.infinity at h
  simp only [Nat.pow_eq] at h
  by_cases hm : m < 2 ^ f.fractionBits
  · have hscale : scale f m = f.leastScale := by
      unfold scale
      simp only [Nat.pow_eq]
      rw [Nat.div_eq_of_lt hm]
      omega
    have hsig : significand f m = m := if_pos hm
    have hlt : (m : Rat) < 2 ^ (f.fractionBits : Int) := by exact_mod_cast hm
    unfold Format.value
    rw [hscale, hsig]
    calc (m : Rat) * 2 ^ f.leastScale < 2 ^ (f.fractionBits : Int) * 2 ^ f.leastScale :=
          mul_lt_mul_of_pos_right hlt (by positivity)
      _ = 2 ^ (1 - f.bias : Int) := by
        rw [← zpow_add₀ two_ne_zero]
        congr 1
        unfold Format.leastScale
        omega
      _ ≤ 2 ^ ((f.bias : Int) + 1) := zpow_le_zpow_right₀ one_le_two (by omega)
  · have hdiv : m / 2 ^ f.fractionBits < 2 ^ f.exponentBits - 1 :=
      (Nat.div_lt_iff_lt_mul (Nat.two_pow_pos _)).2 h
    have hone : 1 ≤ m / 2 ^ f.fractionBits := (Nat.one_le_div_iff (Nat.two_pow_pos _)).2 (by omega)
    have hbits : 2 ^ f.exponentBits = 2 * 2 ^ (f.exponentBits - 1) := by
      cases he : f.exponentBits with
      | zero =>
        rw [he] at hdiv
        omega
      | succ b => rw [Nat.add_sub_cancel, Nat.pow_succ, Nat.mul_comm]
    have hscale : (f.fractionBits : Int) + 1 + scale f m ≤ f.bias + 1 := by
      unfold scale Format.leastScale Format.bias
      simp only [Nat.pow_eq]
      omega
    exact (value_lt f m).trans_le (zpow_le_zpow_right₀ one_le_two hscale)

/-- A value of the format is its own rounding. -/
theorem roundRatio_exact {n d : Nat} (hd : 0 < d) (hm : m ≤ f.infinity) (h : (n : Rat) / d = f.value m) :
    roundRatio f n d = m := by
  have hd' : (0 : Rat) < d := by exact_mod_cast hd
  unfold roundRatio
  rcases Nat.eq_zero_or_pos n with rfl | hn
  · rw [Nat.cast_zero, zero_div] at h
    rw [value_eq_zero_iff.1 h.symm]
    rfl
  · have hx : (0 : Rat) < (n : Rat) / d := div_pos (by exact_mod_cast hn) hd'
    have hpos : 0 < m := by
      refine Nat.pos_of_ne_zero ?_
      rintro rfl
      exact absurd (h.trans (value_zero f)) hx.ne'
    rw [if_neg hn.ne', floorLog2_eq hn hd, h, scale_eq hpos]
    have hsig : n * 2 ^ (-scale f m).toNat = significand f m * (d * 2 ^ (scale f m).toNat) := by
      have hq : (n : Rat) * 2 ^ (-scale f m).toNat = significand f m * (d * 2 ^ (scale f m).toNat) := by
        unfold Format.value at h
        rw [zpow_eq_div two_ne_zero] at h
        field_simp at h
        linarith
      exact_mod_cast hq
    simp only [Nat.pow_eq]
    rw [hsig, nearestEven_mul _ (Nat.mul_pos hd (Nat.two_pow_pos _)), scale_significand]
    exact Nat.min_eq_left hm

end Value

/-! ## Rounding a decimal number -/

theorem lt_pow_digitCount (n : Nat) : n < 10 ^ digitCount n := by
  fun_induction digitCount n with
  | case1 => exact Nat.one_pos
  | case2 n h ih =>
    rw [Nat.pow_succ]
    omega

theorem pow_digitCount_le {n : Nat} (h : 0 < n) : 10 ^ digitCount n ≤ 10 * n := by
  fun_induction digitCount n with
  | case1 => omega
  | case2 n hn ih =>
    by_cases h10 : n / 10 = 0
    · rw [h10, digitCount, if_pos rfl]
      omega
    · have ih := ih (Nat.pos_of_ne_zero h10)
      rw [Nat.pow_succ]
      omega

theorem digitCount_mul_pow {n : Nat} (h : 0 < n) (k : Nat) : digitCount (n * 10 ^ k) = digitCount n + k := by
  induction k with
  | zero => rw [Nat.pow_zero, Nat.mul_one, Nat.add_zero]
  | succ k ih =>
    have hpos : 0 < n * 10 ^ k := Nat.mul_pos h (Nat.pow_pos (by decide))
    rw [Nat.pow_succ, ← Nat.mul_assoc, digitCount, if_neg (by omega), Nat.mul_div_cancel _ (by decide), ih]
    rfl

section Decimal

variable {f : Format} {digits m : Nat} {exponent : Int}

/-- The quotient that is rounded for a decimal number. -/
theorem decimal_eq_div (digits : Nat) (exponent : Int) : (digits : Rat) * 10 ^ exponent =
    ((digits * 10 ^ exponent.toNat : Nat) : Rat) / ((10 ^ (-exponent).toNat : Nat) : Rat) := by
  rw [zpow_eq_div (by norm_num)]
  push_cast
  rw [mul_div_assoc]

theorem decimal_lt (digits : Nat) (exponent : Int) :
    (digits : Rat) * 10 ^ exponent < 10 ^ (exponent + digitCount digits) := by
  have h : (digits : Rat) < 10 ^ (digitCount digits : Int) := by exact_mod_cast lt_pow_digitCount digits
  rw [add_comm, zpow_add₀ (by norm_num)]
  exact mul_lt_mul_of_pos_right h (by positivity)

theorem le_decimal (h : 0 < digits) :
    (10 : Rat) ^ (exponent + digitCount digits - 1) ≤ (digits : Rat) * 10 ^ exponent := by
  have hd : (10 : Rat) ^ (digitCount digits : Int) ≤ 10 * digits := by exact_mod_cast pow_digitCount_le h
  have he : exponent + digitCount digits - 1 = (digitCount digits : Int) + (exponent - 1) := by omega
  rw [he, zpow_add₀ (by norm_num), zpow_sub_one₀ (by norm_num)]
  calc (10 : Rat) ^ (digitCount digits : Int) * (10 ^ exponent * 10⁻¹)
      ≤ 10 * digits * (10 ^ exponent * 10⁻¹) := mul_le_mul_of_nonneg_right hd (by positivity)
    _ = digits * 10 ^ exponent := by
      field_simp

/-- Only the value of a decimal number counts, not how many zeros its digits end with. -/
theorem roundDecimal_rescale (f : Format) (digits k : Nat) (exponent : Int) :
    roundDecimal f (digits * 10 ^ k) exponent = roundDecimal f digits (exponent + k) := by
  unfold roundDecimal
  rcases Nat.eq_zero_or_pos digits with rfl | h
  · rw [Nat.zero_mul, if_pos rfl, if_pos rfl]
  · have hpos : 0 < digits * 10 ^ k := Nat.mul_pos h (Nat.pow_pos (by decide))
    have htop : exponent + (digitCount digits + k : Nat) = exponent + k + digitCount digits := by omega
    have hratio : roundRatio f (digits * 10 ^ k * 10 ^ exponent.toNat) (10 ^ (-exponent).toNat) =
        roundRatio f (digits * 10 ^ (exponent + k).toNat) (10 ^ (-(exponent + k)).toNat) := by
      refine roundRatio_congr (Nat.pow_pos (by decide)) (Nat.pow_pos (by decide)) ?_
      rw [← decimal_eq_div, ← decimal_eq_div, zpow_add₀ (by norm_num), zpow_natCast]
      push_cast
      ring
    simp only [Nat.pow_eq]
    rw [if_neg hpos.ne', if_neg h.ne', digitCount_mul_pow h, htop, hratio]

/-- A decimal number that is a value of the format is read as it. -/
theorem roundDecimal_exact (hm : m < f.infinity) (h : (digits : Rat) * 10 ^ exponent = f.value m) :
    roundDecimal f digits exponent = m := by
  unfold roundDecimal
  rcases Nat.eq_zero_or_pos digits with rfl | hd
  · rw [Nat.cast_zero, zero_mul] at h
    rw [if_pos rfl, value_eq_zero_iff.1 h.symm]
  · have hpos : 0 < m := by
      refine Nat.pos_of_ne_zero ?_
      rintro rfl
      rw [value_zero] at h
      have hd : (0 : Rat) < digits := by exact_mod_cast hd
      exact absurd h (mul_pos hd (by positivity)).ne'
    have hlarge : ¬ (f.bias : Int) + 1 < exponent + digitCount digits := by
      intro hlt
      refine absurd (value_lt_of_lt_infinity hm) (not_lt.2 ?_)
      calc (2 : Rat) ^ ((f.bias : Int) + 1) ≤ 10 ^ ((f.bias : Int) + 1) :=
            zpow_le_zpow_left₀ (by omega) (by norm_num) (by norm_num)
        _ ≤ 10 ^ (exponent + digitCount digits - 1) := zpow_le_zpow_right₀ (by norm_num) (by omega)
        _ ≤ f.value m := h ▸ le_decimal hd
    have hsmall : ¬ exponent + digitCount digits < -((f.bias : Int) + f.fractionBits) := by
      intro hlt
      refine absurd (zpow_leastScale_le_value (f := f) hpos) (not_le.2 ?_)
      calc f.value m < 10 ^ (exponent + digitCount digits) := h ▸ decimal_lt digits exponent
        _ ≤ 10 ^ (-((f.bias : Int) + f.fractionBits)) := zpow_le_zpow_right₀ (by norm_num) hlt.le
        _ ≤ 2 ^ (-((f.bias : Int) + f.fractionBits)) := by
          rw [zpow_neg, zpow_neg]
          exact inv_anti₀ (by positivity) (zpow_le_zpow_left₀ (by omega) (by norm_num) (by norm_num))
        _ ≤ 2 ^ f.leastScale := zpow_le_zpow_right₀ one_le_two (by unfold Format.leastScale; omega)
    dsimp only
    rw [if_neg hd.ne', if_neg hlarge, if_neg hsmall]
    simp only [Nat.pow_eq]
    exact roundRatio_exact (Nat.pow_pos (by decide)) hm.le ((decimal_eq_div digits exponent).symm.trans h)

end Decimal

end Ambient.Binary
