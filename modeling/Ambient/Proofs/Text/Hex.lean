import Ambient.Text.Hex
import Mathlib.Data.Nat.Digits.Lemmas
import Mathlib.Tactic.Ring

/-
What a text of digits in base sixteen stands for, said apart from how it is read: each
digit counts by its place in the list of digits. Reading takes just the texts of the
given width that consist of such digits, in either case, and yields their number
(`readHex_eq_some_iff`). Writing that number gives the digits back, with small letters
(`hex_hexNumber`), and behind zeros where there is more room (`hex_add`).
-/

namespace Ambient.Text

/-- The digits in base sixteen with small letters, in the order of their values. -/
def hexDigits : List Char := "0123456789abcdef".toList

/-- The value of a digit of either case. -/
def hexPlace (c : Char) : Nat := hexDigits.idxOf c.toLower

/-- The number that a text of digits stands for, the most significant digit first. -/
def hexNumber (s : List Char) : Nat := Nat.ofDigits 16 (s.reverse.map hexPlace)

variable {c : Char} {s : List Char} {acc n w : Nat}

/-! ## One digit -/

theorem toNat_lt_of_mem_hexDigits (h : c ∈ hexDigits) : c.toNat < 128 := by
  have small : hexDigits.all (fun c => decide (c.toNat < 128)) = true := by decide
  exact of_decide_eq_true (List.all_eq_true.1 small c h)

theorem toLower_of_mem_hexDigits (h : c ∈ hexDigits) : c.toLower = c := by
  have fixed : hexDigits.all (fun c => c.toLower == c) = true := by decide
  exact beq_iff_eq.1 (List.all_eq_true.1 fixed c h)

theorem hexPlace_eq_zero_iff (h : c ∈ hexDigits) : hexPlace c = 0 ↔ c = '0' := by
  have first : hexDigits.all (fun c => (hexPlace c == 0) == (c == '0')) = true := by decide
  simpa using List.all_eq_true.1 first c h

/-- Beyond the small characters there is no digit. -/
theorem hexValue?_of_le (h : 128 ≤ c.toNat) : hexValue? c = none ∧ c.toLower ∉ hexDigits := by
  have above : ∀ d : Char, d.toNat < 128 → ¬ c ≤ d := by
    intro d hd hle
    have hle : c.toNat ≤ d.toNat := hle
    omega
  have hlower : c.toLower = c := by
    unfold Char.toLower
    rw [dif_neg]
    intro hc
    have hz : c.toNat ≤ 90 := hc.2
    omega
  constructor
  · unfold hexValue?
    rw [if_neg fun hc => above '9' (by decide) hc.2, if_neg fun hc => above 'f' (by decide) hc.2,
      if_neg fun hc => above 'F' (by decide) hc.2]
  · intro hc
    rw [hlower] at hc
    have := toNat_lt_of_mem_hexDigits hc
    omega

theorem hexValue?_eq (c : Char) : hexValue? c = if c.toLower ∈ hexDigits then some (hexPlace c) else none := by
  rcases Nat.lt_or_ge c.toNat 128 with h | h
  · have small : ∀ m : Fin 128, hexValue? (Char.ofNat m) =
        if (Char.ofNat m).toLower ∈ hexDigits then some (hexPlace (Char.ofNat m)) else none := by decide +kernel
    have hc := small ⟨c.toNat, h⟩
    rwa [Char.ofNat_toNat] at hc
  · obtain ⟨hnone, hnot⟩ := hexValue?_of_le h
    rw [hnone, if_neg hnot]

/-! ## Numbers -/

theorem hexNumber_cons (c : Char) (s : List Char) : hexNumber (c :: s) = hexPlace c * 16 ^ s.length + hexNumber s := by
  unfold hexNumber
  rw [List.reverse_cons, List.map_append, Nat.ofDigits_append, List.length_map, List.length_reverse, List.map_cons,
    List.map_nil, Nat.ofDigits_singleton]
  ring

/-- Reading goes on from a number that was read before. -/
theorem readHexFrom_eq_some_iff : readHexFrom acc s = some n ↔
    (∀ c ∈ s, c.toLower ∈ hexDigits) ∧ n = acc * 16 ^ s.length + hexNumber s := by
  induction s generalizing acc with
  | nil => simp [readHexFrom, hexNumber, eq_comm]
  | cons c s ih =>
    rw [readHexFrom, hexValue?_eq, hexNumber_cons]
    by_cases hc : c.toLower ∈ hexDigits
    · have hn : (16 * acc + hexPlace c) * 16 ^ s.length + hexNumber s =
          acc * 16 ^ (c :: s).length + (hexPlace c * 16 ^ s.length + hexNumber s) := by
        rw [List.length_cons]
        ring
      rw [if_pos hc, Option.bind_some, ih, hn]
      simp [hc]
    · rw [if_neg hc]
      simp [hc]

theorem readHex_eq_some_iff : readHex w s = some n ↔
    s.length = w ∧ (∀ c ∈ s, c.toLower ∈ hexDigits) ∧ n = hexNumber s := by
  unfold readHex
  split
  · rename_i hw
    rw [readHexFrom_eq_some_iff, Nat.zero_mul, Nat.zero_add]
    simp [hw]
  · rename_i hw
    simp [hw]

/-- All characters are digits, of either case. -/
def IsHexText (s : List Char) : Prop := ∀ c ∈ s, c.toLower ∈ hexDigits

theorem hexPlace_lt (h : c.toLower ∈ hexDigits) : hexPlace c < 16 := List.idxOf_lt_length_of_mem h

theorem IsHexText.hexNumber_lt (h : IsHexText s) : hexNumber s < 16 ^ s.length := by
  have small : ∀ d ∈ s.reverse.map hexPlace, d < 16 := by
    intro d hd
    obtain ⟨c, hc, rfl⟩ := List.mem_map.1 hd
    exact hexPlace_lt (h c (List.mem_reverse.1 hc))
  have hlt := Nat.ofDigits_lt_base_pow_length (by decide) small
  rwa [List.length_map, List.length_reverse] at hlt

theorem hexNumber_lt (h : ∀ c ∈ s, c ∈ hexDigits) : hexNumber s < 16 ^ s.length := by
  have hs : IsHexText s := by
    intro c hc
    rw [toLower_of_mem_hexDigits (h c hc)]
    exact h c hc
  exact hs.hexNumber_lt

/-- Only zeros stand for zero. -/
theorem hexNumber_eq_zero_iff (h : ∀ c ∈ s, c ∈ hexDigits) : hexNumber s = 0 ↔ ∀ c ∈ s, c = '0' := by
  induction s with
  | nil => simp [hexNumber]
  | cons c s ih =>
    have hs := ih fun c hc => h c (List.mem_cons_of_mem _ hc)
    have hpow : (16 : Nat) ^ s.length ≠ 0 := by positivity
    rw [hexNumber_cons, Nat.add_eq_zero_iff, Nat.mul_eq_zero, or_iff_left hpow,
      hexPlace_eq_zero_iff (h c List.mem_cons_self), hs]
    simp

/-! ## Writing the number of a text -/

theorem hexDigit_hexPlace (h : c.toLower ∈ hexDigits) : hexDigit (hexPlace c) = c.toLower := by
  have back : hexDigits.all (fun d => hexDigit (hexDigits.idxOf d) == d) = true := by decide
  exact beq_iff_eq.1 (List.all_eq_true.1 back _ h)

theorem hexNumber_concat (s : List Char) (c : Char) : hexNumber (s ++ [c]) = hexPlace c + 16 * hexNumber s := by
  unfold hexNumber
  rw [List.reverse_append, List.reverse_singleton, List.singleton_append, List.map_cons, Nat.ofDigits_cons]

/-- Writing the number of a text gives its digits back, with small letters. -/
theorem hex_hexNumber (h : IsHexText s) : hex s.length (hexNumber s) = s.map Char.toLower := by
  -- Writing ends with the last digit, so the induction takes the text from its end.
  induction s using List.reverseRecOn with
  | nil => rfl
  | append_singleton s c ih =>
    have hc : c.toLower ∈ hexDigits := h c (by simp)
    have hs : IsHexText s := fun d hd => h d (by simp [hd])
    have hlt := hexPlace_lt hc
    have hdiv : (hexPlace c + 16 * hexNumber s) / 16 = hexNumber s := by omega
    have hmod : (hexPlace c + 16 * hexNumber s) % 16 = hexPlace c := by omega
    rw [List.length_append, List.length_singleton, hexNumber_concat, hex, hdiv, hmod, ih hs, hexDigit_hexPlace hc,
      List.map_append, List.map_singleton]

theorem hex_zero (w : Nat) : hex w 0 = List.replicate w '0' := by
  induction w with
  | zero => rfl
  | succ w ih =>
    rw [hex, Nat.zero_div, ih, Nat.zero_mod, List.replicate_succ']
    rfl

/-- A number that needs fewer digits has zeros in front. -/
theorem hex_add (k : Nat) (h : n < 16 ^ w) : hex (k + w) n = List.replicate k '0' ++ hex w n := by
  induction w generalizing n with
  | zero =>
    obtain rfl : n = 0 := by omega
    rw [Nat.add_zero, hex_zero, hex, List.append_nil]
  | succ w ih =>
    have hlt : n / 16 < 16 ^ w := by
      rw [pow_succ] at h
      omega
    rw [← Nat.add_assoc, hex, ih hlt, hex, List.append_assoc]

end Ambient.Text
