import Ambient.Text.Decimal
import Mathlib.Data.List.TakeDrop
import Mathlib.Data.List.TakeWhile
import Mathlib.Tactic.Ring

/-
Texts of digits. They are read as a number whatever they are; zeros behind them
scale it, and can be told from the other digits at the end.
-/

namespace Ambient.Text

/-! ## One digit -/

theorem eq_digitOf {c : Char} (h : c.isDigit = true) : ∃ n : Fin 10, c = digitOf n := by
  simp only [Char.isDigit, Bool.and_eq_true, decide_eq_true_iff, ge_iff_le, UInt32.le_iff_toNat_le] at h
  have hl : 48 ≤ c.toNat := h.1
  have hu : c.toNat ≤ 57 := h.2
  refine ⟨⟨c.toNat - 48, by omega⟩, ?_⟩
  have hc : '0'.toNat + (c.toNat - 48) = c.toNat := Nat.add_sub_cancel' hl
  unfold digitOf
  dsimp only
  rw [hc, Char.ofNat_toNat]

theorem isDigit_digitOf {n : Nat} (h : n < 10) : (digitOf n).isDigit = true := by
  have all : ∀ m : Fin 10, (digitOf m).isDigit = true := by decide
  exact all ⟨n, h⟩

/-! ## Reading digits -/

theorem isDigit_of_mem_natural {n : Nat} {c : Char} (h : c ∈ natural n) : c.isDigit = true := by
  fun_induction natural n with
  | case1 n hn =>
    rw [List.mem_singleton] at h
    exact h ▸ isDigit_digitOf hn
  | case2 n _ ih =>
    rcases List.mem_append.1 h with h | h
    · exact ih h
    · rw [List.mem_singleton] at h
      exact h ▸ isDigit_digitOf (Nat.mod_lt n (by decide))

theorem readUnsigned_natural (n : Nat) : readUnsigned (natural n) = some n := by
  have hd : ∀ c ∈ natural n, (digitValue? c).isSome := fun _ => digitValue?_of_mem_natural
  have hr := readNatural_natural n
  generalize natural n = s at hd hr
  unfold readUnsigned
  split
  · exact absurd (hd '+' (by simp)) (by decide)
  · exact hr

theorem readDigitsFrom_digits {s : List Char} (h : ∀ c ∈ s, c.isDigit = true) (n : Nat) :
    ∃ m, readDigitsFrom n s = some m := by
  induction s generalizing n with
  | nil => exact ⟨n, rfl⟩
  | cons c s ih =>
    obtain ⟨d, rfl⟩ := eq_digitOf (h c (by simp))
    obtain ⟨m, hm⟩ := ih (fun c hc => h c (List.mem_cons_of_mem _ hc)) (10 * n + d)
    refine ⟨m, ?_⟩
    rw [readDigitsFrom, digitValue?_digitOf d.isLt]
    exact hm

theorem readDigitsFrom_zeros (n k : Nat) : readDigitsFrom n (List.replicate k '0') = some (n * 10 ^ k) := by
  induction k generalizing n with
  | zero => rw [List.replicate_zero, readDigitsFrom, Nat.pow_zero, Nat.mul_one]
  | succ k ih =>
    have h0 : digitValue? '0' = some 0 := by decide
    rw [List.replicate_succ, readDigitsFrom, h0, Option.bind_some, ih, Nat.pow_succ]
    congr 1
    ring

/-- A text is what is left of it without the zeros at its end, and these zeros. -/
theorem exists_zeros (s : List Char) :
    ∃ k, (s.reverse.dropWhile (· == '0')).reverse ++ List.replicate k '0' = s := by
  refine ⟨(s.reverse.takeWhile (· == '0')).length, ?_⟩
  have hz : s.reverse.takeWhile (· == '0') = List.replicate (s.reverse.takeWhile (· == '0')).length '0' :=
    List.eq_replicate_iff.2 ⟨rfl, fun c hc => by simpa using List.mem_takeWhile_imp hc⟩
  have hs := congrArg List.reverse (List.takeWhile_append_dropWhile (p := (· == '0')) (l := s.reverse))
  rw [List.reverse_append, List.reverse_reverse, hz, List.reverse_replicate] at hs
  exact hs

/-- Digits are taken off up to the first other character. -/
theorem span_digits {s t : List Char} (hs : ∀ c ∈ s, c.isDigit = true) (ht : ∀ c ∈ t.head?, c.isDigit = false) :
    (s ++ t).span Char.isDigit = (s, t) := by
  have hdrop : t.dropWhile Char.isDigit = t := by
    cases t with
    | nil => rfl
    | cons c t => exact List.dropWhile_cons_of_neg (by simp [ht c rfl])
  have htake : t.takeWhile Char.isDigit = [] := by
    cases t with
    | nil => rfl
    | cons c t => exact List.takeWhile_cons_of_neg (by simp [ht c rfl])
  rw [List.span_eq_takeWhile_dropWhile, List.takeWhile_append_of_pos hs, List.dropWhile_append_of_pos hs, hdrop,
    htake, List.append_nil]

end Ambient.Text
