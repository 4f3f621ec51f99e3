import Ambient.Text.Blank
import Ambient.Text.Percent

/-
Percent coding loses nothing (`percentDecode_percentEncode`), and it writes
unreserved characters and `%` only, so no separator and no blank.
-/

namespace Ambient.Text

/-! ## One byte -/

/-- The characters that percent coding writes. -/
def isCoded (c : Char) : Bool := isUnreserved c || c == '%'

theorem percentByte_eq (b : UInt8) : percentByte b =
    ['%', (hexDigit (b.toNat / 16 % 16)).toUpper, (hexDigit (b.toNat % 16)).toUpper] := rfl

theorem hexValue?_toUpper_hexDigit {n : Nat} (h : n < 16) : hexValue? (hexDigit n).toUpper = some n := by
  have : ∀ m : Fin 16, hexValue? (hexDigit m).toUpper = some m.val := by decide
  exact this ⟨n, h⟩

theorem isCoded_toUpper_hexDigit {n : Nat} (h : n < 16) : isCoded (hexDigit n).toUpper = true := by
  have : ∀ m : Fin 16, isCoded (hexDigit m).toUpper = true := by decide
  exact this ⟨n, h⟩

/-- Unreserved characters of one byte. -/
theorem unreserved_byte {n : Nat} (h : n < 128) (hu : isUnreserved (Char.ofNat n) = true) :
    Char.ofNat n ≠ '%' ∧ String.utf8EncodeChar (Char.ofNat n) = [UInt8.ofNat n] := by
  have : ∀ m : Fin 128, isUnreserved (Char.ofNat m) = true →
      Char.ofNat m ≠ '%' ∧ String.utf8EncodeChar (Char.ofNat m) = [UInt8.ofNat m] := by decide +kernel
  exact this ⟨n, h⟩ hu

theorem percentDecodeBytes_cons {c : Char} (h : c ≠ '%') (s : List Char) :
    percentDecodeBytes (c :: s) = String.utf8EncodeChar c ++ percentDecodeBytes s := by
  rw [percentDecodeBytes]
  rintro _ _ _ rfl
  exact absurd rfl h

/-- A byte that was written is read back, whatever follows. -/
theorem percentDecodeBytes_percentEncodeByte (b : UInt8) (s : List Char) :
    percentDecodeBytes (percentEncodeByte b ++ s) = b :: percentDecodeBytes s := by
  unfold percentEncodeByte
  dsimp only
  split
  · rename_i hb
    rw [Bool.and_eq_true, decide_eq_true_iff] at hb
    obtain ⟨hne, hbytes⟩ := unreserved_byte (UInt8.lt_iff_toNat_lt.1 hb.1) hb.2
    rw [List.singleton_append, percentDecodeBytes_cons hne, hbytes, UInt8.ofNat_toNat]
    rfl
  · have hlt : b.toNat < 256 := b.toNat_lt
    have hb : 16 * (b.toNat / 16 % 16) + b.toNat % 16 = b.toNat := by omega
    rw [percentByte_eq, List.cons_append, List.cons_append, List.cons_append, List.nil_append, percentDecodeBytes,
      hexValue?_toUpper_hexDigit (Nat.mod_lt _ (by decide)), hexValue?_toUpper_hexDigit (Nat.mod_lt _ (by decide))]
    simp only [hb, UInt8.ofNat_toNat]

theorem isCoded_of_mem_percentEncodeByte {b : UInt8} {c : Char} (h : c ∈ percentEncodeByte b) :
    isCoded c = true := by
  unfold percentEncodeByte at h
  dsimp only at h
  split at h
  · rename_i hb
    rw [Bool.and_eq_true] at hb
    rw [List.mem_singleton] at h
    subst h
    simp [isCoded, hb.2]
  · rw [percentByte_eq] at h
    simp only [List.mem_cons, List.not_mem_nil, or_false] at h
    rcases h with rfl | rfl | rfl
    · decide
    · exact isCoded_toUpper_hexDigit (Nat.mod_lt _ (by decide))
    · exact isCoded_toUpper_hexDigit (Nat.mod_lt _ (by decide))

/-! ## Texts -/

theorem percentDecodeBytes_percentEncodeBytes (bs : List UInt8) :
    percentDecodeBytes (percentEncodeBytes bs) = bs := by
  unfold percentEncodeBytes
  induction bs with
  | nil => rfl
  | cons b bs ih => rw [List.flatMap_cons, percentDecodeBytes_percentEncodeByte, ih]

/-- The bytes of an array, from one place on. -/
theorem toList_loop (b : ByteArray) (i : Nat) (r : List UInt8) :
    ByteArray.toList.loop b i r = r.reverse ++ b.data.toList.drop i := by
  fun_induction ByteArray.toList.loop b i r with
  | case1 i r h ih =>
    have hi : i < b.data.toList.length := h
    have hget : b.get! i = b.data.toList[i] := by simp [ByteArray.get!, getElem!_pos b.data i h]
    rw [ih, List.drop_eq_getElem_cons hi, List.reverse_cons, List.append_assoc, hget]
    rfl
  | case2 i r h =>
    have hi : b.data.toList.length ≤ i := Nat.le_of_not_lt h
    rw [List.drop_eq_nil_of_le hi, List.append_nil]

theorem toByteArray_toList (b : ByteArray) : b.toList.toByteArray = b := by
  have hl : b.toList = b.data.toList := toList_loop b 0 []
  rw [hl]
  exact ByteArray.ext (List.data_toByteArray.trans (Array.toArray_toList ..))

/-- A text that was written is read back. -/
theorem percentDecode_percentEncode (s : String) : percentDecode (percentEncode s) = some s := by
  unfold percentDecode percentEncode
  rw [percentDecodeBytes_percentEncodeBytes, toByteArray_toList]
  exact dif_pos s.isValidUTF8

theorem isCoded_of_mem_percentEncode {s : String} {c : Char} (h : c ∈ percentEncode s) : isCoded c = true := by
  obtain ⟨b, -, hc⟩ := List.mem_flatMap.1 h
  exact isCoded_of_mem_percentEncodeByte hc

/-! ## What is not written -/

theorem bounds_of_isCoded {c : Char} (h : isCoded c = true) : 37 ≤ c.toNat ∧ c.toNat ≤ 126 := by
  have within : ∀ {l u : UInt32}, l ≤ c.val ∧ c.val ≤ u → 37 ≤ l.toNat → u.toNat ≤ 126 →
      37 ≤ c.toNat ∧ c.toNat ≤ 126 := fun h hl hu =>
    ⟨Nat.le_trans hl (UInt32.le_iff_toNat_le.1 h.1), Nat.le_trans (UInt32.le_iff_toNat_le.1 h.2) hu⟩
  have both : ∀ {l u : UInt32}, (decide (l ≤ c.val) && decide (c.val ≤ u)) = true → l ≤ c.val ∧ c.val ≤ u := fun h =>
    (Bool.and_eq_true_iff.1 h).imp of_decide_eq_true of_decide_eq_true
  simp only [isCoded, isUnreserved, Bool.or_eq_true, beq_iff_eq] at h
  rcases h with ((((h | rfl) | rfl) | rfl) | rfl) | rfl
  · rcases Bool.or_eq_true_iff.1 h with h | h
    · rcases Bool.or_eq_true_iff.1 h with h | h
      · have hupper : 'A'.val ≤ c.val ∧ c.val ≤ 'Z'.val := of_decide_eq_true h
        exact within hupper (by decide) (by decide)
      · exact within (both (l := 'a'.val) (u := 'z'.val) h) (by decide) (by decide)
    · exact within (both (l := '0'.val) (u := '9'.val) h) (by decide) (by decide)
  all_goals decide

theorem isBlank_of_bounds {c : Char} (hl : 33 ≤ c.toNat) (hu : c.toNat ≤ 126) : isBlank c = false := by
  simp only [isBlank, blankRanges, List.any_cons, List.any_nil, Bool.or_eq_false_iff, Bool.and_eq_false_iff,
    decide_eq_false_iff_not, and_true]
  omega

theorem isBlank_of_isCoded {c : Char} (h : isCoded c = true) : isBlank c = false :=
  have hb := bounds_of_isCoded h
  isBlank_of_bounds (Nat.le_trans (by decide) hb.1) hb.2

theorem trim_of_all {s : List Char} (h : ∀ c ∈ s, isBlank c = false) : trim s = s :=
  trim_eq_self (fun c hc => h c (List.mem_of_head? hc)) fun c hc => h c (List.mem_of_getLast? hc)

end Ambient.Text
