import Ambient.Proofs.Text.Hex
import Ambient.Proofs.Text.Percent

/-
Digits in base sixteen as the bytes of a text. Two digits make a byte, the upper half
first, and the bytes make a number, the most significant first. Where the length of a text
is counted in bytes and its digits are packed in this way, the outcome is the same as
where its characters are read one by one (`readHex_eq_packed`), although a character may
take several bytes: none that does is a digit. Writing byte by byte gives the same digits,
too (`hex_eq_flatMap`).
-/

namespace Ambient.Text

/-- The value of a digit that is given as a byte. -/
def byteValue? (b : UInt8) : Option Nat := hexValue? (Char.ofNat b.toNat)

/-- The bytes that digits make, two each, the upper half first. One that is left over makes none. -/
def packHex : List UInt8 → Option (List UInt8)
  | [] => some []
  | [_] => none
  | upper :: lower :: rest => do
    let u ← byteValue? upper
    let l ← byteValue? lower
    let bytes ← packHex rest
    return UInt8.ofNat (16 * u + l) :: bytes

/-- The number that bytes stand for, the most significant byte first. -/
def bigEndian (bytes : List UInt8) : Nat := Nat.ofDigits 256 (bytes.reverse.map UInt8.toNat)

/-- The last `width` bytes of a number. -/
def bytesOf : (width : Nat) → (n : Nat) → List UInt8
  | 0, _ => []
  | w + 1, n => bytesOf w (n / 256) ++ [UInt8.ofNat (n % 256)]

variable {b : UInt8} {bs packed : List UInt8} {c : Char} {s : List Char} {w : Nat}

theorem bigEndian_cons (b : UInt8) (bs : List UInt8) : bigEndian (b :: bs) = b.toNat * 256 ^ bs.length + bigEndian bs := by
  unfold bigEndian
  rw [List.reverse_cons, List.map_append, Nat.ofDigits_append, List.length_map, List.length_reverse, List.map_cons,
    List.map_nil, Nat.ofDigits_singleton]
  ring

/-! ## Bytes of a text -/

theorem toList_toUTF8 (text : String) : text.toUTF8.toList = text.toList.flatMap String.utf8EncodeChar := by
  have hbytes : text.toUTF8.toList = text.toUTF8.data.toList := toList_loop text.toUTF8 0 []
  have hutf8 : text.toUTF8 = text.toList.utf8Encode := String.utf8Encode_toList.symm
  rw [hbytes, hutf8, List.utf8Encode, List.data_toByteArray]

theorem utf8ByteSize_eq (text : String) :
    text.utf8ByteSize = (text.toList.flatMap String.utf8EncodeChar).length := by
  have hutf8 : text.toByteArray = text.toList.utf8Encode := String.utf8Encode_toList.symm
  rw [String.utf8ByteSize, hutf8, List.utf8Encode, List.size_toByteArray]

/-- A small character is one byte. -/
theorem utf8EncodeChar_of_lt (h : c.toNat < 128) : String.utf8EncodeChar c = [UInt8.ofNat c.toNat] :=
  if_pos (Nat.le_of_lt_succ h)

/-- Any other has a byte that is no small character. -/
theorem exists_byte_of_le (h : 128 ≤ c.toNat) : ∃ b ∈ String.utf8EncodeChar c, 128 ≤ b.toNat := by
  have large : ¬ c.val.toNat ≤ 127 := Nat.not_le_of_lt h
  have first : ∀ n, 128 ≤ n → n < 256 → 128 ≤ (UInt8.ofNat n).toNat := by
    intro n hn hlt
    rwa [UInt8.toNat_ofNat_of_lt' hlt]
  unfold String.utf8EncodeChar
  simp only [if_neg large]
  split
  · exact ⟨_, List.mem_cons_self, first _ (by omega) (by omega)⟩
  · split <;> exact ⟨_, List.mem_cons_self, first _ (by omega) (by omega)⟩

theorem byteValue?_ofNat (h : c.toNat < 128) : byteValue? (UInt8.ofNat c.toNat) = hexValue? c := by
  have hlt : c.toNat < UInt8.size := Nat.lt_trans h (by decide)
  rw [byteValue?, UInt8.toNat_ofNat_of_lt' hlt, Char.ofNat_toNat]

theorem byteValue?_of_le (h : 128 ≤ b.toNat) : byteValue? b = none := by
  have upper : ∀ m : Fin 256, 128 ≤ m.val → hexValue? (Char.ofNat m) = none := by decide +kernel
  exact upper ⟨b.toNat, b.toNat_lt⟩ h

theorem toNat_lt_of_isHex (h : c.toLower ∈ hexDigits) : c.toNat < 128 := by
  by_contra hge
  exact (hexValue?_of_le (Nat.le_of_not_lt hge)).2 h

theorem flatMap_utf8EncodeChar (h : IsHexText s) :
    s.flatMap String.utf8EncodeChar = s.map fun c => UInt8.ofNat c.toNat := by
  induction s with
  | nil => rfl
  | cons c s ih =>
    have hc := utf8EncodeChar_of_lt (toNat_lt_of_isHex (h c List.mem_cons_self))
    rw [List.flatMap_cons, hc, ih fun d hd => h d (List.mem_cons_of_mem _ hd)]
    rfl

/-! ## Packing -/

theorem packHex_cons_cons (upper lower : UInt8) (rest : List UInt8) :
    packHex (upper :: lower :: rest) = (byteValue? upper).bind fun u => (byteValue? lower).bind fun l =>
      (packHex rest).map fun bytes => UInt8.ofNat (16 * u + l) :: bytes := by
  rw [packHex]
  cases byteValue? upper <;> cases byteValue? lower <;> cases packHex rest <;> rfl

/-- Only digits are packed. -/
theorem isSome_of_packHex (h : packHex bs = some packed) : ∀ b ∈ bs, (byteValue? b).isSome := by
  induction bs using packHex.induct generalizing packed with
  | case1 => simp
  | case2 => simp [packHex] at h
  | case3 upper lower rest ih =>
    rw [packHex_cons_cons] at h
    obtain ⟨u, hu, h⟩ := Option.bind_eq_some_iff.1 h
    obtain ⟨l, hl, h⟩ := Option.bind_eq_some_iff.1 h
    obtain ⟨bytes, hrest, -⟩ := Option.map_eq_some_iff.1 h
    simpa [hu, hl] using ih hrest

theorem isHexText_of_packHex (h : packHex (s.flatMap String.utf8EncodeChar) = some packed) : IsHexText s := by
  intro c hc
  have digits : ∀ b ∈ String.utf8EncodeChar c, (byteValue? b).isSome := fun b hb =>
    isSome_of_packHex h b (List.mem_flatMap.2 ⟨c, hc, hb⟩)
  rcases Nat.lt_or_ge c.toNat 128 with hlt | hle
  · have hdigit := digits _ (by rw [utf8EncodeChar_of_lt hlt]; exact List.mem_singleton_self _)
    rw [byteValue?_ofNat hlt, hexValue?_eq] at hdigit
    by_contra hnot
    rw [if_neg hnot] at hdigit
    cases hdigit
  · obtain ⟨b, hb, hge⟩ := exists_byte_of_le hle
    have hdigit := digits b hb
    rw [byteValue?_of_le hge] at hdigit
    cases hdigit

/-- Two digits for each byte stand for the same number as the bytes. -/
theorem packHex_of_isHexText (h : IsHexText s) (hw : s.length = 2 * w) :
    ∃ packed, packHex (s.map fun c => UInt8.ofNat c.toNat) = some packed ∧ packed.length = w ∧
      bigEndian packed = hexNumber s := by
  induction w generalizing s with
  | zero =>
    obtain rfl := List.length_eq_zero_iff.1 hw
    exact ⟨[], rfl, rfl, rfl⟩
  | succ w ih =>
    match s, hw with
    | c :: d :: s, hw =>
      have hc : c.toLower ∈ hexDigits := h c (by simp)
      have hd : d.toLower ∈ hexDigits := h d (by simp)
      have hlen : s.length = 2 * w := by
        simp only [List.length_cons] at hw
        omega
      obtain ⟨packed, hpack, rfl, hnumber⟩ := ih (fun x hx => h x (by simp [hx])) hlen
      have upper : byteValue? (UInt8.ofNat c.toNat) = some (hexPlace c) := by
        rw [byteValue?_ofNat (toNat_lt_of_isHex hc), hexValue?_eq, if_pos hc]
      have lower : byteValue? (UInt8.ofNat d.toNat) = some (hexPlace d) := by
        rw [byteValue?_ofNat (toNat_lt_of_isHex hd), hexValue?_eq, if_pos hd]
      have hbyte : (UInt8.ofNat (16 * hexPlace c + hexPlace d)).toNat = 16 * hexPlace c + hexPlace d := by
        have := hexPlace_lt hc
        have := hexPlace_lt hd
        exact UInt8.toNat_ofNat_of_lt' (by simp only [UInt8.size]; omega)
      refine ⟨UInt8.ofNat (16 * hexPlace c + hexPlace d) :: packed, ?_, rfl, ?_⟩
      · rw [List.map_cons, List.map_cons, packHex_cons_cons, upper, lower, hpack]
        rfl
      · rw [bigEndian_cons, hexNumber_cons, hexNumber_cons, hbyte, hnumber, List.length_cons, hlen, pow_succ, pow_mul]
        ring

/-- Reading a text of two digits for each byte is packing its bytes. -/
theorem readHex_eq_packed (text : String) (w : Nat) : readHex (2 * w) text.toList =
    if text.utf8ByteSize = 2 * w then (packHex text.toUTF8.toList).map bigEndian else none := by
  rw [utf8ByteSize_eq, toList_toUTF8]
  by_cases h : IsHexText text.toList
  · rw [flatMap_utf8EncodeChar h, List.length_map]
    split
    · rename_i hw
      obtain ⟨packed, hpack, -, hnumber⟩ := packHex_of_isHexText h hw
      rw [hpack, Option.map_some, hnumber]
      exact readHex_eq_some_iff.2 ⟨hw, h, rfl⟩
    · rename_i hw
      exact if_neg hw
  · have hread : readHex (2 * w) text.toList = none := by
      rw [Option.eq_none_iff_forall_ne_some]
      intro n hn
      exact h (readHex_eq_some_iff.1 hn).2.1
    have hpack : packHex (text.toList.flatMap String.utf8EncodeChar) = none := by
      rw [Option.eq_none_iff_forall_ne_some]
      intro packed hp
      exact h (isHexText_of_packHex hp)
    rw [hread, hpack, Option.map_none, ite_self]

/-! ## Writing -/

/-- Writing a number is writing its bytes, each with two digits. -/
theorem hex_eq_flatMap (w n : Nat) : hex (2 * w) n = (bytesOf w n).flatMap fun b => hex 2 b.toNat := by
  induction w generalizing n with
  | zero => rfl
  | succ w ih =>
    have hbyte : (UInt8.ofNat (n % 256)).toNat = n % 256 := UInt8.toNat_ofNat_of_lt' (Nat.mod_lt _ (by decide))
    have htop : n / 16 / 16 = n / 256 := Nat.div_div_eq_div_mul n 16 16
    have hupper : n % 256 / 16 % 16 = n / 16 % 16 := by omega
    have hlower : n % 256 % 16 = n % 16 := by omega
    rw [Nat.mul_succ, hex, hex, ih, htop, bytesOf, List.flatMap_append, List.flatMap_singleton, hbyte, hex, hex, hex,
      hupper, hlower, List.append_assoc, List.nil_append]

end Ambient.Text
