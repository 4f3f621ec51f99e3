import Ambient.Json.Text

/-
A written text is read back in front of any rest (`readText_append`), whatever
characters it holds: each is escaped as something that reads as that character
(`readText_escapeChar`).
-/

namespace Ambient.Json

open Text

theorem utf8Size_hexDigit {n : Nat} (h : n < 16) : (hexDigit n).utf8Size = 1 := by
  have : ∀ m : Fin 16, (hexDigit m).utf8Size = 1 := by decide
  exact this ⟨n, h⟩

theorem byteCount_append (s r : List Char) : byteCount (s ++ r) = byteCount s + byteCount r := by
  induction s with
  | nil => simp [byteCount]
  | cons c s ih =>
    simp only [byteCount, List.cons_append, List.foldr_cons] at ih ⊢
    omega

theorem byteCount_hex (w n : Nat) : byteCount (hex w n) = w := by
  induction w generalizing n with
  | zero => rfl
  | succ w ih =>
    rw [hex, byteCount_append, ih]
    simp [byteCount, utf8Size_hexDigit (Nat.mod_lt n (by omega : 16 > 0))]

/-- The four digits of a number are read back. -/
theorem readFourHex_hex {n : Nat} (h : n < 0x10000) (s : List Char) : readFourHex (hex 4 n ++ s) = .ok (n, s) := by
  have htake : (hex 4 n ++ s).take 4 = hex 4 n := List.take_left' (length_hex 4 n)
  have hdrop : (hex 4 n ++ s).drop 4 = s := List.drop_left' (length_hex 4 n)
  have hn : n % Nat.pow 16 4 = n := Nat.mod_eq_of_lt h
  simp only [readFourHex, htake, hdrop, byteCount_hex, readHex_hex, hn, Nat.lt_irrefl, if_false]

theorem readNumbered_hex {c : Char} (h : c < ' ') (s : List Char) :
    readNumbered (hex 4 c.toNat ++ s) = .ok (c, s) := by
  have hc : c.toNat < 32 := h
  have hl : isLowerSurrogate c.toNat = false := by simp [isLowerSurrogate]; omega
  have hu : isUpperSurrogate c.toNat = false := by simp [isUpperSurrogate]; omega
  simp [readNumbered, readFourHex_hex (show c.toNat < 0x10000 by omega), hl, hu, bind, Except.bind]

/-- What a character is escaped as reads as that character. -/
theorem readText_escapeChar (c : Char) (s : List Char) :
    readText (escapeChar c ++ s) = (readText s).map fun p => (c :: p.1, p.2) := by
  have escaped : ∀ e, readEscape (e ++ s) = .ok (c, s) →
      readText ('\\' :: (e ++ s)) = (readText s).map fun p => (c :: p.1, p.2) := by
    intro e h
    rw [readText]
    split
    · rename_i he
      rw [h] at he
      cases he
    · rename_i c' r he
      rw [h] at he
      cases he
      rfl
  unfold escapeChar
  split
  · subst_vars
    exact escaped ['"'] rfl
  split
  · subst_vars
    exact escaped ['\\'] rfl
  split
  · subst_vars
    exact escaped ['b'] rfl
  split
  · subst_vars
    exact escaped ['f'] rfl
  split
  · subst_vars
    exact escaped ['n'] rfl
  split
  · subst_vars
    exact escaped ['r'] rfl
  split
  · subst_vars
    exact escaped ['t'] rfl
  split
  · rename_i hc
    exact escaped ('u' :: hex 4 c.toNat) (readNumbered_hex hc s)
  · rename_i hquote hback _ _ _ _ _ hc
    rw [List.singleton_append, readText, if_neg hc]
    · exact hquote
    · exact hback

/-- A text is read back in front of any rest. -/
theorem readText_append (cs s : List Char) :
    readText (cs.flatMap escapeChar ++ '"' :: s) = .ok (cs, s) := by
  induction cs with
  | nil => simp [readText]
  | cons c cs ih => rw [List.flatMap_cons, List.append_assoc, readText_escapeChar, ih]; rfl

end Ambient.Json
