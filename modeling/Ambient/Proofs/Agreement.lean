import Ambient.Value

/-
When two reads agree: they are identical, or equal as values. Equality of values
tells no two zeros of a format apart and finds what is no number unequal even to
itself, so it is coarser than identity in one place and not reflexive in
another; agreement is an equivalence (`Agrees.symm`, `Agrees.trans`).
-/

namespace Ambient

open Binary (Number)

theorem Binary.Number.sameValue_symm {f : Binary.Format} {x y : Number f} (h : x.sameValue y = true) :
    y.sameValue x = true := by
  simp only [Number.sameValue, Number.isNaN, Bool.and_eq_true, Bool.not_eq_true', decide_eq_false_iff_not,
    beq_iff_eq, Bool.or_eq_true] at h ⊢
  obtain ⟨⟨hx, hm⟩, hs⟩ := h
  exact ⟨⟨hm ▸ hx, hm.symm⟩, hs.imp (fun h => hm ▸ h) Eq.symm⟩

theorem Binary.Number.sameValue_trans {f : Binary.Format} {x y z : Number f}
    (hxy : x.sameValue y = true) (hyz : y.sameValue z = true) : x.sameValue z = true := by
  simp only [Number.sameValue, Bool.and_eq_true, beq_iff_eq, Bool.or_eq_true] at hxy hyz ⊢
  obtain ⟨⟨hx, hm⟩, hs⟩ := hxy
  obtain ⟨⟨-, hm'⟩, hs'⟩ := hyz
  refine ⟨⟨hx, hm.trans hm'⟩, ?_⟩
  rcases hs with hs | hs
  · exact .inl hs
  · exact hs'.imp (fun h => hm.trans h) hs.trans

namespace Value

theorem same_symm {a b : Value} (h : a.same b = true) : b.same a = true := by
  cases a <;> cases b <;> simp only [same, Bool.false_eq_true] at h ⊢
  case single.single => exact Number.sameValue_symm h
  case double.double => exact Number.sameValue_symm h
  all_goals simp only [Bool.and_eq_true, beq_iff_eq] at h ⊢
  case integer.integer => exact ⟨h.1.symm, h.2.symm⟩
  all_goals exact h.symm

theorem same_trans {a b c : Value} (hab : a.same b = true) (hbc : b.same c = true) :
    a.same c = true := by
  cases a <;> cases b <;> simp only [same, Bool.false_eq_true] at hab <;>
    cases c <;> simp only [same, Bool.false_eq_true] at hbc ⊢
  case single.single.single => exact Number.sameValue_trans hab hbc
  case double.double.double => exact Number.sameValue_trans hab hbc
  all_goals simp only [Bool.and_eq_true, beq_iff_eq] at hab hbc ⊢
  case integer.integer.integer => exact ⟨hab.1.trans hbc.1, hab.2.trans hbc.2⟩
  all_goals exact hab.trans hbc

end Value

theorem sameValue?_symm {a b : Option Value} (h : sameValue? a b = true) : sameValue? b a = true := by
  cases a <;> cases b <;> simp only [sameValue?, Bool.false_eq_true] at h ⊢
  exact Value.same_symm h

theorem sameValue?_trans {a b c : Option Value} (hab : sameValue? a b = true)
    (hbc : sameValue? b c = true) : sameValue? a c = true := by
  cases a <;> cases b <;> simp only [sameValue?, Bool.false_eq_true] at hab <;>
    cases c <;> simp only [sameValue?, Bool.false_eq_true] at hbc ⊢
  exact Value.same_trans hab hbc

/-- Two reads agree: both absent, identical, or equal as values. -/
def Agrees (a b : Option Value) : Prop := a = b ∨ sameValue? a b = true

namespace Agrees

@[refl] theorem refl (a : Option Value) : Agrees a a := .inl rfl

theorem symm {a b : Option Value} (h : Agrees a b) : Agrees b a :=
  h.imp Eq.symm sameValue?_symm

theorem trans {a b c : Option Value} (hab : Agrees a b) (hbc : Agrees b c) : Agrees a c := by
  rcases hab with rfl | hab
  · exact hbc
  rcases hbc with rfl | hbc
  · exact .inr hab
  · exact .inr (sameValue?_trans hab hbc)

/-- Only what is absent agrees with what is absent. -/
@[simp] theorem none_iff {a : Option Value} : Agrees a none ↔ a = none := by
  cases a <;> simp [Agrees, sameValue?]

end Agrees

end Ambient
