import Ambient.Proofs.Dict
import Ambient.Wire.Headers

/-
Headers are looked up whatever the case of their names. What is found stands under a
name that differs at most in case (`Headers.holds_of_lookup`); which of several such
names counts does not matter where no two names differ in case only
(`Headers.lookup_eq_some_iff`).
-/

namespace Ambient

open Text

@[simp] theorem Text.sameIgnoringCase_self (a : String) : sameIgnoringCase a a = true := beq_self_eq_true _

theorem Text.sameIgnoringCase_comm (a b : String) : sameIgnoringCase a b = sameIgnoringCase b a := Bool.beq_comm

theorem Text.sameIgnoringCase_trans {a b c : String} (h : sameIgnoringCase a b = true)
    (h' : sameIgnoringCase b c = true) : sameIgnoringCase a c = true := by
  simp only [sameIgnoringCase, beq_iff_eq] at h h' ⊢
  exact h.trans h'

namespace Headers

variable {h : Headers} {name other x u v : String}

/-- A value stands under a name, or under one that differs in case only. -/
def Holds (h : Headers) (name v : String) : Prop := ∃ x, sameIgnoringCase x name = true ∧ h.get? x = some v

/-- No two names differ in case only. -/
def Distinct (h : Headers) : Prop := ∀ x ∈ h.keys, ∀ y ∈ h.keys, sameIgnoringCase x y = true → x = y

instance : DecidablePred Distinct := fun h =>
  inferInstanceAs (Decidable (∀ x ∈ h.keys, ∀ y ∈ h.keys, sameIgnoringCase x y = true → x = y))

theorem mem_keys_of_get? (hx : h.get? x = some v) : x ∈ h.keys :=
  List.mem_map.2 ⟨(x, v), Dict.mem_entries.2 hx, rfl⟩

/-- What is found is there. -/
theorem holds_of_lookup (hl : h.lookup name = some v) : h.Holds name v := by
  unfold lookup at hl
  rcases Option.or_eq_some_iff.1 hl with hg | ⟨-, hf⟩
  · exact ⟨name, sameIgnoringCase_self name, hg⟩
  · obtain ⟨e, hfind, rfl⟩ := Option.map_eq_some_iff.1 hf
    have hmem : e ∈ h.entries := List.mem_of_find?_eq_some hfind
    exact ⟨e.1, List.find?_some (p := fun e : String × String => sameIgnoringCase e.1 name) hfind,
      Dict.mem_entries.1 hmem⟩

/-- Nothing is found only if nothing is there. -/
theorem lookup_ne_none (hv : h.Holds name v) : h.lookup name ≠ none := by
  obtain ⟨x, hsame, hx⟩ := hv
  intro hnone
  obtain ⟨-, hf⟩ := Option.or_eq_none_iff.1 hnone
  exact List.find?_eq_none.1 (Option.map_eq_none_iff.1 hf) _ (Dict.mem_entries.2 hx) hsame

theorem lookup_eq_none_iff : h.lookup name = none ↔ ∀ v, ¬ h.Holds name v := by
  constructor
  · exact fun hnone v hv => lookup_ne_none hv hnone
  · intro hnone
    cases hl : h.lookup name with
    | none => rfl
    | some v => exact absurd (holds_of_lookup hl) (hnone v)

/-- Where no two names differ in case only, what is there is what is found. -/
theorem lookup_eq_some_iff (hd : h.Distinct) : h.lookup name = some v ↔ h.Holds name v := by
  refine ⟨holds_of_lookup, fun ⟨x, hsame, hx⟩ => ?_⟩
  cases hl : h.lookup name with
  | none => exact absurd hl (lookup_ne_none ⟨x, hsame, hx⟩)
  | some u =>
    obtain ⟨y, hsame', hy⟩ := holds_of_lookup hl
    have he : x = y := hd x (mem_keys_of_get? hx) y (mem_keys_of_get? hy)
      (sameIgnoringCase_trans hsame (by rwa [sameIgnoringCase_comm]))
    rw [← he, hx] at hy
    exact hy.symm

/-! ## Headers that are written -/

/-- A header does not hide one whose name has other letters. -/
theorem lookup_insert_other (hne : sameIgnoringCase name other = false) (h : Headers) (v : String) :
    lookup (h.insert name v) other = h.lookup other := by
  have hn : name ≠ other := by
    rintro rfl
    rw [sameIgnoringCase_self] at hne
    cases hne
  have hf := find?_insertEntry (p := fun x => sameIgnoringCase x other) hne v h.entries
  unfold lookup
  rw [Dict.get?_insert, if_neg hn]
  exact congrArg (fun e => (h.get? other).or (Option.map Prod.snd e)) hf

theorem lookup_insertAll_other {es : List (String × String)} (hne : ∀ e ∈ es, sameIgnoringCase e.1 other = false)
    (h : Headers) : lookup (h.insertAll es) other = h.lookup other := by
  induction es generalizing h with
  | nil => rfl
  | cons e es ih =>
    exact (ih (fun e he => hne e (List.mem_cons_of_mem _ he)) (h.insert e.1 e.2)).trans
      (lookup_insert_other (hne e List.mem_cons_self) h e.2)

/-- Another value under a name that is there already. -/
theorem Distinct.insert (hd : h.Distinct) (hx : h.get? x = some u) (v : String) :
    Distinct (Dict.insert h x v) := by
  have hkeys : ∀ y ∈ (Dict.insert h x v).keys, y ∈ h.keys := by
    intro y hy
    rcases mem_keys_insertEntry.1 hy with rfl | hy
    · exact mem_keys_of_get? hx
    · exact hy
  exact fun a ha b hb => hd a (hkeys a ha) b (hkeys b hb)

theorem lookup_insert_same (hd : h.Distinct) (hx : h.get? x = some u) (hsame : sameIgnoringCase x name = true)
    (v : String) : lookup (Dict.insert h x v) name = some v := by
  refine (lookup_eq_some_iff (hd.insert hx v)).2 ⟨x, hsame, ?_⟩
  rw [Dict.get?_insert, if_pos rfl]

end Headers

end Ambient
