import Ambient.Wire.Baggage
import Mathlib.Data.List.Sort

/-
Entries in the order of their keys. Distinct keys leave only one such order, so
the order in which entries came does not show (`sortByKey_eq_of_perm`, and for
headers `Baggage.encode_perm`). The entries of one key keep the order in which
they came (`filter_sortByKey`).
-/

namespace Ambient

variable {α : Type}

def sortByKey (l : List (String × α)) : List (String × α) := l.mergeSort fun a b => decide (a.1 ≤ b.1)

theorem keyOrder_trans (a b c : String × α) (hab : decide (a.1 ≤ b.1) = true) (hbc : decide (b.1 ≤ c.1) = true) :
    decide (a.1 ≤ c.1) = true :=
  decide_eq_true (String.le_trans (of_decide_eq_true hab) (of_decide_eq_true hbc))

theorem keyOrder_total (a b : String × α) : (decide (a.1 ≤ b.1) || decide (b.1 ≤ a.1)) = true := by
  rw [Bool.or_eq_true, decide_eq_true_iff, decide_eq_true_iff]
  exact String.le_total a.1 b.1

theorem sortByKey_perm (l : List (String × α)) : (sortByKey l).Perm l := List.mergeSort_perm l _

/-- Entries with distinct keys that are in a list under one key are the same. -/
theorem eq_of_mem_of_key_eq {l : List (String × α)} (hl : (l.map Prod.fst).Nodup) {a b : String × α}
    (ha : a ∈ l) (hb : b ∈ l) (hk : a.1 = b.1) : a = b :=
  List.inj_on_of_nodup_map hl ha hb hk

/-- The same entries with distinct keys have one order. -/
theorem sortByKey_eq_of_perm {l l' : List (String × α)} (hl : (l.map Prod.fst).Nodup) (h : l.Perm l') :
    sortByKey l = sortByKey l' := by
  refine List.Perm.eq_of_pairwise (fun a b ha hb hab hba => ?_)
    (List.pairwise_mergeSort keyOrder_trans keyOrder_total l)
    (List.pairwise_mergeSort keyOrder_trans keyOrder_total l')
    ((sortByKey_perm l).trans (h.trans (sortByKey_perm l').symm))
  have hk : a.1 = b.1 := String.le_antisymm (of_decide_eq_true hab) (of_decide_eq_true hba)
  exact eq_of_mem_of_key_eq hl ((sortByKey_perm l).subset ha) (h.symm.subset ((sortByKey_perm l').subset hb)) hk

/-- Entries with distinct keys are in strict order once they are sorted. -/
theorem pairwise_sortByKey {l : List (String × α)} (hl : (l.map Prod.fst).Nodup) :
    (sortByKey l).Pairwise fun a b => a.1 < b.1 := by
  have keys : ((sortByKey l).map Prod.fst).Nodup := ((sortByKey_perm l).map Prod.fst).nodup_iff.2 hl
  have distinct := List.pairwise_map.1 keys
  have ordered : (sortByKey l).Pairwise fun a b => decide (a.1 ≤ b.1) = true :=
    List.pairwise_mergeSort keyOrder_trans keyOrder_total l
  refine (ordered.and distinct).imp fun {a b} h => ?_
  by_contra hlt
  exact h.2 (String.le_antisymm (of_decide_eq_true h.1) (String.not_lt.1 hlt))

/-- The entries of one key are found in the order in which they came. -/
theorem filter_sortByKey (l : List (String × α)) (k : String) :
    (sortByKey l).filter (fun e => e.1 == k) = l.filter fun e => e.1 == k := by
  have ordered : (l.filter fun e => e.1 == k).Pairwise fun a b => decide (a.1 ≤ b.1) = true := by
    refine List.pairwise_iff_forall_sublist.2 fun {a b} hab => ?_
    have ha := (List.mem_filter.1 (hab.subset (by simp : a ∈ [a, b]))).2
    have hb := (List.mem_filter.1 (hab.subset (by simp : b ∈ [a, b]))).2
    rw [beq_iff_eq] at ha hb
    exact decide_eq_true (ha.trans hb.symm ▸ String.le_refl _)
  have kept : (l.filter fun e => e.1 == k).Sublist (sortByKey l) :=
    List.sublist_mergeSort keyOrder_trans keyOrder_total ordered List.filter_sublist
  have among := kept.filter fun e => e.1 == k
  rw [List.filter_filter] at among
  simp only [Bool.and_self] at among
  exact (among.eq_of_length ((sortByKey_perm l).filter _).length_eq.symm).symm

namespace Baggage

theorem pairs_eq (entries : List (String × Value)) :
    pairs entries = sortByKey (entries.filterMap fun e => (pair e.1 e.2).map fun p => (e.1, p)) := rfl

theorem map_fst_filterMap_pair_sublist (entries : List (String × Value)) :
    ((entries.filterMap fun e => (pair e.1 e.2).map fun p => (e.1, p)).map Prod.fst).Sublist
      (entries.map Prod.fst) := by
  induction entries with
  | nil => exact List.Sublist.refl _
  | cons e entries ih =>
    cases hp : pair e.1 e.2 with
    | none => simpa [hp] using ih.cons e.1
    | some p => simpa [hp] using ih.cons_cons e.1

/-- There is no header if nothing is portable. -/
theorem encode_eq_none_iff {es : List (String × Value)} :
    encode es = none ↔ ∀ e ∈ es, e.2.isPortable = false := by
  have unpaired : ∀ e : String × Value, (pair e.1 e.2).map (fun p => (e.1, p)) = none ↔ e.2.isPortable = false := by
    intro e
    rw [Option.map_eq_none_iff, ← Value.isSome_wireText]
    simp [pair]
  have hp : pairs es = [] ↔ ∀ e ∈ es, e.2.isPortable = false := by
    rw [pairs_eq, ← List.length_eq_zero_iff, (sortByKey_perm _).length_eq, List.length_eq_zero_iff,
      List.filterMap_eq_nil_iff]
    exact forall₂_congr fun e _ => unpaired e
  rw [← hp]
  unfold encode
  cases pairs es <;> simp

/-- A header does not show in which order its entries were given. -/
theorem encode_perm {es fs : List (String × Value)} (hes : (es.map Prod.fst).Nodup) (h : es.Perm fs) :
    encode es = encode fs := by
  have hp : pairs es = pairs fs := by
    rw [pairs_eq, pairs_eq]
    exact sortByKey_eq_of_perm (hes.sublist (map_fst_filterMap_pair_sublist es)) (h.filterMap _)
  unfold encode
  rw [hp]

end Baggage

end Ambient
