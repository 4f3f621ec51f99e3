import Ambient.Proofs.Dict
import Ambient.Proofs.Wire.KeyOrder
import Ambient.Proofs.Wire.Segment
import Mathlib.Data.List.Forall2

/-
What a baggage header carries: the portable entries that have a key. Reading the
header yields them in the order of their keys, those of one key in the order in
which they were given (`Baggage.readEntries_encode`); so it yields the map that
they make in the given order (`Baggage.get?_decodeInto_encode`).
-/

namespace Ambient

open Text

/-- Values of a map, compared as what is read with what was written. -/
theorem Dict.rel_insertAll {α : Type} {R : α → α → Prop} {es fs : List (String × α)}
    (h : List.Forall₂ (fun e f => e.1 = f.1 ∧ R e.2 f.2) es fs) {d d' : Dict String α} {k : String}
    (hd : Option.Rel R (d.get? k) (d'.get? k)) : Option.Rel R ((d.insertAll es).get? k) ((d'.insertAll fs).get? k) := by
  induction h generalizing d d' with
  | nil => exact hd
  | @cons e f es fs hef _ ih =>
    refine ih ?_
    rw [Dict.get?_insert, Dict.get?_insert, ← hef.1]
    split
    · exact .some hef.2
    · exact hd

namespace Baggage

/-- The entries that a header carries. -/
def carried (es : List (String × Value)) : List (String × Value) := es.filter fun e => e.2.isPortable && e.1 != ""

/-- The segment of a portable entry. -/
def segment (e : String × Value) : List Char := (pair e.1 e.2).getD []

theorem pair_eq_segment {e : String × Value} (h : e.2.isPortable = true) : pair e.1 e.2 = some (segment e) := by
  have hs : (pair e.1 e.2).isSome = true := by
    rw [← Value.isSome_wireText] at h
    simpa [pair] using h
  unfold segment
  cases hp : pair e.1 e.2 with
  | none => rw [hp] at hs; cases hs
  | some p => rfl

theorem sortByKey_map {α β : Type} (g : String × α → β) (l : List (String × α)) :
    sortByKey (l.map fun e => (e.1, g e)) = (sortByKey l).map fun e => (e.1, g e) := by
  unfold sortByKey
  exact (List.map_mergeSort (f := fun e => (e.1, g e)) fun _ _ _ _ => rfl).symm

/-- The portable entries, in the order of their keys. -/
def sortedPortable (es : List (String × Value)) : List (String × Value) := sortByKey (es.filter fun e => e.2.isPortable)

theorem isPortable_of_mem_sortedPortable {es : List (String × Value)} {e : String × Value}
    (h : e ∈ sortedPortable es) : e.2.isPortable = true :=
  (List.mem_filter.1 ((sortByKey_perm _).subset h)).2

/-- What is written are the segments of the portable entries, in the order of their keys. -/
theorem map_snd_pairs (es : List (String × Value)) : (pairs es).map Prod.snd = (sortedPortable es).map segment := by
  have hp : (es.filterMap fun e => (pair e.1 e.2).map fun p => (e.1, p)) =
      (es.filter fun e => e.2.isPortable).map fun e => (e.1, segment e) := by
    induction es with
    | nil => rfl
    | cons e es ih =>
      cases h : e.2.isPortable with
      | false =>
        have hn : pair e.1 e.2 = none := by
          rw [← Value.isSome_wireText] at h
          simpa [pair] using h
        rw [List.filterMap_cons, hn, List.filter_cons_of_neg (by simp [h])]
        exact ih
      | true =>
        rw [List.filterMap_cons, pair_eq_segment h, List.filter_cons_of_pos (by simp [h]), List.map_cons, ← ih]
        rfl
  rw [pairs_eq, hp, sortByKey_map, List.map_map]
  rfl

/-- Segments read one by one: the entries that have a key, in their order. -/
theorem filterMap_readSegment {es : List (String × Value)} (h : ∀ e ∈ es, e.2.isPortable = true) :
    List.Forall₂ (fun e f => e.1 = f.1 ∧ e.2.Alike f.2) (es.filter fun e => e.1 != "")
      ((es.map segment).filterMap fun p => (readSegment p).toOption) := by
  induction es with
  | nil => exact .nil
  | cons e es ih =>
    obtain ⟨k, v⟩ := e
    have hp := pair_eq_segment (h (k, v) (by simp))
    have ih := ih fun e he => h e (List.mem_cons_of_mem _ he)
    by_cases hk : k = ""
    · subst hk
      rw [List.map_cons, List.filterMap_cons, readSegment_pair_empty hp, List.filter_cons_of_neg (by simp)]
      exact ih
    · obtain ⟨v', hr, ha⟩ := readSegment_pair hk hp
      rw [List.map_cons, List.filterMap_cons, hr, List.filter_cons_of_pos (by simpa using hk)]
      exact .cons ⟨rfl, ha⟩ ih

/-- A header is the segments of the portable entries, joined by commas. -/
theorem encode_eq_some {es : List (String × Value)} {s : String} (h : encode es = some s) :
    sortedPortable es ≠ [] ∧ s = String.ofList (join ',' ((sortedPortable es).map segment)) := by
  unfold encode at h
  rw [map_snd_pairs] at h
  split at h
  · cases h
  · rename_i ps hne
    cases h
    exact ⟨fun he => hne (by rw [he]; rfl), rfl⟩

/-- A header is read as the entries that it carries, in the order of their keys. -/
theorem readEntries_encode {es : List (String × Value)} {s : String} (h : encode es = some s) :
    List.Forall₂ (fun e f => e.1 = f.1 ∧ e.2.Alike f.2) ((sortedPortable es).filter fun e => e.1 != "")
      (readEntries s) := by
  obtain ⟨hne, rfl⟩ := encode_eq_some h
  have hchars : ∀ p ∈ (sortedPortable es).map segment, p ≠ [] ∧ ∀ c ∈ p, isSegmentChar c = true := by
    intro p hp
    obtain ⟨e, he, rfl⟩ := List.mem_map.1 hp
    have hpair := pair_eq_segment (isPortable_of_mem_sortedPortable he)
    exact ⟨pair_ne_nil hpair, fun c hc => isSegmentChar_of_mem_pair hpair hc⟩
  unfold readEntries
  rw [String.toList_ofList, segments_join (by simpa using hne) hchars]
  exact filterMap_readSegment fun e he => isPortable_of_mem_sortedPortable he

/-- Under each key, the carried entries come in the order in which they were given. -/
theorem filter_sortedPortable (es : List (String × Value)) (k : String) :
    ((sortedPortable es).filter fun e => e.1 != "").filter (fun e => e.1 == k) =
      (carried es).filter fun e => e.1 == k := by
  unfold sortedPortable carried
  rw [List.filter_comm, filter_sortByKey]
  simp only [List.filter_filter]
  refine List.filter_congr fun e _ => ?_
  cases e.1 != "" <;> cases e.1 == k <;> cases e.2.isPortable <;> rfl

/-- A header is read as the map that its entries make in the order in which they were given. -/
theorem get?_decodeInto_encode (es : List (String × Value)) (k : String) :
    Option.Rel Value.Alike ((Dict.ofList (carried es)).get? k)
      (((encode es).toList.foldl (fun d s => decodeInto s d) Dict.empty).get? k) := by
  have sorted : (Dict.ofList (carried es)).get? k =
      (Dict.ofList ((sortedPortable es).filter fun e => e.1 != "")).get? k := by
    unfold Dict.ofList
    rw [Dict.get?_insertAll_filter rfl (carried es), Dict.get?_insertAll_filter rfl ((sortedPortable es).filter _),
      filter_sortedPortable]
  rw [sorted]
  cases h : encode es with
  | none =>
    have hc : sortedPortable es = [] := by
      have hf : es.filter (fun e => e.2.isPortable) = [] :=
        List.filter_eq_nil_iff.2 fun e he => by simp [encode_eq_none_iff.1 h e he]
      unfold sortedPortable
      rw [hf]
      exact List.mergeSort_nil
    rw [hc]
    exact .none
  | some s => exact Dict.rel_insertAll (readEntries_encode h) .none

/-! ## Entries that are alike -/

theorem mem_written {es : List (String × Value)} (hes : (es.map Prod.fst).Nodup) {k : String} {p : List Char} :
    (k, p) ∈ es.filterMap (fun e => (pair e.1 e.2).map fun p => (e.1, p)) ↔
      (lookupEntry k es).bind (pair k) = some p := by
  simp only [List.mem_filterMap, Prod.exists, Option.map_eq_some_iff, Option.bind_eq_some_iff, Prod.mk.injEq]
  constructor
  · rintro ⟨k, v, hm, p, hp, rfl, rfl⟩
    exact ⟨v, lookupEntry_of_mem hes hm, hp⟩
  · rintro ⟨v, hv, hp⟩
    exact ⟨k, v, mem_of_lookupEntry hv, p, hp, rfl, rfl⟩

/-- Entries that are alike key by key are written as the same header. -/
theorem encode_congr {es fs : List (String × Value)} (hes : (es.map Prod.fst).Nodup) (hfs : (fs.map Prod.fst).Nodup)
    (h : ∀ k, Option.Rel Value.Alike (lookupEntry k es) (lookupEntry k fs)) : encode es = encode fs := by
  have nodup : ∀ {es : List (String × Value)}, (es.map Prod.fst).Nodup →
      ((es.filterMap fun e => (pair e.1 e.2).map fun p => (e.1, p)).map Prod.fst).Nodup :=
    fun hes => hes.sublist (map_fst_filterMap_pair_sublist _)
  have hperm : (es.filterMap fun e => (pair e.1 e.2).map fun p => (e.1, p)).Perm
      (fs.filterMap fun e => (pair e.1 e.2).map fun p => (e.1, p)) := by
    refine (List.perm_ext_iff_of_nodup (.of_map _ (nodup hes)) (.of_map _ (nodup hfs))).2 fun ⟨k, p⟩ => ?_
    rw [mem_written hes, mem_written hfs, bind_pair (h k)]
  have hpairs : pairs es = pairs fs := by
    rw [pairs_eq, pairs_eq]
    exact sortByKey_eq_of_perm (nodup hes) hperm
  unfold encode
  rw [hpairs]

end Baggage

end Ambient
