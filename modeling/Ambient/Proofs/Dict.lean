import Ambient.Dict

/-
What a finite map answers after several entries were stored, and what its list
of entries says about its answers (`Dict.get?_insertAll`, `Dict.mem_entries`).
-/

namespace Ambient

section Entries

variable {κ α : Type} [DecidableEq κ]

theorem lookupEntry_eq_none {k : κ} {l : List (κ × α)} :
    lookupEntry k l = none ↔ k ∉ l.map Prod.fst := by
  induction l with
  | nil => simp [lookupEntry]
  | cons e l ih =>
    obtain ⟨k', v⟩ := e
    by_cases hk : k' = k
    · simp [lookupEntry, hk]
    · simp only [lookupEntry, if_neg hk, ih, List.map_cons, List.mem_cons, not_or]
      exact ⟨fun h => ⟨fun he => hk he.symm, h⟩, fun h => h.2⟩

theorem mem_of_lookupEntry {k : κ} {v : α} {l : List (κ × α)} (h : lookupEntry k l = some v) :
    (k, v) ∈ l := by
  induction l with
  | nil => cases h
  | cons e l ih =>
    obtain ⟨k', v'⟩ := e
    by_cases hk : k' = k
    · subst hk
      simp only [lookupEntry, if_true, Option.some.injEq] at h
      simp [h]
    · simp only [lookupEntry, if_neg hk] at h
      exact List.mem_cons_of_mem _ (ih h)

theorem lookupEntry_of_mem {k : κ} {v : α} {l : List (κ × α)} (hl : (l.map Prod.fst).Nodup)
    (h : (k, v) ∈ l) : lookupEntry k l = some v := by
  induction l with
  | nil => simp at h
  | cons e l ih =>
    obtain ⟨k', v'⟩ := e
    rw [List.map_cons, List.nodup_cons] at hl
    rcases List.mem_cons.1 h with he | h
    · cases he; simp [lookupEntry]
    · have hk : k' ≠ k := fun he => hl.1 (List.mem_map.2 ⟨(k, v), h, he.symm⟩)
      simp only [lookupEntry, if_neg hk]
      exact ih hl.2 h

/-- A test of keys alone keeps or drops a key with all that is under it. -/
theorem lookupEntry_filter_key (p : κ → Bool) (k : κ) (l : List (κ × α)) :
    lookupEntry k (l.filter fun e => p e.1) = if p k then lookupEntry k l else none := by
  induction l with
  | nil => simp [lookupEntry]
  | cons e l ih =>
    obtain ⟨k', v⟩ := e
    by_cases hk : k' = k
    · subst hk
      cases hp : p k' <;> simp_all [lookupEntry]
    · cases hp : p k' <;> simp [lookupEntry, hp, hk, ih]

/-- A test of whole entries keeps what is under a key if that passes it. -/
theorem lookupEntry_filter {l : List (κ × α)} (hl : (l.map Prod.fst).Nodup) (p : κ → α → Bool) (k : κ) :
    lookupEntry k (l.filter fun e => p e.1 e.2) = (lookupEntry k l).filter (p k) := by
  induction l with
  | nil => simp [lookupEntry]
  | cons e l ih =>
    obtain ⟨k', v⟩ := e
    rw [List.map_cons, List.nodup_cons] at hl
    have rest := ih hl.2
    by_cases hk : k' = k
    · subst hk
      -- No other entry has this key.
      have hn : lookupEntry k' l = none := lookupEntry_eq_none.2 hl.1
      rw [hn, Option.filter_none] at rest
      cases hp : p k' v <;> simp [lookupEntry, hp, rest, Option.filter]
    · cases hp : p k' v <;> simp [lookupEntry, hp, hk, rest]

/-- What is stored under a key is replaced as a whole. -/
theorem insertEntry_insertEntry (k : κ) (u v : α) (l : List (κ × α)) :
    insertEntry k v (insertEntry k u l) = insertEntry k v l := by
  induction l with
  | nil => simp [insertEntry]
  | cons e l ih =>
    obtain ⟨k', v'⟩ := e
    by_cases hk : k' = k
    · simp [insertEntry, hk]
    · simp [insertEntry, hk, ih]

theorem insertEntry_eq_self {k : κ} {v : α} {l : List (κ × α)} (h : lookupEntry k l = some v) :
    insertEntry k v l = l := by
  induction l with
  | nil => cases h
  | cons e l ih =>
    obtain ⟨k', v'⟩ := e
    by_cases hk : k' = k
    · subst hk
      simp only [lookupEntry, if_true, Option.some.injEq] at h
      simp [insertEntry, h]
    · simp only [lookupEntry, if_neg hk] at h
      simp [insertEntry, hk, ih h]

/-- What is stored under a key that fails a test of keys is not found by that test. -/
theorem find?_insertEntry {p : κ → Bool} {k : κ} (hk : p k = false) (v : α) (l : List (κ × α)) :
    (insertEntry k v l).find? (fun e => p e.1) = l.find? fun e => p e.1 := by
  induction l with
  | nil => simp [insertEntry, hk]
  | cons e l ih =>
    obtain ⟨k', v'⟩ := e
    by_cases he : k' = k
    · subst he
      simp [insertEntry, hk]
    · simp only [insertEntry, if_neg he, List.find?_cons, ih]

/-! ### Mapping values -/

variable {β : Type} (f : κ → α → β)

theorem lookupEntry_map (k : κ) (l : List (κ × α)) :
    lookupEntry k (l.map fun e => (e.1, f e.1 e.2)) = (lookupEntry k l).map (f k) := by
  induction l with
  | nil => rfl
  | cons e l ih =>
    by_cases hk : e.1 = k
    · subst hk
      simp [lookupEntry]
    · simpa [lookupEntry, hk] using ih

theorem map_insertEntry (k : κ) (v : α) (l : List (κ × α)) :
    (insertEntry k v l).map (fun e => (e.1, f e.1 e.2)) =
      insertEntry k (f k v) (l.map fun e => (e.1, f e.1 e.2)) := by
  induction l with
  | nil => rfl
  | cons e l ih =>
    by_cases hk : e.1 = k
    · subst hk
      simp [insertEntry]
    · simpa [insertEntry, hk] using ih

end Entries

namespace Dict

variable {κ α : Type} [DecidableEq κ]

theorem mem_entries {d : Dict κ α} {k : κ} {v : α} : (k, v) ∈ d.entries ↔ d.get? k = some v :=
  ⟨lookupEntry_of_mem d.nodup, mem_of_lookupEntry⟩

@[simp] theorem insert_insert (d : Dict κ α) (k : κ) (u v : α) : (d.insert k u).insert k v = d.insert k v :=
  ext (insertEntry_insertEntry k u v d.entries)

/-- Storing what is there already changes nothing. -/
theorem insert_eq_self {d : Dict κ α} {k : κ} {v : α} (h : d.get? k = some v) : d.insert k v = d :=
  ext (insertEntry_eq_self h)

/-- Storing entries with distinct keys: a key among them has its new value, any
other the value it had. -/
theorem get?_insertAll {es : List (κ × α)} (h : (es.map Prod.fst).Nodup) (d : Dict κ α) (k : κ) :
    (d.insertAll es).get? k = (lookupEntry k es).or (d.get? k) := by
  induction es generalizing d with
  | nil => simp [insertAll, lookupEntry]
  | cons e es ih =>
    obtain ⟨k', v⟩ := e
    rw [List.map_cons, List.nodup_cons] at h
    have step : (d.insertAll ((k', v) :: es)).get? k = (lookupEntry k es).or ((d.insert k' v).get? k) :=
      ih h.2 (d.insert k' v)
    by_cases hk : k' = k
    · subst hk
      have hn : lookupEntry k' es = none := lookupEntry_eq_none.2 h.1
      simp [step, hn, lookupEntry]
    · simp [step, lookupEntry, hk]

theorem mem_keys_insertAll {es : List (κ × α)} {d : Dict κ α} {k : κ} (h : k ∈ (d.insertAll es).keys) :
    k ∈ d.keys ∨ k ∈ es.map Prod.fst := by
  induction es generalizing d with
  | nil => exact .inl h
  | cons e es ih =>
    rcases ih (d := d.insert e.1 e.2) h with h | h
    · exact (mem_keys_insertEntry.1 h).elim (fun h => .inr (by simp [h])) .inl
    · exact .inr (List.mem_cons_of_mem _ h)

/-- What is there after storing was stored, or was there before. -/
theorem get?_insertAll_cases {es : List (κ × α)} {d : Dict κ α} {k : κ} {v : α} (h : (d.insertAll es).get? k = some v) :
    (k, v) ∈ es ∨ d.get? k = some v := by
  induction es generalizing d with
  | nil => exact .inr h
  | cons e es ih =>
    rcases ih (d := d.insert e.1 e.2) h with h | h
    · exact .inl (List.mem_cons_of_mem _ h)
    · rw [get?_insert] at h
      split at h
      · rename_i hk
        left
        simp [← hk, ← Option.some.inj h]
      · exact .inr h

/-- Storing entries one after another: only those of a key count for it. -/
theorem get?_insertAll_filter {d d' : Dict κ α} {k : κ} (h : d.get? k = d'.get? k) (es : List (κ × α)) :
    (d.insertAll es).get? k = (d'.insertAll (es.filter fun e => e.1 == k)).get? k := by
  induction es generalizing d d' with
  | nil => exact h
  | cons e es ih =>
    by_cases hk : e.1 = k
    · rw [List.filter_cons_of_pos (by simpa using hk)]
      exact ih (by simp [hk])
    · rw [List.filter_cons_of_neg (by simpa using hk)]
      exact ih (by simp [hk, h])

/-- What a key has after storing is what was stored last, or what it had if nothing was. -/
theorem get?_insertAll_eq_some {es : List (κ × α)} {d : Dict κ α} {k : κ} {v : α} :
    (d.insertAll es).get? k = some v ↔
      (∃ before after, es = before ++ (k, v) :: after ∧ k ∉ after.map Prod.fst) ∨
        k ∉ es.map Prod.fst ∧ d.get? k = some v := by
  induction es generalizing d with
  | nil => simp [insertAll]
  | cons e es ih =>
    obtain ⟨k', u⟩ := e
    show ((d.insert k' u).insertAll es).get? k = some v ↔ _
    rw [ih, get?_insert]
    constructor
    · rintro (⟨before, after, rfl, hk⟩ | ⟨hk, hv⟩)
      · exact .inl ⟨(k', u) :: before, after, rfl, hk⟩
      · split at hv
        · rename_i he
          cases hv
          exact .inl ⟨[], es, by rw [he]; rfl, hk⟩
        · rename_i he
          refine .inr ⟨?_, hv⟩
          rw [List.map_cons, List.mem_cons, not_or]
          exact ⟨fun h => he h.symm, hk⟩
    · rintro (⟨before, after, he, hk⟩ | ⟨hk, hv⟩)
      · cases before with
        | nil =>
          cases he
          exact .inr ⟨hk, if_pos rfl⟩
        | cons e before =>
          cases he
          exact .inl ⟨before, after, rfl, hk⟩
      · rw [List.map_cons, List.mem_cons, not_or] at hk
        exact .inr ⟨hk.2, by rw [if_neg fun h => hk.1 h.symm]; exact hv⟩

/-- A test of keys that no entry passes holds of no key of the map. -/
theorem get?_of_any_eq_false {d : Dict κ α} {p : κ → Bool} (h : (d.entries.any fun e => p e.1) = false)
    {k : κ} (hk : p k = true) : d.get? k = none := by
  cases hv : d.get? k with
  | none => rfl
  | some v =>
    have := List.any_eq_false.1 h _ (mem_entries.2 hv)
    exact absurd hk this

theorem get?_filter (d : Dict κ α) (p : κ → α → Bool) (k : κ) : (d.filter p).get? k = (d.get? k).filter (p k) :=
  lookupEntry_filter d.nodup p k

/-! ## Mapping values -/

variable {β : Type} (f : κ → α → β)

theorem get?_map (d : Dict κ α) (k : κ) : (d.map f).get? k = (d.get? k).map (f k) :=
  lookupEntry_map f k d.entries

theorem map_insert (d : Dict κ α) (k : κ) (v : α) : (d.insert k v).map f = (d.map f).insert k (f k v) :=
  ext (map_insertEntry f k v d.entries)

theorem map_insertAll (d : Dict κ α) (es : List (κ × α)) :
    (d.insertAll es).map f = (d.map f).insertAll (es.map fun e => (e.1, f e.1 e.2)) := by
  induction es generalizing d with
  | nil => rfl
  | cons e es ih => exact (ih (d.insert e.1 e.2)).trans (by rw [map_insert]; rfl)

/-! ## Entries in the order of their keys -/

theorem sorted_perm (d : Dict String α) : d.sorted.Perm d.entries := List.mergeSort_perm ..

theorem nodup_sorted (d : Dict String α) : (d.sorted.map Prod.fst).Nodup := (d.sorted_perm.map Prod.fst).nodup_iff.2 d.nodup

theorem mem_sorted {d : Dict String α} {k : String} {v : α} : (k, v) ∈ d.sorted ↔ d.get? k = some v :=
  d.sorted_perm.mem_iff.trans mem_entries

theorem lookupEntry_sorted (d : Dict String α) (k : String) : lookupEntry k d.sorted = d.get? k :=
  Option.ext fun _ => ⟨fun h => mem_sorted.1 (mem_of_lookupEntry h),
    fun h => lookupEntry_of_mem d.nodup_sorted (mem_sorted.2 h)⟩

end Dict

end Ambient
