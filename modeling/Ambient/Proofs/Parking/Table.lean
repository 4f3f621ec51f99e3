import Ambient.Continuation
import Ambient.Proofs.Dict

/-
What the operations on a table do to the entries under the addresses of hosts. As
long as the entry under a host's address is the host's own, taking it up, looking
at it and clearing it answer what was parked there, whatever the addresses of
other hosts (`take_of_own`, `peek_of_own`, `clear_of_own`).
-/

namespace Ambient

/-- What is parked against a host: a context, and whether it is for single use. -/
def Parked.of (h : Host) (e : NodeId × Bool) : Parked := ⟨h.serial, e.1, e.2⟩

namespace ContinuationTable

variable {t t' t'' : ContinuationTable} {alive : Nat → Bool} {h k : Host} {e : Option (NodeId × Bool)}

/-! ## Entries -/

theorem entryAt_park (t : ContinuationTable) (h k : Host) (node : NodeId) (singleUse : Bool) :
    (t.park h node singleUse).entryAt k =
      if h.address = k.address then some (.of h (node, singleUse)) else t.entryAt k :=
  Dict.get?_insert ..

theorem entryAt_removeAt (t : ContinuationTable) (h k : Host) :
    (t.removeAt h).entryAt k = if h.address = k.address then none else t.entryAt k :=
  Dict.get?_erase ..

theorem entryAt_purge (t : ContinuationTable) (alive : Nat → Bool) (k : Host) :
    (t.purge alive).entryAt k = (t.entryAt k).filter fun p => alive p.host :=
  Dict.get?_filter ..

/-- A sweep spares the entry of a host that is alive. -/
theorem entryAt_purge_of_own (ha : alive h.serial = true) (ht : t.entryAt h = e.map (.of h)) :
    (t.purge alive).entryAt h = t.entryAt h := by
  rw [entryAt_purge, ht]
  cases e <;> simp [Parked.of, ha]

/-- A store with its sweep leaves under the address of a host that is alive what the
store alone leaves there. -/
theorem entryAt_store_of_own (ha : alive k.serial = true) {node : NodeId} {singleUse : Bool}
    (ht : (t.park h node singleUse).entryAt k = e.map (.of k)) :
    (t.store alive h node singleUse).entryAt k = (t.park h node singleUse).entryAt k := by
  unfold store
  dsimp only
  split
  · exact entryAt_purge_of_own ha ht
  · rfl

/-! ## The own entry of a host -/

theorem living_of (ha : alive h.serial = true) (p : NodeId × Bool) : living alive (.of h p) = some p.1 :=
  if_pos ha

theorem peek_of_own (ha : alive h.serial = true) (ht : t.entryAt h = e.map (.of h)) :
    t.peek alive h = e.map Prod.fst := by
  rw [peek, ht]
  cases e <;> simp [living_of ha]

theorem clear_of_own (ht : t.entryAt h = e.map (.of h)) : (t.clear h).2 = e.map Prod.fst := by
  rw [clear, ht]
  cases e <;> rfl

theorem takeIf_none (ht : t.entryAt h = none) (accepts : Parked → Bool) : t.takeIf h accepts = (t, none) := by
  simp [takeIf, ht]

theorem takeIf_some {p : Parked} (ht : t.entryAt h = some p) (accepts : Parked → Bool) :
    t.takeIf h accepts = if accepts p then (t.removeAt h, some p) else (t, none) := by
  cases hp : accepts p <;> simp [takeIf, ht, Option.filter, hp]

theorem takeIf_of_singleUse {node : NodeId} (ht : t.entryAt h = some (.of h (node, true))) :
    t.takeIf h Parked.singleUse = (t.removeAt h, some (.of h (node, true))) :=
  (takeIf_some ht _).trans (if_pos rfl)

/-- Only what is for single use is removed when it is taken up. -/
theorem take_of_own (ha : alive h.serial = true) (ht : t.entryAt h = e.map (.of h)) :
    t.take alive h = (if e.any Prod.snd then t.removeAt h else t, e.map Prod.fst) := by
  have look := peek_of_own ha ht
  cases e with
  | none => simp [take, takeIf_none ht, look]
  | some e =>
    obtain ⟨node, singleUse⟩ := e
    cases singleUse with
    | true => simp [take, takeIf_of_singleUse ht, living_of ha]
    | false => simp [take, takeIf_some ht, Parked.of, look]

/-! ## Stores -/

theorem stores_takeIf (t : ContinuationTable) (h : Host) (accepts : Parked → Bool) :
    (t.takeIf h accepts).1.stores = t.stores := by
  unfold takeIf
  split <;> rfl

theorem stores_take (t : ContinuationTable) (alive : Nat → Bool) (h : Host) :
    (t.take alive h).1.stores = t.stores := by
  have first := stores_takeIf t h Parked.singleUse
  unfold take
  split <;> rename_i hr <;> rw [hr] at first
  · exact first
  · split
    · exact first
    · exact (stores_takeIf ..).trans first

theorem stores_store (t : ContinuationTable) (alive : Nat → Bool) (h : Host) (node : NodeId) (singleUse : Bool) :
    (t.store alive h node singleUse).stores = t.stores + 1 := by
  unfold store
  dsimp only
  split <;> rfl

/-- Every so many stores no entry of a dropped host is left. -/
theorem alive_of_mem_store {node : NodeId} {singleUse : Bool} (hs : (t.stores + 1) % purgeInterval = 0)
    {x : Nat × Parked} (hx : x ∈ (t.store alive h node singleUse).entries.entries) : alive x.2.host = true := by
  have due : (t.park h node singleUse).purgeIsDue = true := by simp [purgeIsDue, park, hs]
  simp only [store, due, if_true] at hx
  exact (List.mem_filter.1 hx).2

/-- A sweep removes the entries of dropped hosts and no others. -/
theorem size_sub_size_purge (t : ContinuationTable) (alive : Nat → Bool) :
    t.size - (t.purge alive).size = t.entries.entries.countP fun x => !alive x.2.host := by
  have total := t.entries.entries.length_eq_countP_add_countP fun x => alive x.2.host
  simp only [Bool.not_eq_true, Bool.decide_eq_false] at total
  simp only [size, Dict.size, purge, Dict.filter, ← List.countP_eq_length_filter]
  omega

end ContinuationTable

end Ambient
