import Ambient.Proofs.Tags.Scopes
import Ambient.Proofs.Wire.KeyOrder

/-
Which tags a node publishes when its entry phase ends: those that it shows at that
moment, ordered by key (`Node.mem_tags_activated`, `Node.pairwise_tags`), if its entry
phase wrote something else under the key of a tag than it inherited
(`Node.changedTags_eq`). If not, its tags are those that it inherited
(`Node.agrees_of_not_changes`).
-/

namespace Ambient

namespace Node

variable {n : Node} {k : String}

/-- The entry phase changed a tag: under a key that is a tag and flows down the node wrote
something else than it inherited. -/
def Changes (n : Node) : Prop :=
  ∃ k v, n.policy.isTag k = true ∧ n.policy.flowsDown k = true ∧ n.writes.get? k = some v ∧
    sameValue? v (n.inherited.get? k) = false

theorem any_changesTag_iff : n.writes.entries.any n.changesTag = true ↔ n.Changes := by
  simp only [List.any_eq_true, changesTag, Bool.and_eq_true, Bool.not_eq_true', Prod.exists, Dict.mem_entries, Changes]
  constructor
  · rintro ⟨k, v, hw, ⟨ht, hd⟩, hv⟩
    exact ⟨k, v, ht, hd, hw, hv⟩
  · rintro ⟨k, v, ht, hd, hw, hv⟩
    exact ⟨k, v, hw, ⟨ht, hd⟩, hv⟩

theorem changedTags_eq {tags : Tags} : n.activated.changedTags = some tags ↔ n.Changes ∧ n.activated.tags = tags := by
  rw [← any_changesTag_iff]
  show (if n.writes.entries.any n.changesTag then some n.activated.tags else none) = some tags ↔ _
  split <;> simp_all

theorem changedTags_eq_none : n.activated.changedTags = none ↔ ¬ n.Changes := by
  rw [← any_changesTag_iff]
  show (if n.writes.entries.any n.changesTag then some n.activated.tags else none) = none ↔ _
  split <;> simp_all

/-- A node whose entry phase changed no tag shows the tags that it inherited. -/
theorem agrees_of_not_changes (h : ¬ n.Changes) (ht : n.policy.isTag k = true) (hd : n.policy.flowsDown k = true) :
    Agrees (n.value k) (n.inherited.get? k) := by
  rw [value_eq]
  cases hw : n.writes.get? k with
  | none => exact .refl _
  | some v =>
    refine .inr ?_
    by_contra hv
    exact h ⟨k, v, ht, hd, hw, Bool.eq_false_iff.2 hv⟩

/-! ## The published tags -/

theorem pairwise_tags (n : Node) : n.tags.Pairwise fun a b => a.1 < b.1 := by
  have sorted : n.postEntry.sorted.Pairwise fun a b => a.1 < b.1 := pairwise_sortByKey n.postEntry.nodup
  refine sorted.filterMap _ fun a a' hlt b hb b' hb' => ?_
  have key : ∀ {e : String × Value} {c : String × String},
      (if n.policy.isTag e.1 then e.2.wireText.map fun s => (e.1, s) else none) = some c → c.1 = e.1 := by
    intro e c hc
    split at hc
    · obtain ⟨s, -, rfl⟩ := Option.map_eq_some_iff.1 hc
      rfl
    · cases hc
  rw [key hb, key hb']
  exact hlt

/-- When the entry phase ends, the tags are what the node shows under keys that are tags
and flow down, as far as it can be written on the wire. -/
theorem mem_tags_activated (h : n.Sound) (hp : n.phase = .entry) {s : String} :
    (k, s) ∈ n.activated.tags ↔
      ∃ v, (n.policy.isTag k && n.policy.flowsDown k) = true ∧ n.value k = some v ∧ v.wireText = some s := by
  have mem : ∀ e : String × Value, e ∈ n.activated.postEntry.sorted ↔ n.downValue e.1 = some e.2 := by
    intro e
    rw [← get?_postEntry_activated h hp, ← Dict.mem_entries]
    exact (sortByKey_perm _).mem_iff
  have shown : n.activated.policy = n.policy := rfl
  simp only [tags, List.mem_filterMap, mem, downValue, shown, Bool.and_eq_true]
  constructor
  · rintro ⟨⟨x, v⟩, hv, hs⟩
    split at hv <;> rename_i hd
    · split at hs <;> rename_i ht
      · obtain ⟨s', hs', he⟩ := Option.map_eq_some_iff.1 hs
        cases he
        exact ⟨v, ⟨ht, hd⟩, hv, hs'⟩
      · cases hs
    · cases hv
  · rintro ⟨v, ⟨ht, hd⟩, hv, hs⟩
    exact ⟨(k, v), by rw [if_pos hd, hv], by rw [if_pos ht, hs]; rfl⟩

end Node

end Ambient
