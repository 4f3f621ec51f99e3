import Ambient.Proofs.Tags.Published
import Ambient.Proofs.Wire.Entries

/-
Maps and nodes that differ only in the order in which their entries come. A loop over
entries does not show their order if a step does the same to states that differ in order
only, and if steps under different keys commute (`Orderless.foldl`). Storing entries, laying
them over data and writing them are such loops; so what a node shows, hands down and
publishes does not depend on order, and what changes a node does so either way alike
(`Node.Reordered`).
-/

namespace Ambient

/-! ## Loops over entries -/

/-- A loop over entries that does not show their order, up to a relation of states. -/
structure Orderless {κ α σ : Type} (R : σ → σ → Prop) (f : σ → κ × α → σ) : Prop where
  equivalence : Equivalence R
  step : ∀ {s s' : σ} (e : κ × α), R s s' → R (f s e) (f s' e)
  comm : ∀ (s : σ) {e e' : κ × α}, e.1 ≠ e'.1 → R (f (f s e) e') (f (f s e') e)

namespace Orderless

variable {κ α σ : Type} {R : σ → σ → Prop} {f : σ → κ × α → σ} {es es' : List (κ × α)} {s s' : σ}

theorem foldl_same (hf : Orderless R f) (hs : R s s') (es : List (κ × α)) : R (es.foldl f s) (es.foldl f s') := by
  induction es generalizing s s' with
  | nil => exact hs
  | cons e es ih => exact ih (hf.step e hs)

/-- Any two orders of entries with distinct keys come to the same. -/
theorem foldl (hf : Orderless R f) (hes : (es.map Prod.fst).Nodup) (h : es.Perm es') (hs : R s s') :
    R (es.foldl f s) (es'.foldl f s') := by
  induction h generalizing s s' with
  | nil => exact hs
  | cons e _ ih => exact ih (List.nodup_cons.1 hes).2 (hf.step e hs)
  | swap e e' es =>
    have hne : e'.1 ≠ e.1 := by
      intro he
      simp [he] at hes
    have hswap : R (f (f s e') e) (f (f s' e) e') :=
      hf.equivalence.trans (hf.comm s hne) (hf.step e' (hf.step e hs))
    exact hf.foldl_same hswap es
  | trans h _ ih ih' =>
    have hmiddle := (h.map Prod.fst).nodup_iff.1 hes
    exact hf.equivalence.trans (ih hes hs) (ih' hmiddle (hf.equivalence.refl s'))

end Orderless

/-! ## Maps -/

namespace Dict

variable {κ α : Type}

/-- The same map, its entries in another order. -/
def Reordered (d d' : Dict κ α) : Prop := d.entries.Perm d'.entries

theorem equivalence_reordered : Equivalence (Reordered (κ := κ) (α := α)) where
  refl d := List.Perm.refl d.entries
  symm h := List.Perm.symm h
  trans h h' := List.Perm.trans h h'

variable [DecidableEq κ] {d d' : Dict κ α}

instance [DecidableEq α] (d d' : Dict κ α) : Decidable (d.Reordered d') :=
  inferInstanceAs (Decidable (d.entries.Perm d'.entries))

/-- Maps that answer alike have the same entries. -/
theorem reordered_iff : d.Reordered d' ↔ ∀ k, d.get? k = d'.get? k := by
  constructor
  · intro h k
    ext v
    rw [← mem_entries, ← mem_entries]
    exact h.mem_iff
  · intro h
    refine (List.perm_ext_iff_of_nodup (.of_map _ d.nodup) (.of_map _ d'.nodup)).2 ?_
    rintro ⟨k, v⟩
    rw [mem_entries, mem_entries, h]

theorem Reordered.get? (h : d.Reordered d') (k : κ) : d.get? k = d'.get? k := reordered_iff.1 h k

theorem Reordered.insert (h : d.Reordered d') (k : κ) (v : α) : (d.insert k v).Reordered (d'.insert k v) := by
  rw [reordered_iff]
  intro x
  rw [get?_insert, get?_insert, h.get?]

theorem insert_comm (d : Dict κ α) {k k' : κ} (hne : k ≠ k') (v v' : α) :
    ((d.insert k v).insert k' v').Reordered ((d.insert k' v').insert k v) := by
  rw [reordered_iff]
  intro x
  simp only [get?_insert]
  by_cases hk : k = x
  · have hk' : ¬ k' = x := fun he => hne (hk.trans he.symm)
    rw [if_neg hk', if_pos hk, if_pos hk]
  · rw [if_neg hk, if_neg hk]

theorem orderless_insert : Orderless Reordered fun (d : Dict κ α) (e : κ × α) => d.insert e.1 e.2 where
  equivalence := equivalence_reordered
  step e h := h.insert e.1 e.2
  comm d _ _ hne := d.insert_comm hne _ _

theorem Reordered.insertAll (h : d.Reordered d') {es es' : List (κ × α)} (hes : (es.map Prod.fst).Nodup)
    (hperm : es.Perm es') : (d.insertAll es).Reordered (d'.insertAll es') :=
  orderless_insert.foldl hes hperm h

theorem Reordered.sorted {d d' : Dict String α} (h : d.Reordered d') : d.sorted = d'.sorted :=
  sortByKey_eq_of_perm d.nodup h

end Dict

/-! ## Nodes -/

/-- The same node, its maps in other orders. -/
structure Node.Reordered (n m : Node) : Prop where
  inherited : n.inherited.Reordered m.inherited
  postEntry : n.postEntry.Reordered m.postEntry
  writes : n.writes.Reordered m.writes
  memo : Option.Rel Dict.Reordered n.memo m.memo
  rest : m = { n with
    inherited := m.inherited, postEntry := m.postEntry, writes := m.writes, memo := m.memo }

namespace Node

theorem equivalence_memo : Equivalence (Option.Rel (Dict.Reordered (κ := String) (α := Value))) where
  refl o := by
    cases o with
    | none => exact .none
    | some d => exact .some (Dict.equivalence_reordered.refl d)
  symm h := by
    cases h with
    | none => exact .none
    | some h => exact .some (Dict.equivalence_reordered.symm h)
  trans h h' := by
    cases h with
    | none => exact h'
    | some h =>
      cases h' with
      | some h' => exact .some (Dict.equivalence_reordered.trans h h')

theorem equivalence_reordered : Equivalence Reordered where
  refl n := ⟨.refl _, .refl _, .refl _, equivalence_memo.refl n.memo, rfl⟩
  symm h := ⟨h.inherited.symm, h.postEntry.symm, h.writes.symm, equivalence_memo.symm h.memo, by rw [h.rest]⟩
  trans h h' := ⟨h.inherited.trans h'.inherited, h.postEntry.trans h'.postEntry, h.writes.trans h'.writes,
    equivalence_memo.trans h.memo h'.memo, h'.rest.trans (by rw [h.rest])⟩

variable {n m : Node}

namespace Reordered

theorem policy (h : n.Reordered m) : m.policy = n.policy := by rw [h.rest]

theorem phase (h : n.Reordered m) : m.phase = n.phase := by rw [h.rest]

theorem joins (h : n.Reordered m) (t : ThreadId) : m.joins t = n.joins t := by
  rw [h.rest]
  rfl

theorem value (h : n.Reordered m) (k : String) : n.value k = m.value k := by
  rw [value_eq, value_eq, h.writes.get?, h.inherited.get?]

end Reordered

/-! ### What a node hands down -/

/-- Every entry decides for its own key alone what is laid over data. -/
theorem orderless_layOver (p : Policy) : Orderless Dict.Reordered (layOver p) where
  equivalence := Dict.equivalence_reordered
  step e h := by
    rw [Dict.reordered_iff] at h ⊢
    intro k
    rw [get?_layOver, get?_layOver, h]
  comm d e e' hne := by
    rw [Dict.reordered_iff]
    intro k
    simp only [get?_layOver]
    by_cases he : e.1 = k
    · have he' : ¬ e'.1 = k := fun h => hne (he.trans h.symm)
      simp [he']
    · simp [he]

namespace Reordered

theorem writesDown (h : n.Reordered m) : n.writesDown = m.writesDown := by
  unfold Node.writesDown
  rw [h.policy]
  exact h.writes.any_eq

theorem overlay (h : n.Reordered m) : n.overlay.Reordered m.overlay := by
  unfold Node.overlay
  rw [h.policy]
  exact (orderless_layOver n.policy).foldl n.writes.nodup h.writes h.inherited

theorem snapshot (h : n.Reordered m) : n.snapshot.Reordered m.snapshot := by
  have hmemo := h.memo
  unfold Node.snapshot
  revert hmemo
  generalize n.memo = a
  generalize m.memo = b
  intro hmemo
  cases hmemo with
  | some hd => exact hd
  | none =>
    rw [h.writesDown]
    dsimp only
    split
    · exact h.overlay
    · exact h.inherited

theorem handDown (h : n.Reordered m) (t : ThreadId) : (n.handDown t).Reordered (m.handDown t) := by
  unfold Node.handDown
  rw [h.joins]
  split
  · exact h.snapshot
  · exact h.postEntry

theorem remember (h : n.Reordered m) (t : ThreadId) : (n.remember t).Reordered (m.remember t) := by
  unfold Node.remember
  rw [h.joins]
  split
  · refine ⟨h.inherited, h.postEntry, h.writes, .some h.snapshot, ?_⟩
    rw [h.rest]
  · exact h

theorem child (h : n.Reordered m) (id : NodeId) (t : ThreadId) : (n.child id t).Reordered (m.child id t) := by
  refine ⟨h.handDown t, h.handDown t, .refl _, .none, ?_⟩
  unfold Node.child
  rw [h.joins, h.rest]
  rfl

/-! ### What a node publishes and puts on the wire -/

theorem changesTag (h : n.Reordered m) : n.changesTag = m.changesTag := by
  funext e
  unfold Node.changesTag
  rw [h.policy, h.inherited.get?]

theorem tags (h : n.Reordered m) : n.tags = m.tags := by
  unfold Node.tags
  rw [h.policy, h.postEntry.sorted]

theorem changedTags (h : n.Reordered m) : n.changedTags = m.changedTags := by
  unfold Node.changedTags
  rw [h.changesTag, h.tags, h.writes.any_eq]

theorem contains_writes (h : n.Reordered m) (k : String) : n.writes.contains k = m.writes.contains k := by
  unfold Dict.contains
  rw [h.writes.get?]

theorem effective (h : n.Reordered m) : n.effective.Perm m.effective := by
  unfold Node.effective
  refine .append (.map _ ?_) h.writes
  unfold Dict.filter
  simp only [h.contains_writes]
  exact h.inherited.filter _

theorem shown (h : n.Reordered m) (accepts : String → Bool) : (n.shown accepts).Perm (m.shown accepts) :=
  h.effective.filterMap _

/-! ### What changes a node -/

theorem memoAfter (h : n.Reordered m) (k : String) : Option.Rel Dict.Reordered (n.memoAfter k) (m.memoAfter k) := by
  unfold Node.memoAfter
  rw [h.policy, h.phase]
  split
  · exact .none
  · exact h.memo

theorem write (h : n.Reordered m) (k : String) (v : Option Value) : (n.write k v).Reordered (m.write k v) := by
  refine ⟨h.inherited, h.postEntry, h.writes.insert k v, h.memoAfter k, ?_⟩
  rw [h.rest]
  rfl

theorem activated (h : n.Reordered m) : n.activated.Reordered m.activated := by
  have hpost : n.activated.postEntry.Reordered m.activated.postEntry := by
    unfold Node.activated
    rw [h.writesDown]
    dsimp only
    split
    · exact h.overlay
    · exact h.postEntry
  refine ⟨h.inherited, hpost, h.writes, .some hpost, ?_⟩
  unfold Node.activated
  rw [h.rest]

theorem hold (h : n.Reordered m) (token : Option Token) (scope : Option TagScope) :
    Reordered { n with token, scope } { m with token, scope } := by
  refine ⟨h.inherited, h.postEntry, h.writes, h.memo, ?_⟩
  rw [h.rest]

theorem outdates (h : n.Reordered m) (p : Policy) : n.outdates p = m.outdates p := by
  funext e
  unfold Node.outdates
  rw [h.value]

/-- What is taken over from a child may come in any order. -/
theorem absorb (h : n.Reordered m) (p : Policy) {es es' : List (String × Option Value)} (hes : (es.map Prod.fst).Nodup)
    (hperm : es.Perm es') : (n.absorb p es).Reordered (m.absorb p es') := by
  have hmemo : Option.Rel Dict.Reordered (n.absorb p es).memo (m.absorb p es').memo := by
    unfold Node.absorb
    rw [h.outdates, hperm.any_eq]
    dsimp only
    split
    · exact .none
    · exact h.memo
  refine ⟨h.inherited, h.postEntry, h.writes.insertAll hes hperm, hmemo, ?_⟩
  unfold Node.absorb
  rw [h.rest]

end Reordered

/-- A write decides for its own key alone, and whether the memo goes does not depend on
what was written before. -/
theorem orderless_write : Orderless Reordered fun n (e : String × Option Value) => n.write e.1 e.2 where
  equivalence := equivalence_reordered
  step e h := h.write e.1 e.2
  comm n e e' hne := by
    refine ⟨.refl _, .refl _, n.writes.insert_comm hne e.2 e'.2, ?_, rfl⟩
    have dropped : ∀ (a b : Bool) (d : Option Data),
        (if a then none else if b then none else d) = if b then none else if a then none else d := by
      intro a b d
      cases a <;> cases b <;> rfl
    have hmemo : ((n.write e.1 e.2).write e'.1 e'.2).memo = ((n.write e'.1 e'.2).write e.1 e.2).memo :=
      dropped _ _ n.memo
    rw [hmemo]
    exact equivalence_memo.refl _

theorem Reordered.writeAll (h : n.Reordered m) {es es' : List (String × Option Value)} (hes : (es.map Prod.fst).Nodup)
    (hperm : es.Perm es') : (n.writeAll es).Reordered (m.writeAll es') :=
  orderless_write.foldl hes hperm h

end Node

end Ambient
