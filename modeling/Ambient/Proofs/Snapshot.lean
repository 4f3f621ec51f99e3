import Ambient.Node
import Ambient.Proofs.Agreement
import Ambient.Proofs.Dict

/-
What each operation on a node does to the data it shows and to the data it hands
down, and the invariant of a node (`Node.Sound`): snapshots hold keys that flow
down only, and the memo of an open node agrees with what the node shows. A memo
is kept through writes that leave it right and through up-propagation that
changes no value, so agreement is all that can be said of it; the snapshot taken
when the entry phase ends is exact (`Node.get?_rebuilt`).
-/

namespace Ambient

/-- Data that holds only keys that flow down. -/
def Confined (p : Policy) (d : Data) : Prop := ∀ k, p.flowsDown k = false → d.get? k = none

theorem bind_eq_ok {ε α β : Type} {a : Except ε α} {f : α → Except ε β} {b : β} :
    (a >>= f) = .ok b ↔ ∃ x, a = .ok x ∧ f x = .ok b := by
  cases a <;> simp [bind, Except.bind]

theorem Phase.isOpen_iff {p : Phase} : p.isOpen = true ↔ p ≠ .entry ∧ p ≠ .closed := by
  cases p <;> decide

theorem Phase.ne_closed_of_isOpen {p : Phase} (h : p.isOpen = true) : p ≠ .closed := (isOpen_iff.1 h).2

namespace Node

variable {n : Node} {k x : String}

/-! ## Operations that may refuse -/

theorem ensure_eq_ok {s : PhaseSet} {u : Unit} : n.ensure s = .ok u ↔ s.contains n.phase = true := by
  unfold ensure
  split <;> simp_all

theorem contains_untilClosed {p : Phase} : PhaseSet.untilClosed.contains p = true ↔ p ≠ .closed := by
  cases p <;> decide

/-- A node after a write. -/
def write (n : Node) (key : String) (v : Option Value) : Node :=
  { n with writes := n.writes.insert key v, memo := n.memoAfter key }

/-- A node that has become active. -/
def activated (n : Node) : Node :=
  let post := if n.writesDown then n.overlay else n.postEntry
  { n with postEntry := post, memo := some post, phase := .active }

theorem get_eq_ok {v : Option Value} : n.get k = .ok v ↔ n.phase ≠ .closed ∧ n.value k = v := by
  simp only [get, bind_eq_ok, ensure_eq_ok, contains_untilClosed, pure, Except.pure, Except.ok.injEq]
  exact ⟨fun ⟨_, h, hv⟩ => ⟨h, hv⟩, fun ⟨h, hv⟩ => ⟨(), h, hv⟩⟩

theorem set_eq_ok {v : Option Value} {n' : Node} :
    n.set k v = .ok n' ↔ n.phase ≠ .closed ∧ n' = n.write k v := by
  simp only [set, bind_eq_ok, ensure_eq_ok, contains_untilClosed, pure, Except.pure, Except.ok.injEq]
  exact ⟨fun ⟨_, h, hn⟩ => ⟨h, hn.symm⟩, fun ⟨h, hn⟩ => ⟨(), h, hn.symm⟩⟩

theorem activate_eq_ok {n' : Node} : n.activate = .ok n' ↔ n.phase = .entry ∧ n' = n.activated := by
  have hc : PhaseSet.onEntry.contains n.phase = true ↔ n.phase = .entry := by cases n.phase <;> decide
  simp only [activate, bind_eq_ok, ensure_eq_ok, hc, pure, Except.pure, Except.ok.injEq]
  exact ⟨fun ⟨_, h, hn⟩ => ⟨h, hn.symm⟩, fun ⟨h, hn⟩ => ⟨(), h, hn.symm⟩⟩

theorem beginExit_eq_ok {n' : Node} :
    n.beginExit = .ok n' ↔ n.phase = .active ∧ n' = { n with phase := .exit } := by
  have hc : PhaseSet.whenActive.contains n.phase = true ↔ n.phase = .active := by cases n.phase <;> decide
  simp only [beginExit, bind_eq_ok, ensure_eq_ok, hc, pure, Except.pure, Except.ok.injEq]
  exact ⟨fun ⟨_, h, hn⟩ => ⟨h, hn.symm⟩, fun ⟨h, hn⟩ => ⟨(), h, hn.symm⟩⟩

/-- A node after several writes. -/
def writeAll (n : Node) (es : List (String × Option Value)) : Node :=
  es.foldl (fun n e => n.write e.1 e.2) n

/-- What one write keeps, several keep. -/
theorem writeAll_induction {P : Node → Prop} (step : ∀ n k v, P n → P (n.write k v)) (hn : P n)
    (es : List (String × Option Value)) : P (n.writeAll es) := by
  induction es generalizing n with
  | nil => exact hn
  | cons e es ih => exact ih (step n e.1 e.2 hn)

@[simp] theorem phase_writeAll (n : Node) (es : List (String × Option Value)) :
    (n.writeAll es).phase = n.phase :=
  writeAll_induction (P := fun m => m.phase = n.phase) (fun _ _ _ h => h) rfl es

theorem policy_writeAll (n : Node) (es : List (String × Option Value)) : (n.writeAll es).policy = n.policy :=
  writeAll_induction (P := fun m => m.policy = n.policy) (fun _ _ _ h => h) rfl es

theorem writeAll_append (n : Node) (es fs : List (String × Option Value)) :
    n.writeAll (es ++ fs) = (n.writeAll es).writeAll fs := List.foldl_append

theorem setAll_eq_ok {es : List (String × Value)} {n' : Node} :
    n.setAll es = .ok n' ↔
      (es ≠ [] → n.phase ≠ .closed) ∧ n' = n.writeAll (es.map fun e => (e.1, some e.2)) := by
  induction es generalizing n with
  | nil => simp [setAll, writeAll, pure, Except.pure, eq_comm]
  | cons e es ih =>
    have hc : n.setAll (e :: es) = .ok n' ↔ ∃ m, n.set e.1 (some e.2) = .ok m ∧ m.setAll es = .ok n' := by
      simp only [setAll, List.foldlM_cons, bind_eq_ok]
    simp only [hc, set_eq_ok, ih]
    constructor
    · rintro ⟨m, ⟨hp, rfl⟩, -, rfl⟩
      exact ⟨fun _ => hp, rfl⟩
    · rintro ⟨hp, rfl⟩
      exact ⟨_, ⟨hp (by simp), rfl⟩, fun _ => hp (by simp), rfl⟩

/-! ## What a node shows -/

theorem value_eq (n : Node) (k : String) : n.value k = (n.writes.get? k).getD (n.inherited.get? k) := by
  unfold value
  split <;> rename_i h <;> simp [h]

@[simp] theorem value_write (n : Node) (k x : String) (v : Option Value) :
    (n.write k v).value x = if k = x then v else n.value x := by
  simp only [value_eq, write, Dict.get?_insert]
  split <;> rfl

/-- What a node shows under a key after several writes with distinct keys. -/
theorem value_writeAll {es : List (String × Option Value)} (hes : (es.map Prod.fst).Nodup) (n : Node) (k : String) :
    (n.writeAll es).value k = (lookupEntry k es).getD (n.value k) := by
  induction es generalizing n with
  | nil => rfl
  | cons e es ih =>
    obtain ⟨k', v⟩ := e
    rw [List.map_cons, List.nodup_cons] at hes
    have step := ih hes.2 (n.write k' v)
    rw [value_write] at step
    refine step.trans ?_
    by_cases hk : k' = k
    · subst hk
      have hn : lookupEntry k' es = none := lookupEntry_eq_none.2 hes.1
      simp [hn, lookupEntry]
    · simp [lookupEntry, hk]

@[simp] theorem phase_remember (n : Node) (t : ThreadId) : (n.remember t).phase = n.phase := by
  unfold remember
  split <;> rfl

@[simp] theorem token_remember (n : Node) (t : ThreadId) : (n.remember t).token = n.token := by
  unfold remember
  split <;> rfl

/-- The writes that flow up, key by key. -/
theorem lookupEntry_upward (n : Node) (k : String) :
    lookupEntry k n.upward = if n.policy.flowsUp k then n.writes.get? k else none :=
  lookupEntry_filter_key n.policy.flowsUp k n.writes.entries

theorem nodup_upward (n : Node) : (n.upward.map Prod.fst).Nodup :=
  n.writes.nodup.sublist (List.filter_sublist.map _)

theorem writes_absorb {es : List (String × Option Value)} (hes : (es.map Prod.fst).Nodup) (p : Policy) :
    (n.absorb p es).writes.get? k = (lookupEntry k es).or (n.writes.get? k) :=
  Dict.get?_insertAll hes n.writes k

/-- Under a key that was taken over a node shows what the child wrote, under any
other what it showed. -/
theorem value_absorb {es : List (String × Option Value)} (hes : (es.map Prod.fst).Nodup) (p : Policy) :
    (n.absorb p es).value k = (lookupEntry k es).getD (n.value k) := by
  rw [value_eq, value_eq, writes_absorb hes]
  cases lookupEntry k es <;> rfl

/-! ## What a node hands down -/

/-- The value of a key as it flows down. -/
def downValue (n : Node) (k : String) : Option Value := if n.policy.flowsDown k then n.value k else none

theorem get?_layOver (p : Policy) (d : Data) (e : String × Option Value) (k : String) :
    (layOver p d e).get? k = if p.flowsDown k ∧ e.1 = k then e.2 else d.get? k := by
  obtain ⟨k', v⟩ := e
  by_cases hk : k' = k
  · subst hk
    by_cases hf : p.flowsDown k' = true <;> cases v <;> simp [layOver, hf]
  · by_cases hf : p.flowsDown k' = true <;> cases v <;> simp [layOver, hf, hk]

theorem get?_foldl_layOver (p : Policy) {es : List (String × Option Value)} (hes : (es.map Prod.fst).Nodup)
    (d : Data) (k : String) :
    (es.foldl (layOver p) d).get? k = if p.flowsDown k then (lookupEntry k es).getD (d.get? k) else d.get? k := by
  induction es generalizing d with
  | nil => simp [lookupEntry]
  | cons e es ih =>
    obtain ⟨k', v⟩ := e
    rw [List.map_cons, List.nodup_cons] at hes
    rw [List.foldl_cons, ih hes.2, get?_layOver]
    by_cases hk : k' = k
    · subst hk
      have hn : lookupEntry k' es = none := lookupEntry_eq_none.2 hes.1
      by_cases hf : p.flowsDown k' = true <;> simp [lookupEntry, hn, hf]
    · simp [lookupEntry, hk]

theorem get?_overlay (n : Node) (k : String) :
    n.overlay.get? k = if n.policy.flowsDown k then n.value k else n.inherited.get? k := by
  rw [value_eq]
  exact get?_foldl_layOver n.policy n.writes.nodup n.inherited k

/-- A snapshot made anew holds exactly what flows down. -/
theorem get?_rebuilt (h : Confined n.policy n.inherited) (k : String) :
    (if n.writesDown then n.overlay else n.inherited).get? k = n.downValue k := by
  unfold downValue
  split
  · rw [get?_overlay]
    split
    · rfl
    · rename_i hf
      exact h k (by simpa using hf)
  · rename_i hw
    split
    · rename_i hf
      have hk : n.writes.get? k = none := Dict.get?_of_any_eq_false (Bool.eq_false_iff.2 hw) hf
      rw [value_eq, hk]
      rfl
    · rename_i hf
      exact h k (by simpa using hf)

/-! ## The invariant -/

/-- The invariant of a node. -/
structure Sound (n : Node) : Prop where
  inherited : Confined n.policy n.inherited
  postEntry : Confined n.policy n.postEntry
  entry : n.phase = .entry → n.postEntry = n.inherited ∧ n.memo = none
  memo : n.phase.isOpen = true → ∀ m, n.memo = some m → ∀ k, Agrees (m.get? k) (n.downValue k)

/-- Until the entry phase ends, the data that outlives it is what will have been
laid over what the node inherits. -/
theorem get?_postEntry_activated (h : n.Sound) (hp : n.phase = .entry) (k : String) :
    n.activated.postEntry.get? k = n.downValue k := by
  have hi := (h.entry hp).1
  simp only [activated, hi]
  exact get?_rebuilt h.inherited k

theorem confined_of_downValue {d : Data} (h : ∀ k, Agrees (d.get? k) (n.downValue k)) :
    Confined n.policy d := by
  intro k hk
  have := h k
  simpa [downValue, hk] using this

/-- What the next synchronous child gets agrees with what flows down, whether it
comes from the memo or is made anew. -/
theorem Sound.snapshot (h : n.Sound) (ho : n.phase.isOpen = true) (k : String) :
    Agrees (n.snapshot.get? k) (n.downValue k) := by
  unfold Node.snapshot
  split
  · exact h.memo ho _ ‹_› k
  · exact .inl (get?_rebuilt h.inherited k)

theorem Sound.handDown (h : n.Sound) (t : ThreadId) : Confined n.policy (n.handDown t) := by
  unfold Node.handDown
  split
  · rename_i hj
    simp only [joins, Bool.and_eq_true] at hj
    exact confined_of_downValue (h.snapshot hj.2)
  · exact h.postEntry

/-- A node is sound when it has just been entered. -/
theorem Sound.fresh {p : Policy} {d : Data} (hd : Confined p d) (t : ThreadId) (s : Bool)
    (b : Option BridgeId) (parent : Option NodeId) : (Node.fresh p t s b parent d).Sound where
  inherited := hd
  postEntry := hd
  entry := fun _ => ⟨rfl, rfl⟩
  memo := fun ho => by simp [Node.fresh, Phase.isOpen] at ho

theorem Sound.child (h : n.Sound) (id : NodeId) (t : ThreadId) : (n.child id t).Sound :=
  Sound.fresh (h.handDown t) ..

theorem Sound.seed (h : n.Sound) (es : List (String × Value)) : (n.seed es).Sound := by
  unfold Node.seed
  split
  · rename_i hp
    exact ⟨h.inherited, h.postEntry, h.entry, fun ho => by simp [hp, Phase.isOpen] at ho⟩
  · exact h

theorem Sound.write (h : n.Sound) (k : String) (v : Option Value) : (n.write k v).Sound where
  inherited := h.inherited
  postEntry := h.postEntry
  entry := fun hp => ⟨(h.entry hp).1, by
    have hm := (h.entry hp).2
    simp only [Node.write, memoAfter, hm, ite_self]⟩
  memo := by
    intro ho m hm x
    change n.phase.isOpen = true at ho
    simp only [Node.write, memoAfter, ho, Bool.true_and] at hm
    split at hm
    · cases hm
    · rename_i hf
      have hx := h.memo ho m hm x
      -- The memo is only kept if the key does not flow down, so no value that flows down changed.
      have same : (n.write k v).downValue x = n.downValue x := by
        unfold downValue
        rw [value_write]
        by_cases hk : k = x
        · subst hk; simp [Node.write, hf]
        · simp [Node.write, hk]
      rw [same]
      exact hx

theorem Sound.writeAll (h : n.Sound) (es : List (String × Option Value)) : (n.writeAll es).Sound :=
  writeAll_induction (P := Sound) (fun _ k v h => h.write k v) h es

theorem Sound.activated (h : n.Sound) (hp : n.phase = .entry) : n.activated.Sound where
  inherited := h.inherited
  postEntry := confined_of_downValue fun k => .inl (get?_postEntry_activated h hp k)
  entry := fun hp' => by simp [Node.activated] at hp'
  memo := by
    intro _ m hm k
    have hm : n.activated.postEntry = m := by simpa [Node.activated] using hm
    exact .inl (hm ▸ get?_postEntry_activated h hp k)

theorem Sound.exiting (h : n.Sound) (hp : n.phase = .active) : { n with phase := .exit : Node }.Sound where
  inherited := h.inherited
  postEntry := h.postEntry
  entry := fun hp' => by simp at hp'
  memo := fun _ => h.memo (by simp [hp, Phase.isOpen])

theorem Sound.remember (h : n.Sound) (t : ThreadId) : (n.remember t).Sound := by
  unfold Node.remember
  split
  · rename_i hj
    simp only [joins, Bool.and_eq_true] at hj
    refine ⟨h.inherited, h.postEntry, fun hp => ?_, fun ho m hm k => ?_⟩
    · change n.phase = .entry at hp
      simp [hp, Phase.isOpen] at hj
    · cases hm
      exact h.snapshot hj.2 k
  · exact h

theorem Sound.retire (h : n.Sound) : n.retire.Sound where
  inherited := h.inherited
  postEntry := h.postEntry
  entry := fun hp => by simp [Node.retire] at hp
  memo := fun ho => by simp [Node.retire, Phase.isOpen] at ho

/-- Taking over the writes of a child that has the node's policy. The memo is only
kept if every value that flows down is still the same. -/
theorem Sound.absorb (h : n.Sound) (ho : n.phase.isOpen = true) {es : List (String × Option Value)}
    (hes : (es.map Prod.fst).Nodup) : (n.absorb n.policy es).Sound where
  inherited := h.inherited
  postEntry := h.postEntry
  entry := fun hp => by
    change n.phase = .entry at hp
    simp [hp, Phase.isOpen] at ho
  memo := by
    intro _ m hm k
    simp only [Node.absorb] at hm
    split at hm
    · cases hm
    · rename_i hk
      have agree : Agrees (n.downValue k) ((n.absorb n.policy es).downValue k) := by
        unfold downValue
        rw [value_absorb hes]
        show Agrees _ (if n.policy.flowsDown k then _ else none)
        split
        · rename_i hf
          cases hl : lookupEntry k es with
          | none => exact .refl _
          | some v =>
            have := List.any_eq_false.1 (by simpa using hk) _ (mem_of_lookupEntry hl)
            simp only [outdates, hf, Bool.true_and, Bool.not_eq_true, Bool.not_eq_false'] at this
            exact .inr this
        · rfl
      exact (h.memo ho m hm k).trans agree

end Node

end Ambient
