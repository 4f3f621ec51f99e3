import Ambient.Proofs.Snapshot

/-
A node whose writes under one key are veiled: that there is a write still shows,
but not of which value. If the key flows neither down nor up, nothing that leaves
the node sees the veil: snapshots, tags, entries for the wire, and what flows up
into the parent (`Node.child_veil`, `Node.changedTags_veil`,
`Node.wireEntries_veil`, `Node.upward_veil`). What changes a node changes it
alike behind the veil (`Node.veil_set`, `Node.veil_absorb` and the others).
-/

namespace Ambient

/-- A policy under which a key flows neither down nor up. -/
structure Policy.Keeps (p : Policy) (k : String) : Prop where
  down : p.flowsDown k = false
  up : p.flowsUp k = false

theorem Policy.Keeps.notGlobal {p : Policy} {k : String} (h : p.Keeps k) : (p.upMode k).isGlobal = false := by
  have hu := h.up
  unfold flowsUp at hu
  revert hu
  cases p.upMode k <;> decide

/-- A write without its value, if it is one under the veiled key. -/
def veilEntry (k : String) (e : String × Option Value) : String × Option Value :=
  (e.1, if e.1 = k then none else e.2)

theorem veilEntry_of_ne {k : String} {e : String × Option Value} (h : e.1 ≠ k) : veilEntry k e = e := by
  unfold veilEntry
  rw [if_neg h]

@[simp] theorem veilEntry_veilEntry (k : String) (e : String × Option Value) :
    veilEntry k (veilEntry k e) = veilEntry k e := by
  unfold veilEntry
  split <;> rfl

def Writes.veil (k : String) (ws : Writes) : Writes := Dict.map ws fun x v => (veilEntry k (x, v)).2

theorem Writes.entries_veil (k : String) (ws : Writes) : (ws.veil k).entries = ws.entries.map (veilEntry k) := rfl

/-- A node whose writes under a key are veiled. -/
def Node.veil (k : String) (n : Node) : Node := { n with writes := n.writes.veil k }

namespace Node

variable {n m : Node} {k : String}

@[simp] theorem veil_veil (k : String) (n : Node) : (n.veil k).veil k = n.veil k := by
  have hw : (n.writes.veil k).veil k = n.writes.veil k := Dict.ext (by
    rw [Writes.entries_veil, Writes.entries_veil, List.map_map]
    exact List.map_congr_left fun e _ => veilEntry_veilEntry k e)
  unfold veil
  rw [hw]

/-! ## What the veil hides from -/

theorem get?_writes_veil (n : Node) (k x : String) :
    (n.veil k).writes.get? x = (n.writes.get? x).map fun v => if x = k then none else v :=
  Dict.get?_map ..

theorem value_veil {x : String} (hx : x ≠ k) : (n.veil k).value x = n.value x := by
  rw [value_eq, value_eq, get?_writes_veil]
  simp only [if_neg hx, Option.map_id']
  rfl

theorem get_veil {x : String} (hx : x ≠ k) : (n.veil k).get x = n.get x := by
  unfold get
  rw [value_veil hx]
  rfl

theorem remoteParent_veil (hk : k ≠ remoteParentKey) : (n.veil k).remoteParent = n.remoteParent := by
  unfold remoteParent
  rw [get_veil hk.symm]

theorem writesDown_veil (n : Node) (k : String) : (n.veil k).writesDown = n.writesDown := by
  unfold writesDown veil
  rw [Writes.entries_veil, List.any_map]
  rfl

theorem layOver_veilEntry {p : Policy} (hd : p.flowsDown k = false) (d : Data) (e : String × Option Value) :
    layOver p d (veilEntry k e) = layOver p d e := by
  by_cases he : e.1 = k
  · simp [layOver, veilEntry, he, hd]
  · rw [veilEntry_of_ne he]

theorem overlay_veil (hd : n.policy.flowsDown k = false) : (n.veil k).overlay = n.overlay := by
  unfold overlay veil
  rw [Writes.entries_veil, List.foldl_map]
  simp only [layOver_veilEntry hd]

theorem snapshot_veil (hd : n.policy.flowsDown k = false) : (n.veil k).snapshot = n.snapshot := by
  unfold snapshot
  rw [writesDown_veil, overlay_veil hd]
  rfl

theorem child_veil (hd : n.policy.flowsDown k = false) (id : NodeId) (t : ThreadId) :
    (n.veil k).child id t = n.child id t := by
  unfold child handDown
  rw [snapshot_veil hd]
  rfl

theorem changedTags_veil (hd : n.policy.flowsDown k = false) : (n.veil k).changedTags = n.changedTags := by
  have hc : ∀ e, (n.veil k).changesTag (veilEntry k e) = n.changesTag e := by
    intro e
    by_cases he : e.1 = k
    · simp [changesTag, veil, veilEntry, he, hd]
    · rw [veilEntry_of_ne he]
      rfl
  have ha : (n.veil k).writes.entries.any (n.veil k).changesTag = n.writes.entries.any n.changesTag := by
    change (n.writes.entries.map (veilEntry k)).any (n.veil k).changesTag = _
    rw [List.any_map]
    exact congrArg n.writes.entries.any (funext hc)
  unfold changedTags
  rw [ha]
  rfl

/-- Entries of other keys are not veiled. -/
theorem filter_map_veilEntry {accepts : String → Bool} (h : accepts k = false) (l : List (String × Option Value)) :
    (l.map (veilEntry k)).filter (fun e => accepts e.1) = l.filter fun e => accepts e.1 := by
  rw [List.filter_map]
  refine (List.map_congr_left fun e he => veilEntry_of_ne ?_).trans (List.map_id _)
  rintro rfl
  rw [Function.comp_def] at he
  exact absurd (List.mem_filter.1 he).2 (by simp [veilEntry, h])

theorem filterMap_map_veilEntry {β : Type} {g : String × Option Value → Option β} (h : ∀ e, e.1 = k → g e = none)
    (l : List (String × Option Value)) : (l.map (veilEntry k)).filterMap g = l.filterMap g := by
  have hg : g ∘ veilEntry k = g := funext fun e => by
    by_cases he : e.1 = k
    · exact (h (veilEntry k e) he).trans (h e he).symm
    · exact congrArg g (veilEntry_of_ne he)
  rw [List.filterMap_map, hg]

theorem upward_veil (hu : n.policy.flowsUp k = false) : (n.veil k).upward = n.upward :=
  filter_map_veilEntry hu n.writes.entries

theorem wireEntries_veil {accepts : String → Bool} (h : accepts k = false) :
    (n.veil k).wireEntries accepts = n.wireEntries accepts := by
  have hc : ∀ x, (n.veil k).writes.contains x = n.writes.contains x := by
    intro x
    unfold Dict.contains
    rw [get?_writes_veil]
    exact Option.isSome_map ..
  have hi : (n.veil k).inherited.filter (fun x _ => !(n.veil k).writes.contains x) =
      n.inherited.filter fun x _ => !n.writes.contains x := by
    simp only [hc]
    rfl
  have hw : (n.veil k).writes.entries = n.writes.entries.map (veilEntry k) := rfl
  unfold wireEntries effective
  rw [hi, hw, List.filterMap_append, List.filterMap_append, filterMap_map_veilEntry fun e he => by simp [he, h]]
  rfl

theorem downEntries_veil (h : n.policy.Keeps k) : (n.veil k).downEntries = n.downEntries := wireEntries_veil h.down

theorem upEntries_veil (h : n.policy.Keeps k) : (n.veil k).upEntries = n.upEntries := wireEntries_veil h.notGlobal

/-! ## Changes behind the veil -/

theorem veil_write (n : Node) (k x : String) (v : Option Value) :
    (n.write x v).veil k = (n.veil k).write x (if x = k then none else v) := by
  have hw : Writes.veil k (n.writes.insert x v) = (n.writes.veil k).insert x (if x = k then none else v) :=
    Dict.map_insert ..
  unfold veil write
  rw [hw]
  rfl

/-- Behind the veil it does not show which value is written. -/
theorem veil_set (h : n.veil k = m.veil k) (x : String) {v v' : Option Value} (hv : x ≠ k → v = v') :
    (n.set x v).map (veil k) = (m.set x v').map (veil k) := by
  have hw : (n.write x v).veil k = (m.write x v').veil k := by
    rw [veil_write, veil_write, h]
    split
    · rfl
    · rename_i hx
      rw [hv hx]
  have hp : n.ensure .untilClosed = m.ensure .untilClosed := by
    change (n.veil k).ensure .untilClosed = (m.veil k).ensure .untilClosed
    rw [h]
  unfold set
  rw [hp]
  cases m.ensure .untilClosed with
  | error e => rfl
  | ok u => exact congrArg Except.ok hw

theorem veil_setAll (h : n.veil k = m.veil k) (es : List (String × Value)) :
    (n.setAll es).map (veil k) = (m.setAll es).map (veil k) := by
  induction es generalizing n m with
  | nil => exact congrArg Except.ok h
  | cons e es ih =>
    have hs : (n.set e.1 (some e.2)).map (veil k) = (m.set e.1 (some e.2)).map (veil k) := veil_set h e.1 fun _ => rfl
    have hc : ∀ n : Node, n.setAll (e :: es) = n.set e.1 (some e.2) >>= fun n => n.setAll es := fun n => by
      rw [setAll, List.foldlM_cons]
      rfl
    rw [hc, hc]
    cases hn : n.set e.1 (some e.2) with
    | error =>
      rw [hn] at hs
      cases hm : m.set e.1 (some e.2) with
      | error => rw [hm] at hs; cases hs; rfl
      | ok => rw [hm] at hs; cases hs
    | ok n' =>
      rw [hn] at hs
      cases hm : m.set e.1 (some e.2) with
      | error => rw [hm] at hs; cases hs
      | ok m' =>
        rw [hm] at hs
        exact ih (Except.ok.inj hs)

theorem veil_insertAll {ws ws' : Writes} (h : ws.veil k = ws'.veil k) (es : List (String × Option Value)) :
    Writes.veil k (ws.insertAll es) = Writes.veil k (ws'.insertAll es) := by
  unfold Writes.veil at h ⊢
  rw [Dict.map_insertAll, Dict.map_insertAll, h]

theorem veil_seed (n : Node) (k : String) (es : List (String × Value)) :
    ((n.veil k).seed es).veil k = (n.seed es).veil k := by
  have hw := veil_insertAll (congrArg writes (veil_veil k n)) (es.map fun e => (e.1, some e.2))
  unfold seed
  by_cases hp : n.phase = .entry
  · have hp' : (n.veil k).phase = .entry := hp
    rw [if_pos hp, if_pos hp']
    unfold veil at hw ⊢
    exact congrArg (fun ws => ({ n with writes := ws } : Node)) hw
  · have hp' : ¬ (n.veil k).phase = .entry := hp
    rw [if_neg hp, if_neg hp', veil_veil]

theorem veil_remember (hd : n.policy.flowsDown k = false) (t : ThreadId) :
    (n.veil k).remember t = (n.remember t).veil k := by
  have hj : (n.veil k).joins t = n.joins t := rfl
  unfold remember
  rw [hj, snapshot_veil hd]
  split <;> rfl

theorem veil_activate (hd : n.policy.flowsDown k = false) :
    (n.veil k).activate = n.activate.map (veil k) := by
  have he : (n.veil k).ensure .onEntry = n.ensure .onEntry := rfl
  unfold activate
  rw [he, writesDown_veil, overlay_veil hd]
  cases n.ensure .onEntry <;> rfl

theorem veil_beginExit (n : Node) (k : String) : (n.veil k).beginExit = n.beginExit.map (veil k) := by
  have he : (n.veil k).ensure .whenActive = n.ensure .whenActive := rfl
  unfold beginExit
  rw [he]
  cases n.ensure .whenActive <;> rfl

/-- What flows up from a child under a policy that keeps the key. -/
theorem veil_absorb {p : Policy} (hd : p.flowsDown k = false) (es : List (String × Option Value)) :
    ((n.veil k).absorb p es).veil k = (n.absorb p es).veil k := by
  have ho : ∀ e, (n.veil k).outdates p e = n.outdates p e := by
    intro e
    by_cases he : e.1 = k
    · simp [outdates, he, hd]
    · simp only [outdates, value_veil he]
  have hw := veil_insertAll (congrArg writes (veil_veil k n)) es
  unfold absorb
  rw [funext ho]
  exact congrArg (fun ws => ({ n.absorb p es with writes := ws } : Node)) hw

end Node

end Ambient
