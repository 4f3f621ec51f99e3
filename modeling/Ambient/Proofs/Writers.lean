import Ambient.Proofs.Invariant

/-
Who changes the data of a node (`Reachable.get_perform`): its own writes, its own
close, and the close of a synchronous child whose writes flow into it. Nothing
else does, on any thread. What flows in is known key by key, whatever the close
reports about the attachment that it undoes.
-/

namespace Ambient

open World

variable {w w' : World} {t : ThreadId} {a : Action} {id c : NodeId} {n child : Node} {k : String}

namespace Node

@[simp] theorem get_remember (n : Node) (t : ThreadId) (k : String) : (n.remember t).get k = n.get k := by
  unfold remember
  split <;> rfl

theorem get_activated (h : n.phase = .entry) (k : String) (token : Option Token) (scope : Option TagScope) :
    { n.activated with token, scope }.get k = n.get k := by
  have hn : n.get k = .ok (n.value k) := get_eq_ok.2 ⟨by simp [h], rfl⟩
  exact (get_eq_ok.2 ⟨by simp [activated], rfl⟩).trans hn.symm

theorem get_exiting (h : n.phase = .active) (k : String) : { n with phase := .exit }.get k = n.get k := by
  have hn : n.get k = .ok (n.value k) := get_eq_ok.2 ⟨by simp [h], rfl⟩
  exact (get_eq_ok.2 ⟨by simp, rfl⟩).trans hn.symm

end Node

namespace World

/-- What a thread closes flows into a node: an open synchronous child of it, closed on
the node's thread while the node is open, and alive until the child has undone its
attachment. (A node that only the attachments above the child's kept alive is gone by
then, with everybody who could read it.) -/
structure FlowsInto (w : World) (t : ThreadId) (c : NodeId) (child : Node) (id : NodeId) (n : Node) : Prop where
  node : w.nodes.get? c = some child
  isOpen : child.phase.isOpen = true
  joined : Joined child t id n
  alive : w.isAlive id = true
  survives : (w.close t c).world.isAlive id = true

/-- Whoever can be asked afterwards under a name is alive throughout. -/
theorem FlowsInto.of_held (hc : w.nodes.get? c = some child) (ho : child.phase.isOpen = true)
    (hj : Joined child t id n) (hh : (w.holders.entries.any fun e => e.2 == id) = true) :
    FlowsInto w t c child id n :=
  ⟨hc, ho, hj, isAlive_iff.2 (.inl hh), isAlive_of_held hh⟩

/-- A node answers the same once another one was replaced, or once it was replaced by
one that does. -/
theorem Puts.get {x : NodeId} {m m' : Node} (hw : Puts w x m' w') (hm : w.nodes.get? x = some m)
    (hg : x = id → m'.get k = m.get k) : w'.get id k = w.get id k := by
  by_cases hx : x = id
  · subst hx
    simp only [World.get, ask, hw.nodes, if_pos, hm, hg rfl]
  · exact get_congr (by rw [hw.nodes, if_neg hx]) k

theorem Adds.get {m : Node} (hw : Adds w m w') (hx : w.lastNode + 1 ≠ id) (k : String) :
    w'.get id k = w.get id k :=
  get_congr (by rw [hw.nodes, if_neg hx]) k

/-- The frame of an action: whoever it neither writes nor closes, nor flows into,
answers the same as before. -/
theorem Effect.get_frame (he : Effect w t a w') (hs : w.Sound) (hn : w.nodes.get? id = some n)
    (hwritten : a.written ≠ some id) (hclose : a ≠ .close id)
    (hflow : ∀ c child, a = .close c → ¬ FlowsInto w t c child id n) (k : String) :
    w'.get id k = w.get id k := by
  cases he with
  | none h => exact get_congr (by rw [h.nodes]) k
  | written es ha hm _ hw => exact hw.get hm fun hx => absurd (hx ▸ ha) hwritten
  | activated token scope hm he hw => exact hw.get hm fun _ => Node.get_activated he k token scope
  | exiting hm he hw => exact hw.get hm fun _ => Node.get_exiting he k
  | root p b es hw => exact hw.get (hs.next_ne hn) k
  | child hm hw =>
    exact (hw.get (hs.next_ne hn) k).trans ((withNode_puts ..).get hm fun _ => Node.get_remember ..)
  | closed hm _ hw => exact hw.get hm fun hx => absurd (hx ▸ rfl) hclose
  | flowed hm ho hne hq hj ha hw =>
    rename_i c child pid p
    have hq' : (w.withNode c child.retire).nodes.get? pid = some p := by rw [get?_withNode, if_neg hne.symm, hq]
    have into : pid ≠ id := by
      rintro rfl
      cases hn.symm.trans hq
      exact hflow c child rfl ⟨hm, ho, hj, isAlive_of_close ha, ha⟩
    exact (hw.get hq' fun hx => absurd hx into).trans
      ((withNode_puts ..).get hm fun hx => absurd (hx ▸ rfl) hclose)

/-- What flows into a node when a child closes: everything the child wrote, or took
over itself, under a key that flows up. -/
theorem FlowsInto.get (h : FlowsInto w t c child id n) (hs : w.Sound) (hn : w.nodes.get? id = some n)
    (k : String) :
    (w.close t c).world.get id k =
      match child.writes.get? k with
      | some v => if n.policy.flowsUp k then .ok v else w.get id k
      | none => w.get id k := by
  obtain ⟨hlt, p, hp, hpol⟩ := hs.family h.node h.joined.parent
  cases hn.symm.trans hp
  have hopen : n.phase ≠ .closed := Phase.ne_closed_of_isOpen h.joined.isOpen
  have hnodes := close_flows h.node h.isOpen hn (Nat.ne_of_lt hlt) h.joined h.survives id
  rw [if_pos rfl] at hnodes
  rw [get_eq hnodes hopen, get_eq hn hopen, Node.value_absorb child.nodup_upward, Node.lookupEntry_upward, ← hpol]
  cases child.writes.get? k with
  | none => simp
  | some v => by_cases hu : n.policy.flowsUp k = true <;> simp [hu]

end World

/-- **Who changes a node's data, and how.** In every reachable process and under every
action of any thread, what a node answers stays the same under every key, unless the
action writes the node, closes it, or closes a child that flows into it. In the last
case, whatever the close reports, every write of the child under a key that flows up
is what the node answers afterwards, tombstones included, and nothing else changes. -/
theorem Reachable.get_perform (h : Reachable w) (hn : w.nodes.get? id = some n) (t : ThreadId) (a : Action) :
    (a.written ≠ some id → a ≠ .close id → (∀ c child, a = .close c → ¬ FlowsInto w t c child id n) →
      ∀ k, (w.perform t a).get id k = w.get id k) ∧
    ∀ c child, a = .close c → FlowsInto w t c child id n → ∀ k,
      (w.perform t a).get id k =
        match child.writes.get? k with
        | some v => if n.policy.flowsUp k then .ok v else w.get id k
        | none => w.get id k := by
  refine ⟨fun hw hc hf => (perform_effect w t a).get_frame h.sound hn hw hc hf, ?_⟩
  rintro c child rfl hf
  exact hf.get h.sound hn

/-! ## A tombstone that flows up out of order -/

/-- A child writes a tombstone over its parent's value; then its parent is attached
once more, above the child. -/
def coveredRun : List (ThreadId × Action) :=
  [.enter "parent" none bothWays none, .set 1 "k" (some (.flag true)), .makeActive 1,
    .enter "child" (some 1) bothWays none, .makeActive 2, .set 2 "k" none, .attach 1].map fun a => (0, a)

/-- The close of the child reports that it was out of order, and its tombstone is what
the parent answers; a write of the child changes nothing about the parent. -/
theorem get_perform_covered :
    let w := (World.start 0).run coveredRun
    w.get 1 "k" = .ok (some (.flag true)) ∧
      (w.close 0 2).result = .error (.detachMismatch 2 (some 1)) ∧
      (w.perform 0 (.close 2)).get 1 "k" = .ok none ∧
      (w.perform 1 (.set 2 "k" (some (.flag false)))).get 1 "k" = w.get 1 "k" := by
  intro w
  have hr : Reachable w := (Reachable.start 0).run coveredRun
  obtain ⟨n, hn⟩ : ∃ n, w.nodes.get? 1 = some n := ⟨_, rfl⟩
  obtain ⟨child, hc⟩ : ∃ child, w.nodes.get? 2 = some child := ⟨_, rfl⟩
  have hflow : FlowsInto w 0 2 child 1 n := by
    cases hn
    cases hc
    exact .of_held rfl rfl ⟨rfl, rfl, rfl, rfl⟩ rfl
  have hk : child.writes.get? "k" = some none := by cases hc; rfl
  have hu : n.policy.flowsUp "k" = true := by cases hn; rfl
  refine ⟨rfl, rfl, ?_, ?_⟩
  · rw [(hr.get_perform hn 0 (.close 2)).2 2 child rfl hflow "k", hk]
    simp only [hu, if_true]
  · exact (hr.get_perform hn 1 (.set 2 "k" _)).1 (by simp [Action.written]) nofun nofun "k"

end Ambient
