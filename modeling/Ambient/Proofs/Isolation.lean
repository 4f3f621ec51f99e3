import Ambient.Proofs.Invariant
import Mathlib.Data.List.Basic
import Mathlib.Data.List.Induction

/-
Asynchronous children are isolated from what happens in the meantime
(`asynchronous_child`). A node keeps for them the data that flowed down when its
entry phase ended; the run that led to a process has one step at which that
happened (`left_entry`), and nothing after it reaches the data again. Until then
they get what the node itself inherited, and closing them changes nobody else.
-/

namespace Ambient

open World

/-- A state from which another one has what outlives the entry phase. -/
structure Node.Settled (n n' : Node) : Prop where
  phase : n.phase ≠ .entry
  postEntry : n'.postEntry = n.postEntry
  policy : n'.policy = n.policy

namespace World

variable {w w' : World} {t : ThreadId} {a : Action} {id : NodeId} {n : Node}

/-- Whoever is past the entry phase was so before the action, with the same data
for later children, or the action was the one that ended it. -/
theorem Effect.settled (he : Effect w t a w') (hn : w'.nodes.get? id = some n) (hp : n.phase ≠ .entry) :
    (∃ n₀, w.nodes.get? id = some n₀ ∧ n₀.Settled n) ∨
      (a = .makeActive id ∧ ∃ n₀, w.nodes.get? id = some n₀ ∧ n₀.phase = .entry ∧
        n.postEntry = n₀.activated.postEntry ∧ n.policy = n₀.policy) := by
  -- A replaced node that is past the entry phase settles the look-up in `v`.
  have puts : ∀ {v : World} {x m m'}, v.nodes.get? x = some m → Puts v x m' w' →
      (m'.phase ≠ .entry → m.Settled m') → ∃ n₀, v.nodes.get? id = some n₀ ∧ n₀.Settled n := by
    intro v x m m' hm hw hs
    rw [hw.nodes] at hn
    split at hn
    · rename_i hid
      cases hn
      exact ⟨m, hid ▸ hm, hs hp⟩
    · exact ⟨n, hn, hp, rfl, rfl⟩
  cases he with
  | none hs => exact .inl ⟨n, hs.nodes ▸ hn, hp, rfl, rfl⟩
  | written es ha hm hc hw =>
    rename_i x m
    have he : m.Evolves (m.writeAll es) := .writeAll es
    exact .inl (puts hm hw fun h =>
      have h := m.phase_writeAll es ▸ h
      ⟨h, (he.postEntry h).2, he.policy⟩)
  | activated k s hm he hw =>
    rename_i x m
    by_cases hid : x = id
    · subst hid
      rw [hw.nodes, if_pos rfl] at hn
      cases hn
      exact .inr ⟨rfl, m, hm, he, rfl, rfl⟩
    · rw [hw.nodes, if_neg hid] at hn
      exact .inl ⟨n, hn, hp, rfl, rfl⟩
  | exiting hm he hw => exact .inl (puts hm hw fun _ => ⟨by simp [he], rfl, rfl⟩)
  | root p b es hw =>
    rw [hw.nodes] at hn
    split at hn
    · cases hn
      exact absurd rfl hp
    · exact .inl ⟨n, hn, hp, rfl, rfl⟩
  | child hm hw =>
    rename_i pid m
    rw [hw.nodes] at hn
    split at hn
    · cases hn
      exact absurd rfl hp
    · rw [get?_withNode] at hn
      split at hn
      · rename_i hid
        cases hn
        have he : m.Evolves (m.remember t) := .remember t
        have h := m.phase_remember t ▸ hp
        exact .inl ⟨m, hid ▸ hm, h, (he.postEntry h).2, he.policy⟩
      · exact .inl ⟨n, hn, hp, rfl, rfl⟩
  | closed hm ho hw =>
    exact .inl (puts hm hw fun _ => ⟨by rintro he; simp [he, Phase.isOpen] at ho, rfl, rfl⟩)
  | flowed hm ho hne hq hj ha hw =>
    rename_i x m pid q
    have hq₁ : (w.withNode x m.retire).nodes.get? pid = some q := by rw [get?_withNode, if_neg hne.symm, hq]
    obtain ⟨n₁, hn₁, hs⟩ := puts hq₁ hw fun h => ⟨h, rfl, rfl⟩
    rw [get?_withNode] at hn₁
    split at hn₁
    · rename_i hid
      cases hn₁
      have hme : m.phase ≠ .entry := by rintro he; simp [he, Phase.isOpen] at ho
      exact .inl ⟨m, hid ▸ hm, hme, hs.postEntry, hs.policy⟩
    · exact .inl ⟨n₁, hn₁, hs⟩

/-- The close of an asynchronous child changes nobody else's data. -/
theorem get_close_asynchronous {c : NodeId} {child : Node} (hc : w.nodes.get? c = some child)
    (hs : child.synchronous = false) {x : NodeId} (hx : x ≠ c) (k : String) :
    (w.close t c).world.get x k = w.get x k := by
  cases ho : child.phase.isOpen with
  | false =>
    rw [close_refused fun n hn => ?_]
    rw [hc] at hn
    cases hn
    exact ho
  | true =>
    rcases close_cases hc ho with h | ⟨pid, p, -, -, hj, -⟩
    · exact get_congr ((h x).trans (if_neg hx.symm)) k
    · rw [hj.synchronous] at hs
      cases hs

end World

/-- A node that has left the entry phase did so at one step of the run, and keeps
for its asynchronous children what flowed down at that moment. -/
theorem left_entry (lastObject : Nat) (as : List (ThreadId × Action)) {id : NodeId} {n : Node}
    (hn : ((World.start lastObject).run as).nodes.get? id = some n) (hp : n.phase ≠ .entry) :
    ∃ as₁ t as₂ n₀, as = as₁ ++ (t, .makeActive id) :: as₂ ∧
      ((World.start lastObject).run as₁).nodes.get? id = some n₀ ∧ n₀.phase = .entry ∧
      n.policy = n₀.policy ∧ ∀ k, n.postEntry.get? k = n₀.downValue k := by
  induction as using List.reverseRecOn generalizing n with
  | nil => simp [World.start] at hn
  | append_singleton as a ih =>
    obtain ⟨t, a⟩ := a
    rw [run_concat] at hn
    rcases (perform_effect _ t a).settled hn hp with ⟨n₁, hn₁, hs⟩ | ⟨rfl, n₀, hn₀, he, hpost, hpol⟩
    · obtain ⟨as₁, u, as₂, n₀, rfl, hn₀, he, hpol, hk⟩ := ih hn₁ hs.phase
      refine ⟨as₁, u, as₂ ++ [(t, a)], n₀, by simp, hn₀, he, hs.policy.trans hpol, fun k => ?_⟩
      rw [hs.postEntry, hk]
    · have hr : Reachable ((World.start lastObject).run as) := (Reachable.start lastObject).run as
      refine ⟨as, t, [], n₀, rfl, hn₀, he, hpol, fun k => ?_⟩
      rw [hpost, Node.get?_postEntry_activated (hr.sound.node hn₀) he]

/-- **Isolation of asynchronous children**, after any run. A child that is entered
from another thread than the one that entered the node, or beneath a closed node,
starts with exactly the values that flowed down when the node became active, at
whatever step of the run that was, whatever happened since. A child of a node that
has not become active yet starts with exactly what the node itself inherited. No
such child changes anybody else's data when it closes, whatever happens before. -/
theorem asynchronous_child (lastObject : Nat) (as : List (ThreadId × Action)) {id : NodeId} {n : Node}
    (hn : ((World.start lastObject).run as).nodes.get? id = some n) :
    (n.phase ≠ .entry → ∃ as₁ u as₂ n₀, as = as₁ ++ (u, .makeActive id) :: as₂ ∧
      ((World.start lastObject).run as₁).nodes.get? id = some n₀ ∧ n₀.phase = .entry ∧
      ∀ t w' c, t ≠ n.thread ∨ n.phase = .closed →
        EntersChild ((World.start lastObject).run as) t id (w', c) → ∀ k,
          ∃ v, ((World.start lastObject).run as₁).get id k = .ok v ∧
            w'.get c k = .ok (if n.policy.flowsDown k then v else none)) ∧
    (n.phase = .entry → ∀ t w' c, EntersChild ((World.start lastObject).run as) t id (w', c) →
      ∀ k, w'.get c k = .ok (n.inherited.get? k)) ∧
    ∀ t w' c, t ≠ n.thread ∨ n.phase = .entry ∨ n.phase = .closed →
      EntersChild ((World.start lastObject).run as) t id (w', c) →
        (∃ child, w'.nodes.get? c = some child ∧ child.synchronous = false) ∧
        ∀ bs u x, x ≠ c → ∀ k, ((w'.run bs).close u c).world.get x k = (w'.run bs).get x k := by
  have hr : Reachable ((World.start lastObject).run as) := (Reachable.start lastObject).run as
  have hs := hr.sound
  have apart : ∀ {t}, t ≠ n.thread ∨ n.phase = .entry ∨ n.phase = .closed → n.joins t = false := by
    rintro t (ht | hp | hp)
    · simp [Node.joins, Ne.symm ht]
    · simp [Node.joins, hp, Phase.isOpen]
    · simp [Node.joins, hp, Phase.isOpen]
  refine ⟨fun hp => ?_, fun hp t w' c hc k => ?_, fun t w' c hap hc => ?_⟩
  · obtain ⟨as₁, u, as₂, n₀, has, hn₀, he, hpol, hk⟩ := left_entry lastObject as hn hp
    refine ⟨as₁, u, as₂, n₀, has, hn₀, he, fun t w' c hap hc k => ?_⟩
    have hj := apart (hap.imp_right .inr)
    refine ⟨n₀.value k, get_eq hn₀ (by simp [he]) k, ?_⟩
    rw [hc.get hn, Node.handDown, if_neg (by simp [hj]), hk, Node.downValue, hpol]
  · have hj := apart (t := t) (.inr (.inl hp))
    rw [hc.get hn, Node.handDown, if_neg (by simp [hj]), ((hs.node hn).entry hp).1]
  · have hchild := hc.child hn
    have hsync : (n.child id t).synchronous = false := apart hap
    refine ⟨⟨_, hchild, hsync⟩, fun bs u x hx k => ?_⟩
    obtain ⟨child, hchild', he⟩ := (hs.entersChild hn hc).evolves bs hchild
    exact get_close_asynchronous hchild' (he.synchronous.trans hsync) hx k

/-! ## A write that comes too late -/

/-- A node starts with one value; a second one is written once it is active, and a
third one flows into it. -/
def lateRun : List (ThreadId × Action) :=
  [.enter "parent" none bothWays none, .set 1 "k" (some (.text "early")), .makeActive 1,
    .set 1 "k" (some (.text "late")), .enter "child" (some 1) bothWays none, .makeActive 2,
    .set 2 "k" (some (.text "below")), .close 2].map fun a => (0, a)

/-- Only one step of the run makes the node active. -/
theorem lateRun_left {as₁ as₂ : List (ThreadId × Action)} {u : ThreadId}
    (h : lateRun = as₁ ++ (u, .makeActive 1) :: as₂) : as₁ = lateRun.take 2 := by
  obtain rfl : u = 0 := by
    have hm : (u, Action.makeActive 1) ∈ lateRun := h ▸ by simp
    simpa [lateRun] using hm
  have hs : lateRun = lateRun.take 2 ++ (0, .makeActive 1) :: lateRun.drop 3 := rfl
  rw [hs] at h
  exact ((List.append_cons_inj_of_notMem (by simp [lateRun]) (by simp [lateRun])).1 h).1.symm

/-- The node shows the third value, and a child on another thread the first one. -/
theorem asynchronous_child_late : ((World.start 0).run lateRun).get 1 "k" = .ok (some (.text "below")) ∧
    ∀ w' c, EntersChild ((World.start 0).run lateRun) 1 1 (w', c) →
      w'.get c "k" = .ok (some (.text "early")) := by
  refine ⟨rfl, fun w' c hc => ?_⟩
  obtain ⟨n, hn⟩ : ∃ n, ((World.start 0).run lateRun).nodes.get? 1 = some n := ⟨_, rfl⟩
  have hp : n.phase ≠ .entry := by cases hn; decide
  have ht : 1 ≠ n.thread := by cases hn; decide
  have hf : n.policy.flowsDown "k" = true := by cases hn; rfl
  obtain ⟨as₁, u, as₂, n₀, has, hn₀, he, hk⟩ := (asynchronous_child 0 lateRun hn).1 hp
  obtain ⟨v, hv, hc⟩ := hk 1 w' c (.inl ht) hc "k"
  rw [hc, if_pos hf]
  cases lateRun_left has
  cases hv
  rfl

end Ambient
