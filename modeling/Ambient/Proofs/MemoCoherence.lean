import Ambient.Proofs.Invariant

/-
The memo of an open node is never stale (`Reachable.memo_coherent`): in every
reachable process it agrees with what the node answers under every key that
flows down, and holds nothing else. So what a synchronous child inherits is what
its parent shows at that moment, whether it came from the memo or not.
-/

namespace Ambient

open World (EntersChild)

/-- **Memo coherence.** In every reachable process, what the memo of an open node
holds under a key that flows down agrees with what the node answers, and it holds
no other keys. A child entered on the node's thread at that moment, in whatever
way, is synchronous and answers the same. -/
theorem Reachable.memo_coherent {w : World} (h : Reachable w) {id : NodeId} {n : Node}
    (hn : w.nodes.get? id = some n) (ho : n.phase.isOpen = true) :
    (∀ m, n.memo = some m → ∀ k,
      if n.policy.flowsDown k then ∃ v, w.get id k = .ok v ∧ Agrees (m.get? k) v else m.get? k = none) ∧
    ∀ w' c, EntersChild w n.thread id (w', c) →
      (∃ child, w'.nodes.get? c = some child ∧ child.synchronous = true) ∧
      ∀ k, if n.policy.flowsDown k then ∃ v u, w.get id k = .ok v ∧ w'.get c k = .ok u ∧ Agrees u v
        else w'.get c k = .ok none := by
  have hs := h.sound.node hn
  have hget : ∀ k, w.get id k = .ok (n.value k) := World.get_eq hn (Phase.ne_closed_of_isOpen ho)
  -- Agreement with what flows down, read off key by key.
  have split : ∀ {d : Data}, (∀ k, Agrees (d.get? k) (n.downValue k)) → ∀ k,
      if n.policy.flowsDown k then Agrees (d.get? k) (n.value k) else d.get? k = none := by
    intro d hd k
    have := hd k
    unfold Node.downValue at this
    split <;> rename_i hf <;> simpa [hf] using this
  constructor
  · intro m hm k
    have := split (hs.memo ho m hm) k
    split <;> rename_i hf <;> simp only [hf] at this
    · exact ⟨_, hget k, this⟩
    · exact this
  · intro w' c hc
    have hj : n.joins n.thread = true := by simp [Node.joins, ho]
    refine ⟨⟨_, hc.child hn, hj⟩, fun k => ?_⟩
    have hgetc : w'.get c k = .ok (n.snapshot.get? k) := by
      rw [hc.get hn, Node.handDown, if_pos hj]
    have := split (hs.snapshot ho) k
    split <;> rename_i hf <;> simp only [hf] at this
    · exact ⟨_, _, hget k, hgetc, this⟩
    · rw [hgetc, this]

/-! ## A memo that outlives a change of zeros -/

/-- A node starts with zero, and a child closes that wrote the negative zero. -/
def zerosRun : List (ThreadId × Action) :=
  [.enter "parent" none bothWays none, .set 1 "k" (some (.double ⟨false, 0⟩)), .makeActive 1,
    .enter "child" (some 1) bothWays none, .makeActive 2, .set 2 "k" (some (.double ⟨true, 0⟩)),
    .close 2].map fun a => (0, a)

/-- The memo still has the one zero where the node answers the other. -/
theorem memo_coherent_zeros : ∃ n m, ((World.start 0).run zerosRun).nodes.get? 1 = some n ∧
    n.phase.isOpen = true ∧ n.memo = some m ∧ m.get? "k" = some (.double ⟨false, 0⟩) ∧
      ∃ v, ((World.start 0).run zerosRun).get 1 "k" = .ok v ∧ v = some (.double ⟨true, 0⟩) ∧
        Agrees (m.get? "k") v := by
  have hr : Reachable ((World.start 0).run zerosRun) := (Reachable.start 0).run zerosRun
  have hget : ((World.start 0).run zerosRun).get 1 "k" = .ok (some (.double ⟨true, 0⟩)) := by rfl
  obtain ⟨n, hn⟩ : ∃ n, ((World.start 0).run zerosRun).nodes.get? 1 = some n := ⟨_, rfl⟩
  have ho : n.phase.isOpen = true := by cases hn; rfl
  obtain ⟨m, hm⟩ : ∃ m, n.memo = some m := by cases hn; exact ⟨_, rfl⟩
  have hk : m.get? "k" = some (.double ⟨false, 0⟩) := by cases hn; cases hm; rfl
  have hf : n.policy.flowsDown "k" = true := by cases hn; rfl
  have hc := (hr.memo_coherent hn ho).1 m hm "k"
  rw [if_pos hf] at hc
  obtain ⟨v, hv, ha⟩ := hc
  exact ⟨n, m, hn, ho, hm, hk, v, hv, by rw [hget] at hv; cases hv; rfl, ha⟩

end Ambient
