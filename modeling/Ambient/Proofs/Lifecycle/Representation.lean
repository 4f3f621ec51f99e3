import Ambient.Proofs.Lifecycle.Family

/-
What is true of every node of every process that a run reaches (`Node.Lawful`),
and how the phases of nodes change on the way (`node_lifecycle`). Everything a node
has been through is read off the run: beneath whom it was entered, and which step
made it active.
-/

namespace Ambient

open World

/-- What is true of a node after a run: of its policy and that of everyone above it,
of the data it keeps for others, and of what it holds in each phase. -/
structure Node.Lawful (lastObject : Nat) (as : List (ThreadId × Action)) (id : NodeId) (n : Node) : Prop where
  /-- Whoever is above it, itself included, had this policy at each moment of the run. -/
  policy : ∀ as₁ as₂ pid p, as = as₁ ++ as₂ → Relation.ReflTransGen (Beneath lastObject as) id pid →
    ((World.start lastObject).run as₁).nodes.get? pid = some p → p.policy = n.policy
  confined : Confined n.policy n.inherited ∧ Confined n.policy n.postEntry ∧
    ∀ m, n.memo = some m → Confined n.policy m
  entry : n.phase = .entry → n.postEntry = n.inherited ∧ n.memo = none ∧ n.token = none ∧ n.scope = none
  /-- An open node holds the token of the step that made it active. -/
  token : n.phase = .active ∨ n.phase = .exit → ∃ as₁ t as₂ m, as = as₁ ++ (t, .makeActive id) :: as₂ ∧
    ((World.start lastObject).run as₁).nodes.get? id = some m ∧ m.phase = .entry ∧
    n.token = some (((World.start lastObject).run as₁).attach t id).2
  closed : n.phase = .closed →
    n.writes = Dict.empty ∧ n.memo = none ∧ n.token = none ∧ n.scope = none ∧ n.parent = none
  /-- It was entered once, and forgets beneath whom when it is closed. -/
  parent : ∃ origin, (∀ o, (id, o) ∈ (World.start lastObject).family as ↔ o = origin) ∧
    n.parent = if n.phase = .closed then none else origin

section

variable (lastObject : Nat) (as : List (ThreadId × Action)) {id : NodeId} {n : Node}

/-- An open node was made active at one step of the run, and still holds the token of it. -/
theorem token_of_open (hn : ((World.start lastObject).run as).nodes.get? id = some n) (ho : n.phase.isOpen = true) :
    ∃ as₁ t as₂ m, as = as₁ ++ (t, .makeActive id) :: as₂ ∧
      ((World.start lastObject).run as₁).nodes.get? id = some m ∧ m.phase = .entry ∧
      n.token = some (((World.start lastObject).run as₁).attach t id).2 := by
  induction as using List.reverseRecOn generalizing n with
  | nil => cases hn
  | append_singleton as a ih =>
    obtain ⟨u, a⟩ := a
    rw [run_concat] at hn
    rcases old_or_entered hn with ⟨m, hm⟩ | ⟨origin, he⟩
    · obtain ⟨n', hn', hs⟩ := perform_steps (sound_run lastObject as) hm u a
      obtain rfl := Option.some.inj (hn.symm.trans hn')
      rcases hs.token ho with ⟨hmo, htoken⟩ | ⟨rfl, hme, htoken⟩
      · obtain ⟨as₁, t, as₂, m₀, rfl, hm₀, hp, ht⟩ := ih hm hmo
        exact ⟨as₁, t, as₂ ++ [(u, a)], m₀, by simp, hm₀, hp, htoken.trans ht⟩
      · exact ⟨as, u, [], m, rfl, hm, hme, htoken⟩
    · obtain ⟨rfl, henters⟩ := enters_of_mem he u
      obtain ⟨n', hn', hp, -⟩ := henters.descends (sound_run lastObject as)
      obtain rfl := Option.some.inj (hn.symm.trans hn')
      rw [hp] at ho
      cases ho

/-- Every node of a process that a run reaches is lawful. -/
theorem Node.lawful (hn : ((World.start lastObject).run as).nodes.get? id = some n) : n.Lawful lastObject as id := by
  have hs := (sound_run lastObject as).node hn
  obtain ⟨origin, hmem⟩ := exists_mem_family lastObject as hn
  obtain ⟨n', hn', hd⟩ := descends_of_mem_family lastObject as hmem
  obtain rfl := Option.some.inj (hn.symm.trans hn')
  have retired : n.phase = .closed → n.retire = n := hd.tidy.closed
  refine ⟨?_, ⟨hs.inherited, hs.postEntry, fun m hm => ?_⟩, fun hp => ?_, fun hp => ?_, fun hp => ?_, origin, ?_, ?_⟩
  · rintro as₁ as₂ pid p rfl habove hp
    exact policy_above lastObject habove hn hp
  · -- Before and after its open phases a node has no memo.
    cases hp : n.phase with
    | entry => rw [(hs.entry hp).2] at hm; cases hm
    | closed => rw [← retired hp] at hm; cases hm
    | active => exact Node.confined_of_downValue (hs.memo (by simp [hp, Phase.isOpen]) m hm)
    | exit => exact Node.confined_of_downValue (hs.memo (by simp [hp, Phase.isOpen]) m hm)
  · obtain ⟨hpost, hmemo⟩ := hs.entry hp
    obtain ⟨htoken, hscope⟩ := hd.tidy.entry hp
    exact ⟨hpost, hmemo, htoken, hscope⟩
  · refine token_of_open lastObject as hn ?_
    rcases hp with hp | hp <;> rw [hp] <;> rfl
  · rw [← retired hp]
    exact ⟨rfl, rfl, rfl, rfl, rfl⟩
  · intro o
    exact ⟨fun ho => family_unique lastObject as ho hmem, fun ho => ho ▸ hmem⟩
  · exact hd.parent

end

/-- **The life of nodes**, along every run and in every process it reaches. A phase
changes only by the node's own operations, from the entry phase on, each of which
changes the process once and never again; and every node is lawful. -/
theorem node_lifecycle (lastObject : Nat) (as : List (ThreadId × Action)) :
    let w := (World.start lastObject).run as
    (∀ t a id n, w.nodes.get? id = some n → ∃ n', (w.perform t a).nodes.get? id = some n' ∧
      (n'.phase = n.phase ∨ Moves id a n.phase n'.phase)) ∧
    (∀ t a id n, w.nodes.get? id = none → (w.perform t a).nodes.get? id = some n → n.phase = .entry) ∧
    (∀ id a p q t, Moves id a p q → w.perform t a ≠ w → ∀ later u,
      ((w.perform t a).run later).perform u a = (w.perform t a).run later) ∧
    ∀ id n, w.nodes.get? id = some n → n.Lawful lastObject as id := by
  intro w
  have hs : w.Sound := sound_run lastObject as
  refine ⟨fun t a id n hn => ?_, fun t a id n hnone hn => ?_, fun id a p q t ha he later u => ?_,
    fun id n hn => Node.lawful lastObject as hn⟩
  · obtain ⟨n', hn', hsteps⟩ := perform_steps hs hn t a
    exact ⟨n', hn', hsteps.phase⟩
  · rcases old_or_entered hn with ⟨m, hm⟩ | ⟨origin, he⟩
    · rw [hnone] at hm
      cases hm
    · obtain ⟨rfl, henters⟩ := enters_of_mem he t
      obtain ⟨n', hn', hp, -⟩ := henters.descends hs
      obtain rfl := Option.some.inj (hn.symm.trans hn')
      exact hp
  · exact hs.perform_once ha he later u

end Ambient
