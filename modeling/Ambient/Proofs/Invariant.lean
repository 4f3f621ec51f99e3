import Ambient.Proofs.Effect

/-
The invariant of a process (`World.Sound`), kept by every action and so true of
every reachable process (`Reachable.sound`): numbers of nodes are not given out
again, every node is sound, and a node has the policy of its parent, which came
before it. What never changes about a node, whatever is done to the process, is
`Node.Evolves` (`World.Sound.evolves`).
-/

namespace Ambient

/-! ## What stays of a node -/

/-- A later state of the same node: its origin is the same, a parent is only ever
given up, what outlives the entry phase is fixed once that is over, and as long as the
node is open it holds on to its attachment and its scope. -/
structure Node.Evolves (n n' : Node) : Prop where
  policy : n'.policy = n.policy
  thread : n'.thread = n.thread
  synchronous : n'.synchronous = n.synchronous
  inherited : n'.inherited = n.inherited
  parent : ∀ pid, n'.parent = some pid → n.parent = some pid
  postEntry : n.phase ≠ .entry → n'.phase ≠ .entry ∧ n'.postEntry = n.postEntry
  closed : n.phase = .closed → n'.phase = .closed
  held : n.phase.isOpen = true → n'.phase.isOpen = true → n'.token = n.token ∧ n'.scope = n.scope

namespace Node.Evolves

variable {n : Node}

theorem refl (n : Node) : n.Evolves n :=
  ⟨rfl, rfl, rfl, rfl, fun _ h => h, fun h => ⟨h, rfl⟩, id, fun _ _ => ⟨rfl, rfl⟩⟩

theorem trans {n₁ n₂ n₃ : Node} (h : n₁.Evolves n₂) (h' : n₂.Evolves n₃) : n₁.Evolves n₃ where
  policy := h'.policy.trans h.policy
  thread := h'.thread.trans h.thread
  synchronous := h'.synchronous.trans h.synchronous
  inherited := h'.inherited.trans h.inherited
  parent := fun pid hp => h.parent pid (h'.parent pid hp)
  postEntry := fun hp =>
    have ⟨hp₂, he⟩ := h.postEntry hp
    have ⟨hp₃, he'⟩ := h'.postEntry hp₂
    ⟨hp₃, he'.trans he⟩
  closed := fun hp => h'.closed (h.closed hp)
  held := fun ho ho₃ => by
    -- The node does not open twice, so it is open in between.
    have ho₂ : n₂.phase.isOpen = true := by
      refine Phase.isOpen_iff.2 ⟨(h.postEntry (Phase.isOpen_iff.1 ho).1).1, ?_⟩
      intro hc
      exact (Phase.isOpen_iff.1 ho₃).2 (h'.closed hc)
    obtain ⟨htoken, hscope⟩ := h.held ho ho₂
    obtain ⟨htoken', hscope'⟩ := h'.held ho₂ ho₃
    exact ⟨htoken'.trans htoken, hscope'.trans hscope⟩

theorem writeAll (es : List (String × Option Value)) : n.Evolves (n.writeAll es) :=
  Node.writeAll_induction (P := n.Evolves)
    (fun _ _ _ h => ⟨h.policy, h.thread, h.synchronous, h.inherited, h.parent, h.postEntry, h.closed, h.held⟩)
    (refl n) es

theorem activated (h : n.phase = .entry) (token : Option Token) (scope : Option TagScope) :
    n.Evolves { n.activated with token, scope } :=
  ⟨rfl, rfl, rfl, rfl, fun _ h => h, fun hp => absurd h hp, fun hp => by simp [hp] at h,
    fun ho => absurd h (Phase.isOpen_iff.1 ho).1⟩

theorem exiting (h : n.phase = .active) : n.Evolves { n with phase := .exit } :=
  ⟨rfl, rfl, rfl, rfl, fun _ h => h, fun _ => ⟨by simp, rfl⟩, fun hp => by simp [hp] at h, fun _ _ => ⟨rfl, rfl⟩⟩

theorem remember (t : ThreadId) : n.Evolves (n.remember t) := by
  unfold Node.remember
  split
  · exact ⟨rfl, rfl, rfl, rfl, fun _ h => h, fun h => ⟨h, rfl⟩, id, fun _ _ => ⟨rfl, rfl⟩⟩
  · exact refl n

theorem retire : n.Evolves n.retire :=
  ⟨rfl, rfl, rfl, rfl, fun _ h => by simp [Node.retire] at h, fun _ => ⟨by simp [Node.retire], rfl⟩,
    fun _ => rfl, fun _ ho => by simp [Node.retire, Phase.isOpen] at ho⟩

theorem absorb (p : Policy) (es : List (String × Option Value)) : n.Evolves (n.absorb p es) :=
  ⟨rfl, rfl, rfl, rfl, fun _ h => h, fun h => ⟨h, rfl⟩, id, fun _ _ => ⟨rfl, rfl⟩⟩

end Node.Evolves

namespace World

variable {w w' : World} {t : ThreadId} {a : Action} {id : NodeId} {n n' : Node}

/-! ## The invariant -/

/-- The invariant of a process. -/
structure Sound (w : World) : Prop where
  fresh : ∀ {id n}, w.nodes.get? id = some n → id ≤ w.lastNode
  node : ∀ {id n}, w.nodes.get? id = some n → n.Sound
  family : ∀ {id n pid}, w.nodes.get? id = some n → n.parent = some pid →
    pid < id ∧ ∃ p, w.nodes.get? pid = some p ∧ p.policy = n.policy

theorem Sound.start (lastObject : Nat) : (World.start lastObject).Sound :=
  ⟨fun h => by simp [World.start] at h, fun h => by simp [World.start] at h,
    fun h => by simp [World.start] at h⟩

theorem Sound.sameNodes (h : w.Sound) (hs : SameNodes w w') : w'.Sound := by
  obtain ⟨hn, hl⟩ := hs
  refine ⟨fun hx => ?_, fun hx => ?_, fun hx hp => ?_⟩ <;> rw [hn] at hx
  · exact hl ▸ h.fresh hx
  · exact h.node hx
  · rw [hn]; exact h.family hx hp

/-- The next number is not in use. -/
theorem Sound.next_ne (h : w.Sound) (hn : w.nodes.get? id = some n) : w.lastNode + 1 ≠ id :=
  Nat.ne_of_gt (Nat.lt_succ_of_le (h.fresh hn))

/-- Replacing a node by a later state of it. -/
theorem Sound.puts (h : w.Sound) (hn : w.nodes.get? id = some n) (he : n.Evolves n') (hs : n'.Sound)
    (hw : Puts w id n' w') : w'.Sound := by
  refine ⟨fun {x m} hx => ?_, fun {x m} hx => ?_, fun {x m pid} hx hp => ?_⟩ <;> rw [hw.nodes] at hx
  · rw [hw.lastNode]
    split at hx
    · rename_i hid
      exact hid ▸ h.fresh hn
    · exact h.fresh hx
  · split at hx
    · cases hx; exact hs
    · exact h.node hx
  · -- Parents keep their policy whether or not they are the node that was replaced.
    have old : ∃ m₀, w.nodes.get? x = some m₀ ∧ m₀.parent = some pid ∧ m.policy = m₀.policy := by
      split at hx
      · rename_i hid
        cases hx
        exact ⟨n, hid ▸ hn, he.parent pid hp, he.policy⟩
      · exact ⟨m, hx, hp, rfl⟩
    obtain ⟨m₀, hm₀, hp₀, hpol⟩ := old
    obtain ⟨hlt, p, hpp, hpe⟩ := h.family hm₀ hp₀
    refine ⟨hlt, ?_⟩
    rw [hw.nodes]
    split
    · rename_i hid
      subst hid
      rw [hn] at hpp
      cases hpp
      exact ⟨n', rfl, he.policy.trans (hpe.trans hpol.symm)⟩
    · exact ⟨p, hpp, hpe.trans hpol.symm⟩

/-- Adding a node beneath one that is there. -/
theorem Sound.adds (h : w.Sound) (hs : n.Sound)
    (hp : ∀ pid, n.parent = some pid → ∃ p, w.nodes.get? pid = some p ∧ p.policy = n.policy)
    (hw : Adds w n w') : w'.Sound := by
  have keep : ∀ {pid p}, w.nodes.get? pid = some p → w'.nodes.get? pid = some p := fun {pid p} hpp => by
    rw [hw.nodes, if_neg (h.next_ne hpp), hpp]
  refine ⟨fun {x m} hx => ?_, fun {x m} hx => ?_, fun {x m pid} hx hp' => ?_⟩ <;> rw [hw.nodes] at hx
  · rw [hw.lastNode]
    split at hx
    · rename_i hid
      exact Nat.le_of_eq hid.symm
    · exact Nat.le_succ_of_le (h.fresh hx)
  · split at hx
    · cases hx; exact hs
    · exact h.node hx
  · split at hx
    · rename_i hid
      cases hx
      obtain ⟨p, hpp, hpe⟩ := hp pid hp'
      exact ⟨hid ▸ Nat.lt_succ_of_le (h.fresh hpp), p, keep hpp, hpe⟩
    · obtain ⟨hlt, p, hpp, hpe⟩ := h.family hx hp'
      exact ⟨hlt, p, keep hpp, hpe⟩

theorem Sound.child (h : w.Sound) (hn : w.nodes.get? id = some n)
    (hw : Adds (w.withNode id (n.remember t)) (n.child id t) w') : w'.Sound := by
  have hr := h.puts hn (.remember t) ((h.node hn).remember t) (withNode_puts ..)
  refine hr.adds ((h.node hn).child id t) (fun q hq => ?_) hw
  cases hq
  exact ⟨n.remember t, by rw [get?_withNode_self], (Node.Evolves.remember t).policy⟩

theorem Sound.entersChild {c : NodeId} (h : w.Sound) (hn : w.nodes.get? id = some n)
    (hc : EntersChild w t id (w', c)) : w'.Sound := by
  obtain ⟨rfl, -⟩ := Prod.mk.inj (hc.eq hn)
  exact h.child hn (enterChild_adds w t id n)

/-- Every action keeps the invariant. -/
theorem Effect.sound (he : Effect w t a w') (h : w.Sound) : w'.Sound := by
  cases he with
  | none hs => exact h.sameNodes hs
  | written es _ hn _ hw => exact h.puts hn (.writeAll es) ((h.node hn).writeAll es) hw
  | activated k s hn hp hw =>
    have ha := (h.node hn).activated hp
    exact h.puts hn (.activated hp k s) ⟨ha.inherited, ha.postEntry, ha.entry, ha.memo⟩ hw
  | exiting hn hp hw => exact h.puts hn (.exiting hp) ((h.node hn).exiting hp) hw
  | root p b es hw =>
    refine h.adds (.seed (.fresh (fun _ _ => rfl) ..) es) (fun pid hp => ?_) hw
    simp [Node.seed, Node.fresh] at hp
  | child hn hw => exact h.child hn hw
  | closed hn _ hw => exact h.puts hn .retire (h.node hn).retire hw
  | flowed hn ho hne hp hj ha hw =>
    rename_i id n pid p
    have hr := h.puts hn .retire (h.node hn).retire (withNode_puts ..)
    obtain ⟨-, p', hp', hpol⟩ := h.family hn hj.parent
    have hpp : p' = p := by rw [hp] at hp'; cases hp'; rfl
    subst hpp
    have hp₁ : (w.withNode id n.retire).nodes.get? pid = some p' := by
      rw [get?_withNode, if_neg hne.symm, hp]
    refine hr.puts hp₁ (.absorb ..) ?_ hw
    rw [← hpol]
    exact (h.node hp).absorb hj.isOpen n.nodup_upward

/-- Every node is still there after an action, in a later state. -/
theorem Effect.evolves (he : Effect w t a w') (h : w.Sound) {x : NodeId} {m : Node}
    (hm : w.nodes.get? x = some m) : ∃ m', w'.nodes.get? x = some m' ∧ m.Evolves m' := by
  have puts : ∀ {v : World} {id n n'}, v.nodes.get? x = some m → v.nodes.get? id = some n → n.Evolves n' →
      Puts v id n' w' → ∃ m', w'.nodes.get? x = some m' ∧ m.Evolves m' := by
    intro v id n n' hm hn he hw
    rw [hw.nodes]
    split
    · rename_i hid
      subst hid
      rw [hn] at hm
      cases hm
      exact ⟨n', rfl, he⟩
    · exact ⟨m, hm, .refl m⟩
  have hx := h.next_ne hm
  cases he with
  | none hs => exact ⟨m, by rw [hs.nodes, hm], .refl m⟩
  | written es _ hn _ hw => exact puts hm hn (.writeAll es) hw
  | activated k s hn hp hw => exact puts hm hn (.activated hp k s) hw
  | exiting hn hp hw => exact puts hm hn (.exiting hp) hw
  | root p b es hw =>
    rw [hw.nodes, if_neg hx]
    exact ⟨m, hm, .refl m⟩
  | child hn hw =>
    rename_i pid n
    have hl : (w.withNode pid (n.remember t)).lastNode = w.lastNode := rfl
    rw [hw.nodes, hl, if_neg hx, get?_withNode]
    split
    · rename_i hid
      subst hid
      rw [hn] at hm
      cases hm
      exact ⟨_, rfl, .remember t⟩
    · exact ⟨m, hm, .refl m⟩
  | closed hn _ hw => exact puts hm hn .retire hw
  | flowed hn ho hne hp hj ha hw =>
    rename_i id n pid p
    have hp₁ : (w.withNode id n.retire).nodes.get? pid = some p := by
      rw [get?_withNode, if_neg hne.symm, hp]
    by_cases hid : id = x
    · subst hid
      rw [hn] at hm
      cases hm
      rw [hw.nodes, if_neg hne, get?_withNode_self]
      exact ⟨_, rfl, .retire⟩
    · refine puts ?_ hp₁ (.absorb ..) hw
      rw [get?_withNode, if_neg hid, hm]

/-! ## Runs -/

/-- Every node is still there after a run, in a later state. -/
theorem Sound.evolves (h : w.Sound) (as : List (ThreadId × Action)) (hn : w.nodes.get? id = some n) :
    ∃ n', (w.run as).nodes.get? id = some n' ∧ n.Evolves n' := by
  induction as generalizing w n with
  | nil => exact ⟨n, hn, .refl n⟩
  | cons a as ih =>
    have he := perform_effect w a.1 a.2
    obtain ⟨n₁, hn₁, he₁⟩ := he.evolves h hn
    obtain ⟨n', hn', he'⟩ := ih (he.sound h) hn₁
    exact ⟨n', hn', he₁.trans he'⟩

end World

theorem Reachable.sound {w : World} (h : Reachable w) : w.Sound := by
  induction h with
  | start n => exact .start n
  | step t a _ ih => exact (World.perform_effect _ t a).sound ih

end Ambient
