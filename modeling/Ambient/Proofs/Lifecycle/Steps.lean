import Ambient.Proofs.Invariant

/-
What one action does to a node that is there (`World.perform_steps`), with the
token that becoming active gives it. Read off it: the phases of a node change
along its life and by its own operations only (`Node.Steps.phase`), and such an
operation that is not in its turn changes nothing at all
(`World.perform_refused`).
-/

namespace Ambient

/-- The operations that move a node on in its life. -/
inductive Moves (id : NodeId) : Action → Phase → Phase → Prop
  | active : Moves id (.makeActive id) .entry .active
  | exit : Moves id (.beginExit id) .active .exit
  | close {p : Phase} : p.isOpen = true → Moves id (.close id) p .closed

/-- What an action on a thread does to a node that is there. -/
inductive Node.Steps (w : World) (t : ThreadId) (id : NodeId) (n : Node) : Action → Node → Prop
  | kept {a} : Steps w t id n a n
  | written {a} (es : List (String × Option Value)) : n.phase ≠ .closed → Steps w t id n a (n.writeAll es)
  | activated (scope : Option TagScope) : n.phase = .entry →
      Steps w t id n (.makeActive id) { n.activated with token := some (w.attach t id).2, scope }
  | exiting : n.phase = .active → Steps w t id n (.beginExit id) { n with phase := .exit }
  /-- A child was entered beneath the node. -/
  | remembered {a} : Steps w t id n a (n.remember t)
  | closed : n.phase.isOpen = true → Steps w t id n (.close id) n.retire
  /-- A child of the node was closed. -/
  | absorbed {a} (p : Policy) (es : List (String × Option Value)) : n.phase.isOpen = true →
      Steps w t id n a (n.absorb p es)

namespace World

variable {w w' : World} {t : ThreadId} {a : Action} {id : NodeId} {n n' : Node}

/-- **What an action does to one node** that is there before it. -/
theorem perform_steps (h : w.Sound) (hn : w.nodes.get? id = some n) (t : ThreadId) (a : Action) :
    ∃ n', (w.perform t a).nodes.get? id = some n' ∧ Node.Steps w t id n a n' := by
  -- A node that was replaced in `v` is this one, or this one is as it was in `v`.
  have puts : ∀ {v : World} {x m m' : _} {k : Node}, v.nodes.get? id = some k → v.nodes.get? x = some m →
      Puts v x m' (w.perform t a) →
      (x = id → k = m → Node.Steps w t id n a m') → (x ≠ id → Node.Steps w t id n a k) →
      ∃ n', (w.perform t a).nodes.get? id = some n' ∧ Node.Steps w t id n a n' := by
    intro v x m m' k hk hm hw hown hother
    rw [hw.nodes]
    by_cases hx : x = id
    · subst hx
      rw [hk] at hm
      rw [if_pos rfl]
      exact ⟨m', rfl, hown rfl (Option.some.inj hm)⟩
    · rw [if_neg hx]
      exact ⟨k, hk, hother hx⟩
  generalize hw' : w.perform t a = w' at puts ⊢
  have he : Effect w t a w' := hw' ▸ perform_effect w t a
  cases he with
  | none hs => exact ⟨n, hs.nodes ▸ hn, .kept⟩
  | written es _ hm hp hw =>
    refine puts hn hm hw (fun _ he => ?_) fun _ => .kept
    subst he
    exact .written es hp
  | activated token scope hm hp hw =>
    rename_i x m
    obtain ⟨scope', hw₂⟩ := makeActive_puts t hm hp
    rw [show (w.makeActive t x).world = w' from hw'] at hw₂
    refine puts hn hm hw₂ (fun hx he => ?_) fun _ => .kept
    subst hx he
    exact .activated scope' hp
  | exiting hm hp hw =>
    refine puts hn hm hw (fun hx he => ?_) fun _ => .kept
    subst hx he
    exact .exiting hp
  | root p b es hw => exact ⟨n, by rw [hw.nodes, if_neg (h.next_ne hn), hn], .kept⟩
  | child hm hw =>
    rename_i pid m
    have hl : (w.withNode pid (m.remember t)).lastNode = w.lastNode := rfl
    rw [hw.nodes, hl, if_neg (h.next_ne hn), get?_withNode]
    by_cases hx : pid = id
    · subst hx
      rw [hn] at hm
      cases hm
      exact ⟨_, if_pos rfl, .remembered⟩
    · exact ⟨n, by rw [if_neg hx, hn], .kept⟩
  | closed hm ho hw =>
    refine puts hn hm hw (fun hx he => ?_) fun _ => .kept
    subst hx he
    exact .closed ho
  | flowed hm ho hne hq hj ha hw =>
    rename_i x m pid q
    have hq₁ : (w.withNode x m.retire).nodes.get? pid = some q := by rw [get?_withNode, if_neg hne.symm, hq]
    by_cases hx : x = id
    · subst hx
      rw [hn] at hm
      cases hm
      refine puts (k := n.retire) ?_ hq₁ hw (fun hp => absurd hp hne) fun _ => .closed ho
      rw [get?_withNode_self]
    · refine puts (k := n) ?_ hq₁ hw (fun hp he => ?_) fun _ => .kept
      · rw [get?_withNode, if_neg hx, hn]
      · subst he
        exact .absorbed _ _ hj.isOpen

/-- An operation on the life of a node that is in its turn moves it on. -/
theorem perform_moves (hn : w.nodes.get? id = some n) {q : Phase} (hm : Moves id a n.phase q) (t : ThreadId) :
    ∃ n', (w.perform t a).nodes.get? id = some n' ∧ n'.phase = q := by
  generalize hp : n.phase = p at hm
  cases hm with
  | active =>
    obtain ⟨scope, hw⟩ := makeActive_puts t hn hp
    exact ⟨_, (hw.nodes id).trans (if_pos rfl), rfl⟩
  | exit =>
    refine ⟨{ n with phase := .exit }, ?_, rfl⟩
    show (w.change id Node.beginExit).world.nodes.get? id = _
    rw [change_eq hn (Node.beginExit_eq_ok.2 ⟨hp, rfl⟩), get?_withNode_self]
  | close ho => exact ⟨n.retire, get?_close hn (hp ▸ ho), rfl⟩

/-- An operation on the life of a node that is not in its turn changes nothing. -/
theorem perform_refused {p q : Phase} (ha : Moves id a p q) (t : ThreadId)
    (hn : ∀ n q', w.nodes.get? id = some n → ¬ Moves id a n.phase q') : w.perform t a = w := by
  cases ha with
  | active =>
    have hask : ∀ n', w.ask id Node.activate ≠ .ok n' := by
      intro n' ho
      obtain ⟨n, hm, hf⟩ := ask_eq_ok.1 ho
      exact hn n .active hm ((Node.activate_eq_ok.1 hf).1 ▸ .active)
    show (w.makeActive t id).world = w
    unfold makeActive
    split
    · rfl
    · rename_i n' ho
      exact absurd ho (hask n')
  | exit =>
    have hask : ∀ n', w.ask id Node.beginExit ≠ .ok n' := by
      intro n' ho
      obtain ⟨n, hm, hf⟩ := ask_eq_ok.1 ho
      exact hn n .exit hm ((Node.beginExit_eq_ok.1 hf).1 ▸ .exit)
    show (w.change id Node.beginExit).world = w
    unfold change
    split
    · rfl
    · rename_i n' ho
      exact absurd ho (hask n')
  | close =>
    refine close_refused fun n hm => ?_
    cases ho : n.phase.isOpen with
    | false => rfl
    | true => exact absurd (.close ho) (hn n .closed hm)

end World

/-! ## Phases -/

/-- How far a node has come in its life. -/
def Phase.age : Phase → Nat
  | entry => 0
  | active => 1
  | exit => 2
  | closed => 3

namespace Moves

variable {id : NodeId} {a : Action} {p q p' q' : Phase}

theorem age_lt (h : Moves id a p q) : p.age < q.age := by
  cases h with
  | active => decide
  | exit => decide
  | @close p ho => cases p <;> first | decide | cases ho

/-- Where an operation has led, it cannot start again. -/
theorem age_lt_age (h : Moves id a p q) (h' : Moves id a p' q') : p'.age < q.age := by
  cases h with
  | active => cases h'; decide
  | exit => cases h'; decide
  | close =>
    cases h' with
    | @close p' ho => cases p' <;> first | decide | cases ho

end Moves

namespace Node.Steps

variable {w : World} {t : ThreadId} {a : Action} {id : NodeId} {n n' : Node}

/-- A phase changes by the node's own operations only, and along its life. -/
theorem phase (h : Node.Steps w t id n a n') : n'.phase = n.phase ∨ Moves id a n.phase n'.phase := by
  cases h with
  | kept => exact .inl rfl
  | written es => exact .inl (n.phase_writeAll es)
  | activated scope hp => exact .inr (hp ▸ .active)
  | exiting hp => exact .inr (hp ▸ .exit)
  | remembered => exact .inl (n.phase_remember t)
  | closed ho => exact .inr (.close ho)
  | absorbed => exact .inl rfl

end Node.Steps

namespace World

variable {w : World} {id : NodeId} {n : Node}

/-- No node ever goes back in its life. -/
theorem Sound.age_run (h : w.Sound) (hn : w.nodes.get? id = some n) (as : List (ThreadId × Action)) :
    ∃ n', (w.run as).nodes.get? id = some n' ∧ n.phase.age ≤ n'.phase.age := by
  induction as generalizing w n with
  | nil => exact ⟨n, hn, Nat.le_refl _⟩
  | cons a as ih =>
    obtain ⟨n₁, hn₁, hs⟩ := perform_steps h hn a.1 a.2
    obtain ⟨n', hn', hle⟩ := ih ((perform_effect w a.1 a.2).sound h) hn₁
    refine ⟨n', hn', Nat.le_trans ?_ hle⟩
    rcases hs.phase with he | hm
    · exact Nat.le_of_eq (congrArg Phase.age he.symm)
    · exact Nat.le_of_lt hm.age_lt

/-- An operation on the life of a node takes effect once: whatever happens after that,
it changes nothing any more. -/
theorem Sound.perform_once (h : w.Sound) {a : Action} {p q : Phase} (ha : Moves id a p q) {t : ThreadId}
    (he : w.perform t a ≠ w) (as : List (ThreadId × Action)) (u : ThreadId) :
    ((w.perform t a).run as).perform u a = (w.perform t a).run as := by
  obtain ⟨n, q', hn, hm⟩ : ∃ n q', w.nodes.get? id = some n ∧ Moves id a n.phase q' := by
    refine Classical.byContradiction fun hno => he ?_
    exact perform_refused ha t fun n q' hn hm => hno ⟨n, q', hn, hm⟩
  obtain ⟨n₁, hn₁, rfl⟩ := perform_moves hn hm t
  obtain ⟨n₂, hn₂, hle⟩ := ((perform_effect w t a).sound h).age_run hn₁ as
  refine perform_refused ha u fun n₃ q₃ hn₃ hm₃ => ?_
  rw [hn₂] at hn₃
  cases hn₃
  have := hm.age_lt_age hm₃
  omega

end World

/-! ## What a node holds in its phases -/

/-- What a node holds on to in its phases, its data apart. -/
structure Node.Tidy (n : Node) : Prop where
  entry : n.phase = .entry → n.token = none ∧ n.scope = none
  closed : n.phase = .closed → n.retire = n

namespace Node.Tidy

variable {n : Node}

theorem fresh (p : Policy) (t : ThreadId) (synchronous : Bool) (b : Option BridgeId) (parent : Option NodeId)
    (d : Data) : (Node.fresh p t synchronous b parent d).Tidy :=
  ⟨fun _ => ⟨rfl, rfl⟩, nofun⟩

theorem seed (h : n.Tidy) (es : List (String × Value)) : (n.seed es).Tidy := by
  unfold Node.seed
  split
  · rename_i hp
    exact ⟨fun _ => h.entry hp, fun hc => by simp [hp] at hc⟩
  · exact h

theorem remember (h : n.Tidy) (t : ThreadId) : (n.remember t).Tidy := by
  unfold Node.remember
  split
  · rename_i hj
    have ho : n.phase.isOpen = true := by
      simp only [joins, Bool.and_eq_true] at hj
      exact hj.2
    exact ⟨h.entry, fun hc => absurd hc (Phase.ne_closed_of_isOpen ho)⟩
  · exact h

theorem writeAll (h : n.Tidy) (hp : n.phase ≠ .closed) (es : List (String × Option Value)) : (n.writeAll es).Tidy :=
  (Node.writeAll_induction (P := fun m => m.Tidy ∧ m.phase ≠ .closed)
    (fun _ _ _ h => ⟨⟨h.1.entry, fun hc => absurd hc h.2⟩, h.2⟩) ⟨h, hp⟩ es).1

theorem steps {w : World} {t : ThreadId} {a : Action} {id : NodeId} {n' : Node} (h : n.Tidy)
    (hs : Node.Steps w t id n a n') : n'.Tidy := by
  cases hs with
  | kept => exact h
  | written es hp => exact h.writeAll hp es
  | activated scope hp => exact ⟨nofun, nofun⟩
  | exiting hp => exact ⟨nofun, nofun⟩
  | remembered => exact h.remember t
  | closed ho => exact ⟨nofun, fun _ => rfl⟩
  | absorbed p es ho => exact ⟨h.entry, fun hc => absurd hc (Phase.ne_closed_of_isOpen ho)⟩

end Node.Tidy

namespace Node.Steps

variable {w : World} {t : ThreadId} {a : Action} {id : NodeId} {n n' : Node}

/-- An open node keeps its token, or the action made it active and gave it one. -/
theorem token (h : Node.Steps w t id n a n') (ho : n'.phase.isOpen = true) :
    n.phase.isOpen = true ∧ n'.token = n.token ∨
      a = .makeActive id ∧ n.phase = .entry ∧ n'.token = some (w.attach t id).2 := by
  cases h with
  | kept => exact .inl ⟨ho, rfl⟩
  | written es =>
    have ht : (n.writeAll es).token = n.token :=
      Node.writeAll_induction (P := fun m => m.token = n.token) (fun _ _ _ h => h) rfl es
    exact .inl ⟨n.phase_writeAll es ▸ ho, ht⟩
  | activated scope hp => exact .inr ⟨rfl, hp, rfl⟩
  | exiting hp => exact .inl ⟨by simp [hp, Phase.isOpen], rfl⟩
  | remembered => exact .inl ⟨n.phase_remember t ▸ ho, n.token_remember t⟩
  | closed => cases ho
  | absorbed p es ho => exact .inl ⟨ho, rfl⟩

/-- A node keeps its parent until it is closed. -/
theorem parent (h : Node.Steps w t id n a n') {origin : Option NodeId}
    (hp : n.parent = if n.phase = .closed then none else origin) :
    n'.parent = if n'.phase = .closed then none else origin := by
  cases h with
  | kept => exact hp
  | written es hc =>
    have he : (n.writeAll es).parent = n.parent :=
      Node.writeAll_induction (P := fun m => m.parent = n.parent) (fun _ _ _ h => h) rfl es
    rw [he, n.phase_writeAll es, hp]
  | activated scope he => simpa [he, Node.activated] using hp
  | exiting he => simpa [he] using hp
  | remembered =>
    unfold Node.remember
    split <;> exact hp
  | closed => rfl
  | absorbed p es ho => exact hp

end Node.Steps

end Ambient
