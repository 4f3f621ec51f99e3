import Ambient.Proofs.Lifecycle.Representation
import Ambient.Proofs.Tags.Scopes

/-
Closing is complete (`close_complete`). An open node holds an attachment, perhaps a
scope, and a reference to its parent, the first two since the step that made it active
(`World.MadeActive.held`). It gives all of them up when it is closed, by whatever
thread and whatever has become of the attachment in the meantime. What its writes do to
the parent is told by `Node.afterChild`, which sees nothing of any stack.
-/

namespace Ambient

/-- A node after a child of it was closed on a thread, if it is alive then. Whether the
child is synchronous is settled when it is entered. -/
def Node.afterChild (p : Node) (t : ThreadId) (synchronous : Bool) (writes : Writes) : Node :=
  if synchronous && p.thread == t && p.phase.isOpen then
    p.absorb p.policy (writes.entries.filter fun e => p.policy.flowsUp e.1)
  else p

def Event.isTagScope : Event → Bool
  | .tagScope .. => true
  | _ => false

namespace World

variable {w : World} {t : ThreadId} {id : NodeId} {n : Node}

/-! ## What a node holds while it is open -/

/-- The step of a run that made a node active: what came before it, its thread, and the
node as it was then. -/
structure MadeActive (lastObject : Nat) (as : List (ThreadId × Action)) (id : NodeId)
    (before : List (ThreadId × Action)) (u : ThreadId) (m : Node) : Prop where
  step : ∃ after, as = before ++ (u, .makeActive id) :: after
  node : ((World.start lastObject).run before).nodes.get? id = some m
  entry : m.phase = .entry

/-- While it is open a node holds what it got when it became active. -/
theorem MadeActive.held {lastObject : Nat} {as before : List (ThreadId × Action)} {u : ThreadId} {m : Node}
    (h : MadeActive lastObject as id before u m) (hn : ((World.start lastObject).run as).nodes.get? id = some n)
    (ho : n.phase.isOpen = true) :
    n.token = some (((World.start lastObject).run before).attach u id).2 ∧ n.scope = m.activated.ownScope ∧
      n.synchronous = m.synchronous := by
  obtain ⟨after, rfl⟩ := h.step
  have hmade := get?_makeActive (t := u) h.node h.entry
  have hsound := (perform_effect ((World.start lastObject).run before) u (.makeActive id)).sound
    (sound_run lastObject before)
  rw [run_append] at hn
  obtain ⟨n', hn', he⟩ := hsound.evolves after hmade
  cases hn.symm.trans hn'
  obtain ⟨htoken, hscope⟩ := he.held rfl ho
  exact ⟨htoken, hscope, he.synchronous⟩

/-! ## The scope -/

theorem tagScopes_flowUp (w : World) (t : ThreadId) (id : NodeId) (child : Node) :
    (w.flowUp t id child).2.filter Event.isTagScope = [] := by
  unfold flowUp
  split
  · rfl
  split
  · rfl
  split
  · split <;> rfl
  · split <;> rfl

theorem tagScopes_report (b : Bridge) (opens : Bool) (tags : Tags) :
    (b.report opens tags).filter Event.isTagScope = b.report opens tags := by
  cases b <;> rfl

/-- The closing of its scope is reported once, where it is reported at all. -/
theorem tagScopes_close (hn : w.nodes.get? id = some n) (ho : n.phase.isOpen = true) :
    (w.close t id).events.filter Event.isTagScope =
      n.scope.elim [] fun s => (w.bridge s.bridge).report false s.tags := by
  have outOfOrder : ∀ r, (closeReport id r).filter Event.isTagScope = [] := by
    intro r
    cases r <;> rfl
  rw [close_eq hn ho, closeOpen]
  simp only [List.filter_append, outOfOrder, tagScopes_flowUp, List.append_nil]
  cases n.scope with
  | none => rfl
  | some s => exact tagScopes_report ..

/-- Closing an open node is not without effect. -/
theorem close_ne (hn : w.nodes.get? id = some n) (ho : n.phase.isOpen = true) : (w.close t id).world ≠ w := by
  intro hsame
  have hclosed := get?_close (t := t) hn ho
  rw [hsame, hn] at hclosed
  rw [Option.some.inj hclosed] at ho
  cases ho

/-! ## The parent -/

/-- A node is held by something else than an attachment that a close takes off. -/
def HeldBeyond (w : World) (t : ThreadId) (id x : NodeId) : Prop :=
  (w.holders.entries.any fun e => e.2 == x) = true ∨
    (∃ v, ∃ a ∈ (w.stack v).entries, a ∈ ((w.close t id).world.stack v).entries ∧ a.node = x) ∨
      (w.tables.entries.any fun e => e.2.holds x) = true

theorem HeldBeyond.isAlive {x : NodeId} (h : w.HeldBeyond t id x) : (w.close t id).world.isAlive x = true := by
  rcases h with h | ⟨v, a, -, ha, rfl⟩ | h
  · exact isAlive_of_held h
  · have hholds : ((w.close t id).world.stack v).holds a.node = true := by
      simp only [Stack.holds, List.any_eq_true, beq_iff_eq]
      exact ⟨a, ha, rfl⟩
    exact isAlive_iff.2 (.inr (.inl ⟨v, hholds⟩))
  · obtain ⟨nodes, ambient, bridges, hw⟩ := close_frame w t id
    exact isAlive_iff.2 (.inr (.inr (by rw [hw]; exact h)))

theorem afterChild_of_joined {p : Node} {pid : NodeId} (hj : Joined n t pid p) (hpolicy : p.policy = n.policy) :
    p.afterChild t n.synchronous n.writes = p.absorb n.policy n.upward := by
  unfold Node.afterChild
  rw [if_pos (by simp [hj.synchronous, hj.thread, hj.isOpen]), hpolicy]
  rfl

theorem afterChild_of_not_joined {p : Node} {pid : NodeId} (hparent : n.parent = some pid)
    (hj : ¬ Joined n t pid p) : p.afterChild t n.synchronous n.writes = p := by
  unfold Node.afterChild
  refine if_neg ?_
  simp only [Bool.and_eq_true, beq_iff_eq]
  intro ⟨⟨hsynchronous, hthread⟩, hopen⟩
  exact hj ⟨hparent, hsynchronous, hthread, hopen⟩

/-- What becomes of a parent that is alive after the close. -/
theorem get?_close_parent {p : Node} {pid : NodeId} (hs : w.Sound) (hn : w.nodes.get? id = some n)
    (ho : n.phase.isOpen = true) (hparent : n.parent = some pid) (hp : w.nodes.get? pid = some p)
    (ha : (w.close t id).world.isAlive pid = true) :
    (w.close t id).world.nodes.get? pid = some (p.afterChild t n.synchronous n.writes) := by
  obtain ⟨hlt, p', hp', hpolicy⟩ := hs.family hn hparent
  cases hp.symm.trans hp'
  have hne : pid ≠ id := Nat.ne_of_lt hlt
  by_cases hj : Joined n t pid p
  · rw [afterChild_of_joined hj hpolicy, close_flows hn ho hp hne hj ha, if_pos rfl]
  · rw [afterChild_of_not_joined hparent hj]
    rcases close_cases hn ho with h | ⟨pid', p', -, hp', hj', -⟩
    · rw [h, if_neg hne.symm, hp]
    · cases hparent.symm.trans hj'.parent
      cases hp.symm.trans hp'
      exact absurd hj' hj

/-! ## Every path -/

/-- What a close does to an open node, to the scope and the attachment that it got when
it became active, and to its parent. Before that step, on the thread `u`, the process
was `made` and the node `m`; now they are `w` and `n`. -/
structure Closing (made : World) (u : ThreadId) (m : Node) (w : World) (t : ThreadId) (id : NodeId) (n : Node) :
    Prop where
  node : ∃ n', (w.close t id).world.nodes.get? id = some n' ∧ n'.phase = .closed ∧ n'.parent = none ∧
    n'.token = none ∧ n'.scope = none
  opened : ∀ b, (made.makeActive u id).world.bridge b =
    (tagsOn b m.activated.ownScope).elim (made.bridge b) (made.bridge b).openScope
  scope : ∀ b, (w.close t id).world.bridge b =
    (tagsOn b m.activated.ownScope).elim (w.bridge b) fun _ => (w.bridge b).closeScope
  report : (w.close t id).events.filter Event.isTagScope =
    m.activated.ownScope.elim [] fun s => (w.bridge s.bridge).report false s.tags
  /-- Closing it again has no effect, whatever happens in between. -/
  once : ∀ later v, (((w.close t id).world.run later).close v id).world = (w.close t id).world.run later
  /-- On its thread, while its attachment is there: what lay beneath it is left. -/
  attached : t = u → (w.stack u).Attached ((made.stack u).last + 1) →
    ((w.close t id).world.stack u).entries = (made.stack u).entries ∧
      (∀ v, v ≠ u → (w.close t id).world.stack v = w.stack v) ∧
      (w.close t id).result = if (w.stack u).topSeq? = some ((made.stack u).last + 1) then .ok ()
        else .error (.detachMismatch id (w.current u))
  /-- On its thread, when its attachment was undone before. -/
  discarded : t = u → ¬ (w.stack u).Attached ((made.stack u).last + 1) →
    (∀ v, (w.close t id).world.stack v = w.stack v) ∧ (w.close t id).result = .ok ()
  elsewhere : t ≠ u → (∀ v, (w.close t id).world.stack v = w.stack v) ∧ (w.close t id).result = .error .wrongThread
  parent : ∀ pid p, n.parent = some pid → w.nodes.get? pid = some p → w.HeldBeyond t id pid →
    (w.close t id).world.nodes.get? pid = some (p.afterChild t m.synchronous n.writes)

/-- **Closing is complete on every path.** An open node of a process that a run reaches
was made active by a step of the run. Whichever thread closes it, it ends closed and
without its parent, and the scope that it opened is closed, once. Its attachment is
undone on its own thread only; the answer tells whether it was on top, or gone, or on
another thread. And whichever of these happens, the parent, if it is held, takes over
the same. -/
theorem close_complete (lastObject : Nat) (as : List (ThreadId × Action))
    (hn : ((World.start lastObject).run as).nodes.get? id = some n) (ho : n.phase.isOpen = true) :
    (∃ before u m, MadeActive lastObject as id before u m) ∧
      ∀ before u m, MadeActive lastObject as id before u m → ∀ t,
        Closing ((World.start lastObject).run before) u m ((World.start lastObject).run as) t id n := by
  constructor
  · obtain ⟨before, u, after, m, hstep, hm, hp, -⟩ := token_of_open lastObject as hn ho
    exact ⟨before, u, m, ⟨after, hstep⟩, hm, hp⟩
  intro before u m hmade t
  have hs : ((World.start lastObject).run as).Sound := sound_run lastObject as
  obtain ⟨htoken, hscope, hsynchronous⟩ := hmade.held hn ho
  obtain ⟨⟨after, hstep⟩, hm, hentry⟩ := hmade
  have hissued := issued_makeActive (t := u) hm hentry
  have hrun : (World.start lastObject).run as =
      ((World.start lastObject).run before).run ((u, .makeActive id) :: after) := by rw [hstep, run_append]
  have hundoes := Undoes.close hn ho htoken
  refine { node := ⟨n.retire, get?_close hn ho, rfl, rfl, rfl, rfl⟩, opened := bridge_makeActive hm hentry,
           scope := ?scope, report := ?report, once := ?once, attached := ?attached, discarded := ?discarded,
           elsewhere := hundoes.other_thread, parent := ?parent }
  case scope =>
    intro b
    rw [bridge_close hn ho, hscope]
  case report => rw [tagScopes_close hn ho, hscope]
  case once => exact hs.perform_once (.close ho) (close_ne hn ho)
  case attached =>
    intro ht hattached
    subst ht
    obtain ⟨hrest, hresult⟩ := hundoes.restores hissued (le_last_run lastObject before t) after hrun hattached
    exact ⟨hrest, (turned_close _ t id).others, hresult⟩
  case discarded =>
    intro ht hgone
    subst ht
    exact hundoes.gone hgone
  case parent =>
    intro pid p hparent hp hheld
    rw [← hsynchronous]
    exact get?_close_parent hs hn ho hparent hp hheld.isAlive

/-! ## A parent attached again above its child -/

/-- One key flows both ways and is a tag. -/
def taggedBothWays : Policy := ⟨1, Dict.ofList [("k", ⟨some .processLocal, some .processLocal, some true⟩)]⟩

/-- A child opens a scope when it becomes active, and its parent comes to lie above it. -/
def buriedRun : List (ThreadId × Action) :=
  [.addBridge .fresh, .enter "parent" none taggedBothWays (some 1), .makeActive 1,
    .enter "child" (some 1) taggedBothWays none, .set 2 "k" (some (.text "a")), .makeActive 2,
    .attach 1].map fun a => (0, a)

/-- The child is closed out of order, with everything that belongs to it; on another
thread its attachment stays. -/
theorem close_complete_buried :
    let w := (World.start 0).run buriedRun
    (w.close 0 2).result = .error (.detachMismatch 2 (some 1)) ∧ ((w.close 0 2).world.stack 0).entries = [⟨1, 1⟩] ∧
      (∃ f, (w.close 0 2).world.bridge 1 = .recording f ∧ f.scopes = [] ∧ f.openedCount = 1) ∧
      (w.close 0 2).world.get 1 "k" = .ok (some (.text "a")) ∧
      (w.close 5 2).result = .error .wrongThread ∧ (w.close 5 2).world.stack 0 = w.stack 0 := by
  obtain ⟨n, hn⟩ : ∃ n, ((World.start 0).run buriedRun).nodes.get? 2 = some n := ⟨_, rfl⟩
  have ho : n.phase.isOpen = true := by cases hn; rfl
  obtain ⟨m, hm⟩ : ∃ m, ((World.start 0).run (buriedRun.take 5)).nodes.get? 2 = some m := ⟨_, rfl⟩
  have hmade : MadeActive 0 buriedRun 2 (buriedRun.take 5) 0 m := ⟨⟨[(0, .attach 1)], rfl⟩, hm, by cases hm; rfl⟩
  have closing := (close_complete 0 buriedRun hn ho).2 _ _ _ hmade
  obtain ⟨hrest, -, hresult⟩ := (closing 0).attached rfl ⟨⟨2, 2⟩, by decide, rfl⟩
  obtain ⟨hstacks, hwrong⟩ := (closing 5).elsewhere (by decide)
  obtain ⟨p, hp⟩ : ∃ p, ((World.start 0).run buriedRun).nodes.get? 1 = some p := ⟨_, rfl⟩
  have hparent := (closing 0).parent 1 p (by cases hn; rfl) hp (.inl rfl)
  have hscope := (closing 0).scope 1
  obtain ⟨f, hf, hopen⟩ : ∃ f, ((World.start 0).run buriedRun).bridge 1 = .recording f ∧
      f.closeScope.scopes = [] ∧ f.closeScope.openedCount = 1 := ⟨_, rfl, rfl, rfl⟩
  obtain ⟨tags, htags⟩ : ∃ tags, tagsOn 1 m.activated.ownScope = some tags := by cases hm; exact ⟨_, rfl⟩
  refine ⟨hresult, hrest, ?_, ?_, hwrong, hstacks 0⟩
  · rw [hscope, htags, hf]
    exact ⟨f.closeScope, rfl, hopen⟩
  · rw [get_eq hparent (by cases hp; cases hn; cases hm; decide)]
    cases hp
    cases hn
    cases hm
    rfl

end World

end Ambient
