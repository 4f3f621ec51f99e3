import Ambient.Proofs.Invariant

/-
What the operations on nodes do to tagging facilities. Becoming active opens the
scope of the node's tags, if it has any to publish (`World.bridge_makeActive`),
closing closes it (`World.bridge_close`), and nothing else touches a bridge. Scopes
that are opened and closed within each other leave a well-bracketed history
(`Facility.Passes`).
-/

namespace Ambient

/-! ## Facilities -/

/-- Well-bracketed events: every scope that is opened is closed, once, and the scopes
that are opened within it are closed before. -/
inductive Balanced : List FacilityEvent → Prop
  | nil : Balanced []
  | scope {inside after : List FacilityEvent} (tags : Tags) : Balanced inside → Balanced after →
    Balanced (.opened tags :: inside ++ .closed :: after)

theorem Balanced.append {es fs : List FacilityEvent} (h : Balanced es) (h' : Balanced fs) : Balanced (es ++ fs) := by
  induction h with
  | nil => exact h'
  | scope tags hi _ _ ih => simpa using Balanced.scope tags hi ih

namespace Facility

variable {f g k : Facility} {tags : Tags}

@[simp] theorem events_openScope (f : Facility) (tags : Tags) :
    (f.openScope tags).events = f.events ++ [.opened tags] := by
  simp [events, openScope]

@[simp] theorem events_closeScope (f : Facility) : f.closeScope.events = f.events ++ [.closed] := by
  simp [events, closeScope]

/-- From one state of a facility to a later one, scopes were only opened to be closed again. -/
structure Passes (f g : Facility) : Prop where
  scopes : g.scopes = f.scopes
  events : ∃ es, Balanced es ∧ g.events = f.events ++ es

theorem Passes.refl (f : Facility) : f.Passes f := ⟨rfl, [], .nil, (List.append_nil _).symm⟩

theorem Passes.trans (h : f.Passes g) (h' : g.Passes k) : f.Passes k := by
  obtain ⟨es, hes, he⟩ := h.events
  obtain ⟨fs, hfs, hf⟩ := h'.events
  exact ⟨h'.scopes.trans h.scopes, es ++ fs, hes.append hfs, by rw [hf, he, List.append_assoc]⟩

/-- A scope is opened, others come and go, and it is closed. -/
theorem Passes.scope (h : (f.openScope tags).Passes g) : f.Passes g.closeScope := by
  obtain ⟨es, hes, he⟩ := h.events
  refine ⟨congrArg List.tail h.scopes, .opened tags :: es ++ [.closed], hes.scope tags .nil, ?_⟩
  simp [he]

end Facility

/-! ## Scopes -/

/-- The tags of a scope, if it was opened through a bridge. -/
def tagsOn (b : BridgeId) (s : Option TagScope) : Option Tags :=
  s.bind fun s => if s.bridge = b then some s.tags else none

/-- The scope that a node opens when it has become active. -/
def Node.ownScope (n : Node) : Option TagScope := n.bridge.bind fun b => n.changedTags.map (TagScope.mk b)

namespace World

variable {w w' : World} {t : ThreadId} {id x : NodeId} {b : BridgeId} {n m : Node}

/-- Neither bridges nor engines have changed. -/
structure SameBridges (w w' : World) : Prop where
  bridges : w'.bridges = w.bridges
  engines : w'.engines = w.engines

theorem SameBridges.bridge (h : SameBridges w w') (b : BridgeId) : w'.bridge b = w.bridge b := by
  rw [World.bridge, World.bridge, h.bridges]

theorem sameBridges_change (w : World) (id : NodeId) (f : Node → Except WrongPhase Node) :
    SameBridges w (w.change id f).world := by
  rcases change_cases w id f with h | ⟨n, n', -, -, h⟩ <;> rw [h] <;> exact ⟨rfl, rfl⟩

theorem sameBridges_enter (w : World) (t : ThreadId) (parent : Option NodeId) (p : Policy) (b : Option BridgeId) :
    SameBridges w (w.enter t parent p b).1 := by
  have root : SameBridges w (w.enterRoot t p b).1 := by
    obtain ⟨found, he⟩ := enterRoot_eq w t p b
    rw [he, rootPolicy]
    split <;> exact ⟨rfl, rfl⟩
  unfold enter
  split
  · exact root
  split
  · exact root
  · exact ⟨rfl, rfl⟩

theorem sameBridges_enterUnder (w : World) (t : ThreadId) (e : Engine) (parent : Option NodeId) :
    SameBridges w (w.enterUnder t e parent).1 := by
  have entered := sameBridges_enter w t parent e.policy e.bridge
  unfold enterUnder
  dsimp only
  split
  · unfold seed
    split <;> exact ⟨entered.bridges, entered.engines⟩
  · exact entered

/-! ## Becoming active -/

theorem bridge_withBridge (w : World) (b c : BridgeId) (x : Bridge) :
    (w.withBridge c x).bridge b = if c = b then x else w.bridge b := by
  simp only [bridge, withBridge, Dict.get?_insert]
  split <;> rfl

theorem bridge_publish (w : World) (n : Node) (b : BridgeId) :
    (w.publish n).1.bridge b = (tagsOn b n.ownScope).elim (w.bridge b) (w.bridge b).openScope := by
  cases hb : n.bridge with
  | none => simp [publish, Node.ownScope, tagsOn, hb]
  | some c =>
    cases ht : n.changedTags with
    | none => simp [publish, Node.ownScope, tagsOn, hb, ht]
    | some tags =>
      by_cases hc : c = b
      · subst hc
        simp [publish, Node.ownScope, tagsOn, hb, ht, openScope, bridge_withBridge]
      · simp [publish, Node.ownScope, tagsOn, hb, ht, openScope, bridge_withBridge, hc]

theorem scope_publish (w : World) (n : Node) : (w.publish n).2.1 = n.ownScope := by
  unfold publish Node.ownScope
  cases n.bridge <;> cases n.changedTags <;> rfl

theorem get?_makeActive (hn : w.nodes.get? id = some n) (hp : n.phase = .entry) :
    (w.makeActive t id).world.nodes.get? id =
      some { n.activated with token := some (w.attach t id).2, scope := n.activated.ownScope } := by
  rw [makeActive_eq hn hp]
  dsimp only
  rw [scope_publish, get?_withNode_self]

/-- A node that becomes active opens its scope and touches no other bridge. -/
theorem bridge_makeActive (hn : w.nodes.get? id = some n) (hp : n.phase = .entry) (b : BridgeId) :
    (w.makeActive t id).world.bridge b =
      (tagsOn b n.activated.ownScope).elim (w.bridge b) (w.bridge b).openScope := by
  rw [makeActive_eq hn hp]
  exact bridge_publish (w.attach t id).1 n.activated b

theorem engines_makeActive (w : World) (t : ThreadId) (id : NodeId) : (w.makeActive t id).world.engines = w.engines := by
  have published : ∀ (v : World) (n : Node), (v.publish n).1.engines = v.engines := by
    intro v n
    unfold publish
    split <;> rfl
  unfold makeActive
  split
  · rfl
  · exact published ..

/-! ## Closing -/

theorem bridge_closeScope? (w : World) (s : Option TagScope) (b : BridgeId) :
    (w.closeScope? s).1.bridge b = (tagsOn b s).elim (w.bridge b) fun _ => (w.bridge b).closeScope := by
  cases s with
  | none => rfl
  | some s =>
    by_cases hs : s.bridge = b
    · subst hs
      simp [closeScope?, closeScope, tagsOn, bridge_withBridge]
    · simp [closeScope?, closeScope, tagsOn, bridge_withBridge, hs]

/-- Nothing but its scope changes the bridges when a node closes. -/
theorem sameBridges_close (hn : w.nodes.get? id = some n) (ho : n.phase.isOpen = true) :
    SameBridges ((w.withNode id n.retire).closeScope? n.scope).1 (w.close t id).world := by
  have detached : ∀ v : World, SameBridges v (v.detach? t n.token).world := by
    intro v
    cases n.token with
    | none => exact ⟨rfl, rfl⟩
    | some token =>
      simp only [detach?, detach]
      split <;> exact ⟨rfl, rfl⟩
  have closing := detached ((w.withNode id n.retire).closeScope? n.scope).1
  obtain ⟨nodes, h⟩ := flowUp_nodes (w.closing t id n) t id n
  rw [close_eq hn ho, closeOpen_world, h]
  exact ⟨closing.bridges, closing.engines⟩

/-- A node that closes closes the scope that it holds and touches no other bridge. -/
theorem bridge_close (hn : w.nodes.get? id = some n) (ho : n.phase.isOpen = true) (b : BridgeId) :
    (w.close t id).world.bridge b = (tagsOn b n.scope).elim (w.bridge b) fun _ => (w.bridge b).closeScope := by
  rw [(sameBridges_close hn ho).bridge]
  exact bridge_closeScope? (w.withNode id n.retire) n.scope b

theorem engines_close (w : World) (t : ThreadId) (id : NodeId) : (w.close t id).world.engines = w.engines := by
  obtain ⟨nodes, ambient, bridges, hw⟩ := close_frame w t id
  rw [hw]

/-! ## The scopes that nodes hold -/

/-- The bridge of a node and the scope that it holds are the same. -/
structure SameScope (n n' : Node) : Prop where
  bridge : n'.bridge = n.bridge
  scope : n'.scope = n.scope

/-- Only becoming active and closing change the scope that a node holds. -/
theorem Effect.sameScope {a : Action} (he : Effect w t a w') (h : w.Sound) (hm : w.nodes.get? x = some m)
    (hx : a ≠ .makeActive x ∧ a ≠ .close x) : ∃ m', w'.nodes.get? x = some m' ∧ SameScope m m' := by
  have puts : ∀ {v v' : World} {id n n'}, v.nodes.get? x = some m → v.nodes.get? id = some n → Puts v id n' v' →
      SameScope n n' → ∃ m', v'.nodes.get? x = some m' ∧ SameScope m m' := by
    intro v v' id n n' hm hn hw he
    rw [hw.nodes]
    split
    · rename_i hid
      subst hid
      cases hm.symm.trans hn
      exact ⟨n', rfl, he⟩
    · exact ⟨m, hm, rfl, rfl⟩
  have others : ∀ {v v' : World} {id n'}, v.nodes.get? x = some m → id ≠ x → Puts v id n' v' →
      ∃ m', v'.nodes.get? x = some m' ∧ SameScope m m' := by
    intro v v' id n' hm hne hw
    exact ⟨m, by rw [hw.nodes, if_neg hne, hm], rfl, rfl⟩
  have hnext := h.next_ne hm
  cases he with
  | none hs => exact ⟨m, by rw [hs.nodes, hm], rfl, rfl⟩
  | written es ha hn hp hw =>
    exact puts hm hn hw (Node.writeAll_induction (fun _ _ _ h => ⟨h.bridge, h.scope⟩) ⟨rfl, rfl⟩ es)
  | activated _ _ _ _ hw => exact others hm (fun he => hx.1 (he ▸ rfl)) hw
  | exiting hn _ hw => exact puts hm hn hw ⟨rfl, rfl⟩
  | root p b es hw =>
    rw [hw.nodes, if_neg hnext]
    exact ⟨m, hm, rfl, rfl⟩
  | child hn hw =>
    rename_i pid n
    have hl : (w.withNode pid (n.remember t)).lastNode = w.lastNode := rfl
    have remembered : SameScope n (n.remember t) := by
      unfold Node.remember
      split <;> exact ⟨rfl, rfl⟩
    obtain ⟨m', hm', hs⟩ := puts hm hn (withNode_puts w pid (n.remember t)) remembered
    rw [hw.nodes, hl, if_neg hnext]
    exact ⟨m', hm', hs⟩
  | closed _ _ hw => exact others hm (fun he => hx.2 (he ▸ rfl)) hw
  | flowed hn ho hne hp hj ha hw =>
    rename_i id n pid p
    have hid : id ≠ x := fun he => hx.2 (he ▸ rfl)
    have hm₁ : (w.withNode id n.retire).nodes.get? x = some m := by rw [get?_withNode, if_neg hid, hm]
    have hp₁ : (w.withNode id n.retire).nodes.get? pid = some p := by rw [get?_withNode, if_neg hne.symm, hp]
    exact puts hm₁ hp₁ hw ⟨rfl, rfl⟩

end World

end Ambient
