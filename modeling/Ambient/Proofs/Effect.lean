import Ambient.Proofs.Operations

/-
What an action does to the nodes of a process, said once for all actions
(`World.perform_effect`): nothing, a change of one node, a new node, or a close
whose writes may flow into the parent. Nodes are compared by what a look-up
finds. However a child is entered, it starts with what its parent hands down to
the thread (`World.EntersChild.get`).
-/

namespace Ambient

/-- The node whose data an action writes. -/
def Action.written : Action → Option NodeId
  | .set id _ _ => some id
  | .readDown id _ _ => some id
  | .readUp id _ _ => some id
  | _ => none

namespace World

/-- One node was replaced. -/
structure Puts (w : World) (id : NodeId) (n : Node) (w' : World) : Prop where
  nodes : ∀ x, w'.nodes.get? x = if id = x then some n else w.nodes.get? x
  lastNode : w'.lastNode = w.lastNode

/-- A node was added under the next number. -/
structure Adds (w : World) (n : Node) (w' : World) : Prop where
  nodes : ∀ x, w'.nodes.get? x = if w.lastNode + 1 = x then some n else w.nodes.get? x
  lastNode : w'.lastNode = w.lastNode + 1

/-- What an action on a thread can do to the nodes. -/
inductive Effect (w : World) (t : ThreadId) : Action → World → Prop
  | none {a w'} : SameNodes w w' → Effect w t a w'
  | written {a w' id n} (es : List (String × Option Value)) : a.written = some id →
      w.nodes.get? id = some n → n.phase ≠ .closed → Puts w id (n.writeAll es) w' → Effect w t a w'
  | activated {w' id n} (token : Option Token) (scope : Option TagScope) : w.nodes.get? id = some n →
      n.phase = .entry → Puts w id { n.activated with token, scope } w' → Effect w t (.makeActive id) w'
  | exiting {w' id n} : w.nodes.get? id = some n → n.phase = .active →
      Puts w id { n with phase := .exit } w' → Effect w t (.beginExit id) w'
  | root {a w'} (p : Policy) (b : Option BridgeId) (es : List (String × Value)) :
      Adds w ((Node.fresh p t false b .none Dict.empty).seed es) w' → Effect w t a w'
  /-- The parent remembers the snapshot that a synchronous child got. -/
  | child {a w' pid n} : w.nodes.get? pid = some n →
      Adds (w.withNode pid (n.remember t)) (n.child pid t) w' → Effect w t a w'
  | closed {w' id n} : w.nodes.get? id = some n → n.phase.isOpen = true →
      Puts w id n.retire w' → Effect w t (.close id) w'
  | flowed {w' id n pid p} : w.nodes.get? id = some n → n.phase.isOpen = true → pid ≠ id →
      w.nodes.get? pid = some p → Joined n t pid p → (w.close t id).world.isAlive pid = true →
      Puts (w.withNode id n.retire) pid (p.absorb n.policy n.upward) w' → Effect w t (.close id) w'

variable {w w' : World} {t : ThreadId} {a : Action} {id : NodeId} {n n' : Node}

theorem SameNodes.puts (h : SameNodes (w.withNode id n) w') : Puts w id n w' :=
  ⟨fun x => by rw [h.nodes, get?_withNode], h.lastNode⟩

theorem withNode_puts (w : World) (id : NodeId) (n : Node) : Puts w id n (w.withNode id n) :=
  (SameNodes.refl _).puts

/-! ## Entering -/

theorem seed_seed (n : Node) (es fs : List (String × Value)) : (n.seed es).seed fs = n.seed (es ++ fs) := by
  unfold Node.seed
  split
  · rename_i hp
    simp only [hp, List.map_append, Dict.insertAll, List.foldl_append]
  · rfl

theorem sameNodes_rootPolicy (w : World) (p : Policy) (found : Tags) : SameNodes w (w.rootPolicy p found).1 := by
  unfold rootPolicy
  dsimp only
  split <;> exact ⟨rfl, rfl⟩

theorem enterRoot_eq (w : World) (t : ThreadId) (p : Policy) (b : Option BridgeId) :
    ∃ found, w.enterRoot t p b = (w.rootPolicy p found).1.addNode
      ((Node.fresh (w.rootPolicy p found).2 t false b none Dict.empty).seed
        (found.map fun e => (e.1, .text e.2))) := ⟨_, rfl⟩

theorem addNode_adds (w : World) (n : Node) : Adds w n (w.addNode n).1 := ⟨fun _ => get?_withNode .., rfl⟩

theorem SameNodes.adds {v : World} (h : SameNodes w v) (ha : Adds v n w') : Adds w n w' :=
  ⟨fun x => by rw [ha.nodes, h.nodes, h.lastNode], by rw [ha.lastNode, h.lastNode]⟩

theorem enterRoot_adds (w : World) (t : ThreadId) (p : Policy) (b : Option BridgeId) :
    (w.enterRoot t p b).2 = w.lastNode + 1 ∧
      ∃ p' es, Adds w ((Node.fresh p' t false b none Dict.empty).seed es) (w.enterRoot t p b).1 := by
  obtain ⟨found, he⟩ := enterRoot_eq w t p b
  have hs := sameNodes_rootPolicy w p found
  rw [he]
  exact ⟨congrArg (· + 1) hs.lastNode, _, _, hs.adds (addNode_adds ..)⟩

theorem enterChild_adds (w : World) (t : ThreadId) (pid : NodeId) (n : Node) :
    Adds (w.withNode pid (n.remember t)) (n.child pid t) (w.enterChild t pid n).1 :=
  ⟨fun _ => get?_withNode .., rfl⟩

/-- Entering adds a child of the parent, or a root. -/
theorem enter_cases (w : World) (t : ThreadId) (parent : Option NodeId) (p : Policy) (b : Option BridgeId) :
    (w.enter t parent p b).2 = w.lastNode + 1 ∧
      ((∃ pid n, parent = some pid ∧ w.nodes.get? pid = some n ∧
          w.enter t parent p b = w.enterChild t pid n) ∨
        ∃ p' es, Adds w ((Node.fresh p' t false b none Dict.empty).seed es) (w.enter t parent p b).1) := by
  unfold enter
  split
  · exact (enterRoot_adds w t p b).imp_right .inr
  split
  · exact (enterRoot_adds w t p b).imp_right .inr
  · rename_i pid _ n hn
    exact ⟨rfl, .inl ⟨pid, n, rfl, hn, rfl⟩⟩

theorem enter_effect (w : World) (t : ThreadId) (parent : Option NodeId) (p : Policy) (b : Option BridgeId)
    (a : Action) : Effect w t a (w.enter t parent p b).1 := by
  rcases (enter_cases w t parent p b).2 with ⟨pid, n, -, hn, he⟩ | ⟨p', es, hadds⟩
  · exact he ▸ .child hn (enterChild_adds w t pid n)
  · exact .root p' b es hadds

theorem seed_adds {v : World} {es : List (String × Value)} (h : Adds w n v) :
    Adds w (n.seed es) (v.seed (w.lastNode + 1) es) := by
  have hn : v.nodes.get? (w.lastNode + 1) = some n := by rw [h.nodes, if_pos rfl]
  simp only [World.seed, hn]
  refine ⟨fun x => ?_, h.lastNode⟩
  rw [get?_withNode, h.nodes]
  split <;> rfl

theorem enterUnder_none (w : World) (t : ThreadId) (e : Engine) :
    (w.enterUnder t e none).1 =
      (w.enterRoot t e.policy e.bridge).1.seed (w.enterRoot t e.policy e.bridge).2 e.seedData := rfl

theorem enterUnder_effect (w : World) (t : ThreadId) (e : Engine) (parent : Option NodeId) (a : Action) :
    Effect w t a (w.enterUnder t e parent).1 := by
  cases parent with
  | some pid => exact enter_effect w t (some pid) e.policy e.bridge a
  | none =>
    -- A root gets the data of the engine on top of the tags that were found.
    obtain ⟨hid, p', es, hadds⟩ := enterRoot_adds w t e.policy e.bridge
    rw [enterUnder_none, hid]
    exact .root p' e.bridge (es ++ e.seedData) (seed_seed _ es e.seedData ▸ seed_adds hadds)

/-- The ways in which a thread enters a child of a node: directly, through an engine,
or through an engine because the node is ambient. -/
inductive EntersChild (w : World) (t : ThreadId) (pid : NodeId) : World × NodeId → Prop
  | direct (p : Policy) (b : Option BridgeId) : EntersChild w t pid (w.enter t (some pid) p b)
  | through (e : Engine) : EntersChild w t pid (w.enterUnder t e (some pid))
  | ambient (e : Engine) : w.current t = some pid → EntersChild w t pid (w.enterUnder t e (w.current t))

/-- However a child is entered, its policy and bridge are its parent's. -/
theorem EntersChild.eq {pid : NodeId} {r : World × NodeId} (h : EntersChild w t pid r)
    (hn : w.nodes.get? pid = some n) : r = w.enterChild t pid n := by
  have enter : ∀ p b, w.enter t (some pid) p b = w.enterChild t pid n := by
    intro p b
    simp only [World.enter, hn]
  cases h with
  | direct p b => exact enter p b
  | through e => exact enter e.policy e.bridge
  | ambient e hc => rw [hc]; exact enter e.policy e.bridge

theorem EntersChild.child {pid c : NodeId} (h : EntersChild w t pid (w', c)) (hn : w.nodes.get? pid = some n) :
    w'.nodes.get? c = some (n.child pid t) := by
  obtain ⟨rfl, rfl⟩ := Prod.mk.inj (h.eq hn)
  exact ((enterChild_adds w t pid n).nodes _).trans (if_pos rfl)

theorem EntersChild.get {pid c : NodeId} (h : EntersChild w t pid (w', c)) (hn : w.nodes.get? pid = some n)
    (k : String) : w'.get c k = .ok ((n.handDown t).get? k) :=
  get_eq (h.child hn) (by simp [Node.child, Node.fresh]) k

/-! ## Every action -/

theorem change_effect {f : Node → Except WrongPhase Node} (id : NodeId)
    (hf : ∀ n n', w.nodes.get? id = some n → f n = .ok n' → Effect w t a (w.withNode id n')) :
    Effect w t a (w.change id f).world := by
  rcases change_cases w id f with h | ⟨n, n', hn, ho, h⟩ <;> rw [h]
  · exact .none (.refl w)
  · exact hf n n' hn ho

theorem setAll_effect (w : World) (t : ThreadId) (id : NodeId) (es : List (String × Value)) (a : Action)
    (ha : a.written = some id) : Effect w t a (w.setAll id es).world := by
  unfold World.setAll
  split
  · exact .none (.refl w)
  · rename_i hes
    refine change_effect id fun n n' hn ho => ?_
    obtain ⟨hp, rfl⟩ := Node.setAll_eq_ok.1 ho
    exact .written _ ha hn (hp (by simpa using hes)) (withNode_puts ..)

theorem Effect.congr {w₁ w₂ : World} (h : Effect w t a w₁) (hs : SameNodes w₁ w₂) : Effect w t a w₂ := by
  have puts : ∀ {v : World} {id n}, Puts v id n w₁ → Puts v id n w₂ := by
    intro v id n h
    exact ⟨fun x => by rw [hs.nodes, h.nodes], hs.lastNode.trans h.lastNode⟩
  have adds : ∀ {v : World} {n}, Adds v n w₁ → Adds v n w₂ := by
    intro v n h
    exact ⟨fun x => by rw [hs.nodes, h.nodes], hs.lastNode.trans h.lastNode⟩
  cases h with
  | none h => exact .none (h.trans hs)
  | written es h₁ h₂ h₃ h => exact .written es h₁ h₂ h₃ (puts h)
  | activated k s h₁ h₂ h => exact .activated k s h₁ h₂ (puts h)
  | exiting h₁ h₂ h => exact .exiting h₁ h₂ (puts h)
  | root p b es h => exact .root p b es (adds h)
  | child h₁ h => exact .child h₁ (adds h)
  | closed h₁ h₂ h => exact .closed h₁ h₂ (puts h)
  | flowed h₁ h₂ h₃ h₄ h₅ h₆ h => exact .flowed h₁ h₂ h₃ h₄ h₅ h₆ (puts h)

theorem close_effect (w : World) (t : ThreadId) (id : NodeId) : Effect w t (.close id) (w.close t id).world := by
  by_cases hn : ∃ n, w.nodes.get? id = some n ∧ n.phase.isOpen = true
  · obtain ⟨n, hn, ho⟩ := hn
    rcases close_cases hn ho with h | ⟨pid, p, hne, hp, hj, ha⟩
    · exact .closed hn ho ⟨h, lastNode_close w t id⟩
    · refine .flowed hn ho hne hp hj ha ⟨fun x => ?_, lastNode_close w t id⟩
      rw [close_flows hn ho hp hne hj ha, get?_withNode]
  · have hclosed : ∀ n, w.nodes.get? id = some n → n.phase.isOpen = false := by
      intro n h
      cases ho : n.phase.isOpen with
      | false => rfl
      | true => exact absurd ⟨n, h, ho⟩ hn
    have hr : (w.close t id).world = w := close_refused hclosed
    rw [hr]
    exact .none (.refl w)

theorem makeActive_puts (t : ThreadId) (hn : w.nodes.get? id = some n) (hp : n.phase = .entry) :
    ∃ scope, Puts w id { n.activated with token := some ⟨id, (w.stack t).last + 1, t⟩, scope }
      (w.makeActive t id).world := by
  have attached : SameNodes w (w.attach t id).1 := ⟨rfl, rfl⟩
  have hs := attached.trans (sameNodes_publish (w.attach t id).1 n.activated)
  rw [makeActive_eq hn hp]
  refine ⟨((w.attach t id).1.publish n.activated).2.1, fun x => ?_, hs.lastNode⟩
  rw [get?_withNode, hs.nodes]
  rfl

theorem makeActive_effect (w : World) (t : ThreadId) (id : NodeId) :
    Effect w t (.makeActive id) (w.makeActive t id).world := by
  cases ha : w.ask id Node.activate with
  | error e =>
    simp only [makeActive, ha]
    exact .none (.refl w)
  | ok n' =>
    obtain ⟨n, hn, hf⟩ := ask_eq_ok.1 ha
    have hp := (Node.activate_eq_ok.1 hf).1
    obtain ⟨scope, hw⟩ := makeActive_puts t hn hp
    exact .activated _ scope hn hp hw

theorem readDown_effect (w : World) (t : ThreadId) (id : NodeId) (c : Codec) (h : Headers) :
    Effect w t (.readDown id c h) (w.readDown id c h).world := by
  have hs := setAll_effect w t id (w.requestEntries (c.decode h)) (.readDown id c h) rfl
  unfold readDown
  dsimp only
  split
  · exact .none (.refl w)
  · rename_i w' _ he
    rw [he] at hs
    refine hs.congr ?_
    unfold countObject
    split <;> exact ⟨rfl, rfl⟩

/-- **The effect of an action on the nodes**, whatever the action. -/
theorem perform_effect (w : World) (t : ThreadId) (a : Action) : Effect w t a (w.perform t a) := by
  cases a with
  | enter name parent p b => exact (enter_effect w t parent p b _).congr ⟨rfl, rfl⟩
  | enterUnder name engine parent =>
    simp only [perform]
    split
    · exact .none (.refl w)
    · exact (enterUnder_effect w t _ parent _).congr ⟨rfl, rfl⟩
  | makeActive id => exact makeActive_effect w t id
  | beginExit id =>
    refine change_effect id fun n n' hn ho => ?_
    obtain ⟨hp, rfl⟩ := Node.beginExit_eq_ok.1 ho
    exact .exiting hn hp (withNode_puts ..)
  | close id => exact close_effect w t id
  | set id key v =>
    refine change_effect id fun n n' hn ho => ?_
    obtain ⟨hp, rfl⟩ := Node.set_eq_ok.1 ho
    exact .written [(key, v)] rfl hn hp (withNode_puts ..)
  | readDown id c h => exact readDown_effect w t id c h
  | readUp id c h => exact setAll_effect w t id _ _ rfl
  | applyConfig id c =>
    simp only [perform]
    split <;> exact .none ⟨rfl, rfl⟩
  | dropEngine id => exact .none (sameNodes_dropEngine w id)
  | detach token => exact .none (sameNodes_detach w t token)
  | dropScope token => exact .none (sameNodes_detach w t token)
  | unwindScope id =>
    have attached : SameNodes w (w.attach t id).1 := ⟨rfl, rfl⟩
    exact .none (attached.trans (sameNodes_detach (w.attach t id).1 t _))
  | resume table h => exact .none (sameNodes_resume w t table h)
  | race table h n => exact .none (sameNodes_race w table h n)
  | storeForPassing table id singleUse n => exact .none (sameNodes_storeForPassing w table id singleUse n)
  | _ => exact .none ⟨rfl, rfl⟩

end World

end Ambient
