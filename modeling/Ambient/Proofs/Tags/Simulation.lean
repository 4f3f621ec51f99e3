import Ambient.Proofs.Nested.Refinement
import Ambient.Proofs.Stack.Turns
import Ambient.Proofs.Tags.Program
import Ambient.Proofs.Tags.Scopes

/-
What a nested run does to the open nodes and to one facility. The simulation of open
nodes by frames goes on; beside each node stands how it became active and the scope that
it opened (`Opened`), and the scopes of the facility are those of the open nodes, on
top of what was there before (`Live`). Every operation succeeds, and a node that closes
leaves the facility's scopes as they were when it became active (`live_sim`).
-/

namespace Ambient.Nested

open World

/-! ## Open nodes -/

/-- An open node: how it became active, its attachment, its parent, its phase, and the
scope that it opened. -/
structure Opened where
  began : Activation
  seq : Nat
  link : Option NodeId
  phase : Phase
  scope : Option TagScope

def Opened.level (o : Opened) : Level := ⟨o.began.node, o.seq, o.link, o.phase⟩

/-- What is fixed in a run: how calls enter, the thread and what lies on its stack, what
is known of the bridges of all nodes, and the bridge of a facility with its scopes. -/
structure Setting where
  how : Call → Entrance
  thread : ThreadId
  base : List Attachment
  allowed : Option BridgeId → Prop
  bridge : BridgeId
  outside : List Tags

/-- A node that holds a scope. -/
def Holds (S : Setting) (w : World) (id : NodeId) (s : Option TagScope) : Prop :=
  ∃ n, w.nodes.get? id = some n ∧ n.scope = s ∧ S.allowed n.bridge

/-- How a node that stands for a frame became active. -/
structure Began (S : Setting) (o : Opened) (f : Frame) (n : Node) (token : Option Token) : Prop where
  ready : o.began.ready.nodes.get? o.began.node = some n
  onEntry : n.phase = .entry
  sound : n.Sound
  allowed : S.allowed n.bridge
  active : o.began.active.nodes.get? o.began.node = some { n.activated with token, scope := n.activated.ownScope }
  scope : o.scope = n.activated.ownScope
  link : n.parent = o.link
  policy : n.policy = f.policy
  inherited : ∀ k, Agrees (n.inherited.get? k) (f.inherited k)

/-- A root inherits nothing, a child what flows down from the node right below it. -/
inductive LinksTo : Option NodeId → Frame → List Opened → List Frame → Prop
  | root {f path fs} : f.inherited = (fun _ => none) → LinksTo none f path fs
  | child {f g q path fs} : f.inherited = g.child.inherited → f.policy = g.policy →
    LinksTo (some q.began.node) f (q :: path) (g :: fs)

/-- The same of all open nodes. -/
inductive Linked : List Opened → List Frame → Prop
  | nil : Linked [] []
  | cons {o f path fs} : LinksTo o.link f path fs → Linked path fs → Linked (o :: path) (f :: fs)

/-- What holds of the open nodes beside the simulation. -/
structure Around (S : Setting) (w : World) (path : List Opened) (fs : List Frame) : Prop where
  began : List.Forall₂ (fun o f => ∃ n token, Began S o f n token) path fs
  linked : Linked path fs
  holds : ∀ o ∈ path, Holds S w o.began.node o.scope
  facility : ∃ f, w.bridge S.bridge = .recording f ∧
    f.scopes = path.filterMap (fun o => tagsOn S.bridge o.scope) ++ S.outside
  known : ∀ c, (S.how c).Known w

/-- The simulation between operations. -/
structure Live (S : Setting) (w : World) (path : List Opened) (fs : List Frame) : Prop where
  sim : Sim w S.thread (path.map Opened.level) fs S.base
  around : Around S w path fs

/-- The same with one more node that is not active yet. -/
structure Prepared (S : Setting) (w : World) (id : NodeId) (link : Option NodeId) (f : Frame) (path : List Opened)
    (fs : List Frame) : Prop where
  entered : Entered w S.thread id link f (path.map Opened.level) fs S.base
  around : Around S w path fs
  holds : Holds S w id none
  links : LinksTo link f path fs

variable {S : Setting} {w w' : World} {id : NodeId} {link : Option NodeId} {n : Node} {f f' g : Frame} {o : Opened}
  {path : List Opened} {fs : List Frame} {s : Option TagScope}

theorem map_node_level (path : List Opened) :
    (path.map Opened.level).map Level.node = (path.map Opened.began).map Activation.node := by
  simp only [List.map_map]
  rfl

/-! ## What operations keep -/

theorem Entrance.Known.congr {e : Entrance} (h : e.Known w) (hw : w'.engines = w.engines) : e.Known w' := by
  cases e with
  | direct b => trivial
  | through e =>
    obtain ⟨id, he⟩ := h
    exact ⟨id, hw.symm ▸ he⟩

theorem Holds.effect (h : Holds S w id s) (hr : Reachable w) {a : Action} (he : Effect w S.thread a w')
    (ha : a ≠ .makeActive id ∧ a ≠ .close id) : Holds S w' id s := by
  obtain ⟨n, hn, hs, hb⟩ := h
  obtain ⟨n', hn', same⟩ := he.sameScope hr.sound hn ha
  exact ⟨n', hn', same.scope.trans hs, same.bridge.symm ▸ hb⟩

/-- Writing changes neither policy nor what is inherited. -/
theorem LinksTo.frame (h : LinksTo link f path fs) (hi : f'.inherited = f.inherited) (hp : f'.policy = f.policy) :
    LinksTo link f' path fs := by
  cases h with
  | root h => exact .root (hi.trans h)
  | child h h' => exact .child (hi.trans h) (hp.trans h')

theorem Around.quiet (h : Around S w path fs) (hr : Reachable w) (hw : SameBridges w w') {a : Action}
    (he : Effect w S.thread a w') (ha : ∀ o ∈ path, a ≠ .makeActive o.began.node ∧ a ≠ .close o.began.node) :
    Around S w' path fs where
  began := h.began
  linked := h.linked
  holds := fun o ho => (h.holds o ho).effect hr he (ha o ho)
  facility := hw.bridge S.bridge ▸ h.facility
  known := fun c => (h.known c).congr hw.engines

/-- The innermost frame may be written, and its phase may change. -/
theorem Around.head (h : Around S w (o :: path) (f :: fs)) (phase : Phase) (hi : f'.inherited = f.inherited)
    (hp : f'.policy = f.policy) : Around S w ({ o with phase } :: path) (f' :: fs) := by
  obtain ⟨⟨n, token, hb⟩, hrest⟩ := List.forall₂_cons.1 h.began
  cases h.linked with
  | cons hl hls =>
    refine ⟨.cons ⟨n, token, hb.ready, hb.onEntry, hb.sound, hb.allowed, hb.active, hb.scope, hb.link,
      hb.policy.trans hp.symm, hi ▸ hb.inherited⟩ hrest, .cons (hl.frame hi hp) hls, fun q hq => ?_, h.facility, h.known⟩
    rcases List.mem_cons.1 hq with rfl | hq
    · exact h.holds o List.mem_cons_self
    · exact h.holds q (List.mem_cons_of_mem _ hq)

theorem Live.set (h : Live S w (o :: path) (f :: fs)) (k : String) (v : Option Value) :
    (w.set o.began.node k v).result = .ok () ∧
      Live S (w.set o.began.node k v).world (o :: path) (f.write k v :: fs) := by
  obtain ⟨hok, written⟩ := h.sim.set k v
  have he : Effect w S.thread (.set o.began.node k v) (w.set o.began.node k v).world := perform_effect w S.thread _
  have around := h.around.quiet h.sim.reachable (sameBridges_change ..) he fun _ _ => ⟨nofun, nofun⟩
  exact ⟨hok, written, around.head o.phase rfl rfl⟩

theorem Live.beginExit (h : Live S w (o :: path) (f :: fs)) (hl : o.phase = .active) :
    (w.beginExit o.began.node).result = .ok () ∧
      Live S (w.beginExit o.began.node).world ({ o with phase := .exit } :: path) (f :: fs) := by
  obtain ⟨hok, exiting⟩ := h.sim.beginExit hl
  have he : Effect w S.thread (.beginExit o.began.node) (w.beginExit o.began.node).world :=
    perform_effect w S.thread _
  have around := h.around.quiet h.sim.reachable (sameBridges_change ..) he fun _ _ => ⟨nofun, nofun⟩
  exact ⟨hok, exiting, around.head .exit rfl rfl⟩

theorem Prepared.set (h : Prepared S w id link f path fs) (k : String) (v : Option Value) :
    (w.set id k v).result = .ok () ∧ Prepared S (w.set id k v).world id link (f.write k v) path fs := by
  obtain ⟨hok, written⟩ := h.entered.set k v
  have hr := h.entered.sim.reachable
  have he : Effect w S.thread (.set id k v) (w.set id k v).world := perform_effect w S.thread _
  exact ⟨hok, written, h.around.quiet hr (sameBridges_change ..) he fun _ _ => ⟨nofun, nofun⟩,
    h.holds.effect hr he ⟨nofun, nofun⟩, h.links.frame rfl rfl⟩

/-! ## Entering -/

theorem Entrance.enter_none (e : Entrance) (w : World) (t : ThreadId) (p : Policy) :
    (e.enter w t none p).2 = w.lastNode + 1 ∧
      ∃ p' es, Adds w ((Node.fresh p' t false e.bridge none Dict.empty).seed es) (e.enter w t none p).1 := by
  cases e with
  | direct b => exact enterRoot_adds w t p b
  | through e =>
    obtain ⟨hid, p', es, hadds⟩ := enterRoot_adds w t e.policy e.bridge
    refine ⟨hid, p', es ++ e.seedData, ?_⟩
    show Adds w _ (w.enterUnder t e none).1
    rw [enterUnder_none, hid, ← seed_seed]
    exact seed_adds hadds

theorem Entrance.entersChild (e : Entrance) (w : World) (t : ThreadId) (pid : NodeId) (p : Policy) :
    EntersChild w t pid (e.enter w t (some pid) p) := by
  cases e with
  | direct b => exact .direct p b
  | through e => exact .through e

theorem Entrance.sameBridges (e : Entrance) (w : World) (t : ThreadId) (parent : Option NodeId) (p : Policy) :
    SameBridges w (e.enter w t parent p).1 := by
  cases e with
  | direct b => exact sameBridges_enter w t parent p b
  | through e => exact sameBridges_enterUnder w t e parent

theorem Entrance.ambient (e : Entrance) (w : World) (t : ThreadId) (parent : Option NodeId) (p : Policy) :
    (e.enter w t parent p).1.ambient = w.ambient := by
  cases e with
  | direct b => exact ambient_enter w t parent p b
  | through e => exact ambient_enterUnder w t e parent

theorem Entrance.effect (e : Entrance) (w : World) (t : ThreadId) (parent : Option NodeId) (p : Policy) (a : Action) :
    Effect w t a (e.enter w t parent p).1 := by
  cases e with
  | direct b => exact enter_effect w t parent p b a
  | through e => exact enterUnder_effect w t e parent a

theorem Entrance.reachable {e : Entrance} (he : e.Known w) (h : Reachable w) (t : ThreadId) (name : String)
    (parent : Option NodeId) (p : Policy) :
    Reachable ((e.enter w t parent p).1.hold name (e.enter w t parent p).2) := by
  cases e with
  | direct b => exact h.step t (.enter name parent p b)
  | through e =>
    obtain ⟨id, hid⟩ := he
    have entered := h.step t (.enterUnder name id parent)
    simp only [perform, hid] at entered
    exact entered

theorem Follows.seeded (p : Policy) (t : ThreadId) (b : Option BridgeId) (es : List (String × Value)) :
    Follows ((Node.fresh p t false b none Dict.empty).seed es) t none
      ⟨p, fun _ => none, ((Node.fresh p t false b none Dict.empty).seed es).writes.get?⟩ :=
  ⟨rfl, rfl, rfl, rfl, fun _ => .refl _, fun _ => rfl⟩

theorem Around.enter (h : Around S w path fs) (hr : Reachable w) (e : Entrance) (name : String)
    (parent : Option NodeId) (p : Policy) :
    Around S ((e.enter w S.thread parent p).1.hold name (e.enter w S.thread parent p).2) path fs := by
  have bridges := e.sameBridges w S.thread parent p
  have effect := e.effect w S.thread parent p (.hold name (e.enter w S.thread parent p).2)
  exact h.quiet hr ⟨bridges.bridges, bridges.engines⟩ (effect.congr ⟨rfl, rfl⟩) fun _ _ => ⟨nofun, nofun⟩

theorem Live.enter_root (h : Live S w path fs) (hb : ∀ c, S.allowed (S.how c).bridge) (c : Call) :
    ∃ f, Prepared S (((S.how c).enter w S.thread none c.policy).1.hold c.name
      ((S.how c).enter w S.thread none c.policy).2) ((S.how c).enter w S.thread none c.policy).2 none f path fs := by
  have around := h.around.enter h.sim.reachable (S.how c) c.name none c.policy
  have reach := Entrance.reachable (h.around.known c) h.sim.reachable S.thread c.name none c.policy
  have ambient := (S.how c).ambient w S.thread none c.policy
  obtain ⟨hid, p, es, adds⟩ := (S.how c).enter_none w S.thread c.policy
  generalize (S.how c).enter w S.thread none c.policy = r at around reach ambient hid adds ⊢
  obtain ⟨v, id⟩ := r
  cases hid
  have hw : Adds w _ (v.hold c.name (w.lastNode + 1)) := ⟨adds.nodes, adds.lastNode⟩
  have stack : ((v.hold c.name (w.lastNode + 1)).stack S.thread).entries = (w.stack S.thread).entries := by
    show ((v.ambient.get? S.thread).getD .empty).entries = _
    rw [ambient]
    rfl
  have entered := h.sim.enter_added hw reach stack rfl (.seeded ..)
  exact ⟨_, entered, around, ⟨_, (hw.nodes _).trans (if_pos rfl), rfl, hb c⟩, .root rfl⟩

theorem Live.enter_child (h : Live S w (o :: path) (g :: fs)) (c : Call) :
    Prepared S (((S.how c).enter w S.thread (some o.began.node) c.policy).1.hold c.name
        ((S.how c).enter w S.thread (some o.began.node) c.policy).2)
      ((S.how c).enter w S.thread (some o.began.node) c.policy).2 (some o.began.node) g.child (o :: path)
      (g :: fs) := by
  have around := h.around.enter h.sim.reachable (S.how c) c.name (some o.began.node) c.policy
  have enters := (S.how c).entersChild w S.thread o.began.node c.policy
  obtain ⟨m, hm, -, hbridge⟩ := h.around.holds o List.mem_cons_self
  -- However it is entered, the child is the same.
  have same : (S.how c).enter w S.thread (some o.began.node) c.policy =
      w.enter S.thread (some o.began.node) c.policy none :=
    (enters.eq hm).trans (EntersChild.eq (.direct c.policy none) hm).symm
  have entered := h.sim.enter_child c.name c.policy
  have hid := (enter_cases w S.thread (some o.began.node) c.policy none).1
  rw [same] at around enters ⊢
  rw [← hid] at entered
  exact ⟨entered, around, ⟨_, enters.child hm, rfl, hbridge⟩, .child rfl rfl⟩

/-- A call enters a root, or a child of the innermost open node. -/
theorem Live.enter (h : Live S w path fs) (hb : ∀ c, S.allowed (S.how c).bridge) (c : Call) {parent : Option NodeId}
    (hp : c.parent ((path.map Opened.began).map Activation.node) = parent) :
    ∃ f, Prepared S (((S.how c).enter w S.thread parent c.policy).1.hold c.name
      ((S.how c).enter w S.thread parent c.policy).2) ((S.how c).enter w S.thread parent c.policy).2 parent f path fs := by
  cases path with
  | nil =>
    obtain rfl : none = parent := by simpa [Call.parent] using hp
    exact h.enter_root hb c
  | cons o path =>
    obtain ⟨g, fs, -, -, rfl⟩ := List.forall₂_cons_left_iff.1 h.around.began
    unfold Call.parent at hp
    split at hp
    · exact hp ▸ h.enter_root hb c
    · exact hp ▸ ⟨g.child, h.enter_child c⟩

/-! ## Becoming active and closing -/

theorem elim_openScope (b : Option Tags) (f : Facility) :
    b.elim (Bridge.recording f) (Bridge.recording f).openScope = .recording (b.elim f f.openScope) := by
  cases b <;> rfl

theorem elim_closeScope (b : Option Tags) (f : Facility) :
    (b.elim (Bridge.recording f) fun _ => (Bridge.recording f).closeScope) = .recording (b.elim f fun _ => f.closeScope) := by
  cases b <;> rfl

theorem Prepared.makeActive (h : Prepared S w id link f path fs) :
    (w.makeActive S.thread id).result = .ok () ∧
      ∃ o, o.began = ⟨id, w, (w.makeActive S.thread id).world⟩ ∧ o.link = link ∧ o.phase = .active ∧
        (w.makeActive S.thread id).world.bridge S.bridge =
          (tagsOn S.bridge o.scope).elim (w.bridge S.bridge) (w.bridge S.bridge).openScope ∧
        Live S (w.makeActive S.thread id).world (o :: path) (f :: fs) := by
  obtain ⟨n, hn, hp, hf⟩ := h.entered.node
  have hr := h.entered.sim.reachable
  obtain ⟨hok, active⟩ := h.entered.makeActive
  have activated := get?_makeActive (t := S.thread) hn hp
  have bridge := bridge_makeActive (t := S.thread) hn hp S.bridge
  have allowed : S.allowed n.bridge := by
    obtain ⟨m, hm, -, hb⟩ := h.holds
    cases hn.symm.trans hm
    exact hb
  have he : Effect w S.thread (.makeActive id) (w.makeActive S.thread id).world := perform_effect w S.thread _
  let o : Opened := ⟨⟨id, w, (w.makeActive S.thread id).world⟩, (w.stack S.thread).last + 1, link, .active,
    n.activated.ownScope⟩
  have began : Began S o f n (some (w.attach S.thread id).2) :=
    ⟨hn, hp, hr.sound.node hn, allowed, activated, rfl, hf.parent, hf.policy, hf.inherited⟩
  have others : ∀ q ∈ path, Holds S (w.makeActive S.thread id).world q.began.node q.scope := by
    intro q hq
    have hne : id ≠ q.began.node := fun he =>
      h.entered.fresh (List.mem_map.2 ⟨q.level, List.mem_map_of_mem hq, he.symm⟩)
    exact (h.around.holds q hq).effect hr he ⟨fun he => hne (Action.makeActive.inj he), nofun⟩
  refine ⟨hok, o, rfl, rfl, rfl, bridge, active, .cons ⟨n, _, began⟩ h.around.began,
    .cons h.links h.around.linked, fun q hq => ?_, ?_,
    fun c => (h.around.known c).congr (engines_makeActive w S.thread id)⟩
  · rcases List.mem_cons.1 hq with rfl | hq
    · exact ⟨_, activated, rfl, allowed⟩
    · exact others q hq
  · obtain ⟨k, hk, hscopes⟩ := h.around.facility
    refine ⟨_, bridge.trans (hk ▸ elim_openScope _ k), ?_⟩
    show _ = List.filterMap (fun o : Opened => tagsOn S.bridge o.scope) (o :: path) ++ S.outside
    rw [List.filterMap_cons]
    cases tagsOn S.bridge n.activated.ownScope with
    | none => exact hscopes
    | some tags => exact congrArg (tags :: ·) hscopes

/-- The nodes below a closed one are as they were, but for what flows up. -/
theorem Around.close (h : Around S w (o :: path) (g :: fs)) (hr : Reachable w)
    (hnd : o.began.node ∉ path.map fun q => q.began.node) (hn : w.nodes.get? o.began.node = some n)
    (ho : n.phase.isOpen = true) :
    (w.close S.thread o.began.node).world.bridge S.bridge =
        ((tagsOn S.bridge o.scope).elim (w.bridge S.bridge) fun _ => (w.bridge S.bridge).closeScope) ∧
      Around S (w.close S.thread o.began.node).world path fs := by
  have he : Effect w S.thread (.close o.began.node) (w.close S.thread o.began.node).world :=
    perform_effect w S.thread _
  have bridge := bridge_close (t := S.thread) hn ho S.bridge
  have scope : n.scope = o.scope := by
    obtain ⟨m, hm, hs, -⟩ := h.holds o List.mem_cons_self
    cases hn.symm.trans hm
    exact hs
  rw [scope] at bridge
  cases h.linked with
  | cons _ hls =>
    refine ⟨bridge, (List.forall₂_cons.1 h.began).2, hls, fun q hq => ?_, ?_,
      fun c => (h.known c).congr (engines_close _ _ _)⟩
    · have hne : o.began.node ≠ q.began.node := fun he => hnd (List.mem_map.2 ⟨q, hq, he.symm⟩)
      exact (h.holds q (List.mem_cons_of_mem _ hq)).effect hr he ⟨nofun, fun he => hne (Action.close.inj he)⟩
    · obtain ⟨k, hk, hscopes⟩ := h.facility
      refine ⟨_, bridge.trans (hk ▸ elim_closeScope _ k), ?_⟩
      rw [List.filterMap_cons] at hscopes
      cases hs : tagsOn S.bridge o.scope <;> rw [hs] at hscopes
      · exact hscopes
      · exact congrArg List.tail hscopes

/-- A close hands the last frame of the node back to the one below. -/
theorem Live.close (h : Live S w (o :: path) (g :: fs)) {c : Call}
    (hl : o.link = c.parent ((path.map Opened.began).map Activation.node)) :
    (w.close S.thread o.began.node).result = .ok () ∧
      (w.close S.thread o.began.node).world.bridge S.bridge =
        ((tagsOn S.bridge o.scope).elim (w.bridge S.bridge) fun _ => (w.bridge S.bridge).closeScope) ∧
      Live S (w.close S.thread o.began.node).world path (fs.modifyHead (c.back g)) := by
  rw [← map_node_level] at hl
  obtain ⟨hok, closed⟩ := h.sim.close hl
  obtain ⟨hn, -, ho, -, -⟩ := (List.forall₂_cons.1 h.sim.stands).1
  have hnd := (List.nodup_cons.1 h.sim.nodup).1
  rw [List.map_map] at hnd
  obtain ⟨bridge, around⟩ := h.around.close h.sim.reachable hnd hn ho
  refine ⟨hok, bridge, closed, ?_⟩
  cases path with
  | nil =>
    obtain rfl := List.forall₂_nil_left_iff.1 around.began
    exact around
  | cons q path =>
    obtain ⟨f, fs, -, -, rfl⟩ := List.forall₂_cons_left_iff.1 around.began
    have back : (c.back g f).inherited = f.inherited ∧ (c.back g f).policy = f.policy := by
      unfold Call.back
      split <;> exact ⟨rfl, rfl⟩
    exact around.head q.phase back.1 back.2

/-! ## Runs -/

/-- What became of the facility in the life of a node, which opened a scope or not. -/
inductive Lived (b : BridgeId) (l : Life) : Prop
  | silent {f g : Facility} : l.began.ready.bridge b = .recording f → l.began.active.bridge b = .recording f →
    l.last.bridge b = .recording g → l.closed.bridge b = .recording g → f.Passes g → Lived b l
  | tagged {f g : Facility} {tags : Tags} : l.began.ready.bridge b = .recording f →
    l.began.active.bridge b = .recording (f.openScope tags) → l.last.bridge b = .recording g →
    l.closed.bridge b = .recording g.closeScope → (f.openScope tags).Passes g → Lived b l

theorem Lived.of_elim {b : BridgeId} {l : Life} {f : Facility} {tags : Option Tags}
    (ready : l.began.ready.bridge b = .recording f)
    (active : l.began.active.bridge b = tags.elim (l.began.ready.bridge b) (l.began.ready.bridge b).openScope)
    (inner : ∃ f g, l.began.active.bridge b = .recording f ∧ l.last.bridge b = .recording g ∧ f.Passes g)
    (closed : l.closed.bridge b = tags.elim (l.last.bridge b) fun _ => (l.last.bridge b).closeScope) : Lived b l := by
  obtain ⟨k, g, hk, last, passes⟩ := inner
  rw [ready, elim_openScope] at active
  rw [last, elim_closeScope] at closed
  obtain rfl := Bridge.recording.inj (hk.symm.trans active)
  cases tags with
  | none => exact .silent ready active last closed passes
  | some tags => exact .tagged ready active last closed passes

theorem Lived.passes {b : BridgeId} {l : Life} (h : Lived b l) :
    ∃ f f', l.began.ready.bridge b = .recording f ∧ l.closed.bridge b = .recording f' ∧ f.Passes f' := by
  cases h with
  | silent ready _ _ closed passes => exact ⟨_, _, ready, closed, passes⟩
  | tagged ready _ _ closed passes => exact ⟨_, _, ready, closed, passes.scope⟩

/-- What an operation leaves behind. -/
def Step.Sound (S : Setting) : Step → Prop
  | .quiet w w' => SameBridges w w'
  | .active path => ∃ o os f fs, path = (o :: os).map Opened.began ∧ Live S o.began.active (o :: os) (f :: fs)
  | .closed l => Lived S.bridge l

/-- A part of a run: its operations succeed and leave behind what they should, and the
facility passes. -/
structure Runs (S : Setting) (d d' : Diary) : Prop where
  steps : ∃ later, d'.steps = d.steps ++ later ∧ ∀ e ∈ later, e.1 = .ok () ∧ e.2.Sound S
  passes : ∃ f f', d.world.bridge S.bridge = .recording f ∧ d'.world.bridge S.bridge = .recording f' ∧ f.Passes f'

variable {d d' d'' : Diary}

theorem Around.runs_refl (h : Around S d.world path fs) : Runs S d d := by
  obtain ⟨f, hf, -⟩ := h.facility
  exact ⟨⟨[], (List.append_nil _).symm, List.forall_mem_nil _⟩, f, f, hf, hf, .refl f⟩

theorem Runs.trans (h : Runs S d d') (h' : Runs S d' d'') : Runs S d d'' := by
  obtain ⟨l, hl, hs⟩ := h.steps
  obtain ⟨l', hl', hs'⟩ := h'.steps
  obtain ⟨f, k, hf, hk, hp⟩ := h.passes
  obtain ⟨k', f', hk', hf', hp'⟩ := h'.passes
  obtain rfl := Bridge.recording.inj (hk.symm.trans hk')
  exact ⟨⟨l ++ l', by rw [hl', hl, List.append_assoc], fun e he => (List.mem_append.1 he).elim (hs e) (hs' e)⟩,
    f, f', hf, hf', hp.trans hp'⟩

theorem Around.runs_quiet (h : Around S d.world path fs) {r : Reply Unit} (hok : r.result = .ok ())
    (hw : SameBridges d.world r.world) : Runs S d (d.quiet r) := by
  obtain ⟨f, hf, -⟩ := h.facility
  refine ⟨⟨_, rfl, fun e he => ?_⟩, f, f, hf, (hw.bridge S.bridge).trans hf, .refl f⟩
  obtain rfl := List.mem_singleton.1 he
  exact ⟨hok, hw⟩

theorem prepare_writes (es : List (String × Option Value)) (h : Prepared S d.world id link f path fs) :
    ∃ f', Prepared S (es.foldl (fun d e => d.quiet (d.world.set id e.1 e.2)) d).world id link f' path fs ∧
      Runs S d (es.foldl (fun d e => d.quiet (d.world.set id e.1 e.2)) d) := by
  induction es generalizing d f with
  | nil => exact ⟨f, h, h.around.runs_refl⟩
  | cons e es ih =>
    obtain ⟨hok, written⟩ := h.set e.1 e.2
    obtain ⟨f', prepared, runs⟩ := ih (d := d.quiet (d.world.set id e.1 e.2)) written
    exact ⟨f', prepared, (h.around.runs_quiet hok (sameBridges_change ..)).trans runs⟩

theorem Call.prepare_sim (c : Call) (h : Live S d.world path fs) (hb : ∀ c, S.allowed (S.how c).bridge) :
    ∃ f, Prepared S (c.prepare S.how S.thread (path.map Opened.began) d).1.world
        (c.prepare S.how S.thread (path.map Opened.began) d).2
        (c.parent ((path.map Opened.began).map Activation.node)) f path fs ∧
      Runs S d (c.prepare S.how S.thread (path.map Opened.began) d).1 := by
  obtain ⟨f, entered⟩ := h.enter hb c rfl
  have bridges := (S.how c).sameBridges d.world S.thread (c.parent ((path.map Opened.began).map Activation.node)) c.policy
  unfold Call.prepare
  generalize (S.how c).enter d.world S.thread (c.parent ((path.map Opened.began).map Activation.node)) c.policy = r
    at entered bridges ⊢
  have quiet : Runs S d (d.quiet ⟨.ok (), r.1.hold c.name r.2, []⟩) :=
    h.around.runs_quiet rfl ⟨bridges.bridges, bridges.engines⟩
  obtain ⟨f', prepared, runs⟩ := prepare_writes (d := d.quiet ⟨.ok (), r.1.hold c.name r.2, []⟩) c.entry entered
  exact ⟨f', prepared, quiet.trans runs⟩

/-- A call is simulated if its body is. -/
theorem Call.live_sim (c : Call) (body : Activation → Diary → Diary) (hb : ∀ c, S.allowed (S.how c).bridge)
    (h : Live S d.world path fs)
    (hbody : ∀ o f d, Live S d.world (o :: path) (f :: fs) → o.phase = .active →
      Runs S d (body o.began d) ∧ ∃ phase f', Live S (body o.began d).world ({ o with phase } :: path) (f' :: fs)) :
    Runs S d (c.live S.how S.thread (path.map Opened.began) body d) ∧
      ∃ back, Live S (c.live S.how S.thread (path.map Opened.began) body d).world path (fs.modifyHead back) := by
  obtain ⟨f, prepared, first⟩ := c.prepare_sim h hb
  unfold Call.live
  generalize c.prepare S.how S.thread (path.map Opened.began) d = r at prepared first ⊢
  obtain ⟨ready, id⟩ := r
  dsimp only at prepared first ⊢
  obtain ⟨hok, o, began, hl, ha, opens, active⟩ := prepared.makeActive
  rw [← began]
  obtain ⟨inner, phase, g, last⟩ := hbody o f ⟨(ready.world.makeActive S.thread id).world, ready.steps ++
    [((ready.world.makeActive S.thread id).result, .active (o.began :: path.map Opened.began))]⟩ active ha
  generalize body o.began _ = d₁ at inner last ⊢
  have node : o.began.node = id := congrArg Activation.node began
  obtain ⟨hclose, closes, closed⟩ := last.close (c := c) hl
  rw [show ({ o with phase } : Opened).began.node = id from node] at hclose closes closed
  obtain ⟨k, hk, -⟩ := prepared.around.facility
  have lived : Lived S.bridge ⟨o.began, d₁.world, (d₁.world.close S.thread id).world⟩ :=
    .of_elim (f := k) (by rw [began]; exact hk) (by rw [began]; exact opens) (by rw [began]; exact inner.passes) closes
  refine ⟨first.trans ⟨?_, ?_⟩, _, closed⟩
  · obtain ⟨later, hlater, hs⟩ := inner.steps
    refine ⟨((ready.world.makeActive S.thread id).result, .active (o.began :: path.map Opened.began)) :: later ++
      [((d₁.world.close S.thread id).result, .closed ⟨o.began, d₁.world, (d₁.world.close S.thread id).world⟩)], ?_, ?_⟩
    · simp [hlater]
    · intro e he
      simp only [List.mem_append, List.mem_cons, List.not_mem_nil, or_false] at he
      rcases he with (rfl | he) | rfl
      · exact ⟨hok, o, path, f, fs, rfl, by rw [began]; exact active⟩
      · exact hs e he
      · exact ⟨hclose, lived⟩
  · have passes := lived.passes
    rw [began] at passes
    exact passes

/-- A body is simulated, in the phase in which it begins. -/
theorem Body.live_sim {e : Bool} (b : Body e) (hb : ∀ c, S.allowed (S.how c).bridge)
    (h : Live S d.world (o :: path) (f :: fs)) (hl : o.phase = if e then .exit else .active) :
    Runs S d (b.live S.how S.thread o.began (path.map Opened.began) d) ∧
      ∃ phase f', Live S (b.live S.how S.thread o.began (path.map Opened.began) d).world ({ o with phase } :: path)
        (f' :: fs) := by
  induction b generalizing o path f fs d with
  | done => exact ⟨h.around.runs_refl, o.phase, f, h⟩
  | write key v rest ih =>
    obtain ⟨hok, written⟩ := h.set key v
    obtain ⟨runs, later⟩ := ih (d := d.quiet (d.world.set o.began.node key v)) written hl
    exact ⟨(h.around.runs_quiet hok (sameBridges_change ..)).trans runs, later⟩
  | beginExit rest ih =>
    obtain ⟨hok, exiting⟩ := h.beginExit hl
    obtain ⟨runs, later⟩ := ih (d := d.quiet (d.world.beginExit o.began.node)) exiting rfl
    exact ⟨(h.around.runs_quiet hok (sameBridges_change ..)).trans runs, later⟩
  | call c body rest ihb ihr =>
    obtain ⟨first, back, inner⟩ := c.live_sim
      (fun child => body.live S.how S.thread child ((o :: path).map Opened.began)) hb h
      fun _ _ _ h hl => ihb h hl
    obtain ⟨runs, later⟩ := ihr inner hl
    exact ⟨first.trans runs, later⟩

theorem Live.start (h : Reachable w) (known : ∀ c, (S.how c).Known w) (hs : S.base = (w.stack S.thread).entries)
    {f : Facility} (hf : w.bridge S.bridge = .recording f) (ho : S.outside = f.scopes) : Live S w [] [] where
  sim := hs ▸ .start h S.thread
  around := ⟨.nil, .nil, List.forall_mem_nil _, ⟨f, hf, ho.symm⟩, known⟩

/-- **Nested runs succeed, and facilities pass them.** -/
theorem live_sim (ps : List (Call × Body false)) (hb : ∀ c, S.allowed (S.how c).bridge) (h : Live S w [] []) :
    Runs S ⟨w, []⟩ (live S.how S.thread ps w) := by
  suffices ∀ d : Diary, Live S d.world [] [] → Runs S d
      (ps.foldl (fun d p => p.1.live S.how S.thread [] (fun a => p.2.live S.how S.thread a []) d) d) from this _ h
  induction ps with
  | nil => exact fun d h => h.around.runs_refl
  | cons p ps ih =>
    intro d h
    obtain ⟨first, back, after⟩ := p.1.live_sim (fun a => p.2.live S.how S.thread a []) hb h
      fun o f d h hl => p.2.live_sim hb h hl
    exact first.trans (ih _ after)

end Ambient.Nested
