import Ambient.Proofs.Invariant
import Ambient.Proofs.Nested.Program
import Mathlib.Data.List.Forall2

/-
A process simulates the meaning of a program: the open nodes stand for its frames
one by one, and lie on the ambient stack of the thread in that order (`Sim`). Each
operation of a program is legal there and keeps the simulation. What a node
inherits may come from a memo, so it only agrees with what the frame inherits; the
writes are the same.
-/

namespace Ambient.Nested

open World

variable {w w' : World} {t : ThreadId} {id pid : NodeId} {n p : Node} {link : Option NodeId} {f g : Frame}
  {k : String} {v : Option Value}

/-! ## Nodes and frames -/

/-- A node of a thread that stands for a frame beneath a parent. -/
structure Follows (n : Node) (t : ThreadId) (link : Option NodeId) (f : Frame) : Prop where
  thread : n.thread = t
  parent : n.parent = link
  synchronous : n.synchronous = link.isSome
  policy : n.policy = f.policy
  inherited : ∀ k, Agrees (n.inherited.get? k) (f.inherited k)
  writes : ∀ k, n.writes.get? k = f.writes k

namespace Follows

theorem view (h : Follows n t link f) (k : String) : Agrees (n.value k) (f.view k) := by
  rw [Node.value_eq, Frame.view, h.writes]
  cases f.writes k with
  | none => exact h.inherited k
  | some v => exact .refl v

theorem root (p : Policy) (t : ThreadId) :
    Follows (Node.fresh p t false none none Dict.empty) t none (Frame.root p) :=
  ⟨rfl, rfl, rfl, rfl, fun _ => .refl _, fun _ => rfl⟩

theorem child (h : Follows n t link f) (hs : n.Sound) (ho : n.phase.isOpen = true) (id : NodeId) :
    Follows (n.child id t) t (some id) f.child := by
  have hj : n.joins t = true := by simp [Node.joins, h.thread, ho]
  refine ⟨rfl, rfl, hj, h.policy, fun k => ?_, fun _ => rfl⟩
  have hd : (n.child id t).inherited = n.snapshot := if_pos hj
  have agree : Agrees (n.downValue k) (f.child.inherited k) := by
    rw [Node.downValue, Frame.inherited_child, h.policy]
    split
    · exact h.view k
    · exact .refl none
  rw [hd]
  exact (hs.snapshot ho k).trans agree

theorem write (h : Follows n t link f) (k : String) (v : Option Value) :
    Follows (n.write k v) t link (f.write k v) := by
  refine ⟨h.thread, h.parent, h.synchronous, h.policy, h.inherited, fun x => ?_⟩
  simp only [Node.write, Frame.writes_write, Dict.get?_insert, h.writes]

theorem remember (h : Follows n t link f) (u : ThreadId) : Follows (n.remember u) t link f := by
  unfold Node.remember
  split
  · exact ⟨h.thread, h.parent, h.synchronous, h.policy, h.inherited, h.writes⟩
  · exact h

theorem absorb (h : Follows p t link f) {l : Option NodeId} (hn : Follows n t l g) :
    Follows (p.absorb n.policy n.upward) t link (f.merge g) := by
  refine ⟨h.thread, h.parent, h.synchronous, h.policy, h.inherited, fun k => ?_⟩
  rw [Node.writes_absorb n.nodup_upward, Node.lookupEntry_upward, h.writes, hn.writes, hn.policy, Frame.writes_merge]
  split <;> rfl

end Follows

/-! ## Processes and open nodes -/

/-- What stays the same about an open node while others are used above it: its number,
its attachment, its parent, and its phase. -/
structure Level where
  node : NodeId
  seq : Nat
  link : Option NodeId
  phase : Phase

def Level.attachment (l : Level) : Attachment := ⟨l.seq, l.node⟩

/-- An open node that stands for a frame. -/
inductive Stands (w : World) (t : ThreadId) (l : Level) (f : Frame) : Prop
  | mk {n : Node} (node : w.nodes.get? l.node = some n) (phase : n.phase = l.phase)
    (isOpen : n.phase.isOpen = true) (token : n.token = some ⟨l.node, l.seq, t⟩)
    (follows : Follows n t l.link f)

/-- The simulation: the open nodes stand for frames, innermost first, and lie in that
order on the ambient stack, above what was there before. -/
structure Sim (w : World) (t : ThreadId) (path : List Level) (fs : List Frame) (base : List Attachment) :
    Prop where
  reachable : Reachable w
  stands : List.Forall₂ (Stands w t) path fs
  nodup : (path.map Level.node).Nodup
  stack : (w.stack t).entries = path.map Level.attachment ++ base

/-- The same with one more node that is not active yet. -/
structure Entered (w : World) (t : ThreadId) (id : NodeId) (link : Option NodeId) (f : Frame)
    (path : List Level) (fs : List Frame) (base : List Attachment) : Prop where
  sim : Sim w t path fs base
  fresh : id ∉ path.map Level.node
  node : ∃ n, w.nodes.get? id = some n ∧ n.phase = .entry ∧ Follows n t link f

/-- Reading a node agrees with a frame under every key. -/
def Reads (w : World) (id : NodeId) (f : Frame) : Prop := ∀ k, ∃ v, w.get id k = .ok v ∧ Agrees v (f.view k)

variable {l q : Level} {path : List Level} {fs : List Frame} {base : List Attachment}

theorem Stands.reads (h : Stands w t l f) : Reads w l.node f := by
  obtain ⟨hn, -, ho, -, hf⟩ := h
  exact fun k => ⟨_, get_eq hn (Phase.ne_closed_of_isOpen ho) k, hf.view k⟩

theorem Stands.congr (h : Stands w t l f) (hx : w'.nodes.get? l.node = w.nodes.get? l.node) :
    Stands w' t l f := by
  obtain ⟨hn, hp, ho, hk, hf⟩ := h
  exact ⟨hx.trans hn, hp, ho, hk, hf⟩

theorem Sim.reads (h : Sim w t path fs base) : List.Forall₂ (Reads w) (path.map Level.node) fs :=
  List.forall₂_map_left_iff.2 (h.stands.imp fun _ _ => Stands.reads)

theorem Entered.reads (h : Entered w t id link f path fs base) :
    List.Forall₂ (Reads w) (id :: path.map Level.node) (f :: fs) := by
  obtain ⟨n, hn, hp, hf⟩ := h.node
  exact .cons (fun k => ⟨_, get_eq hn (by simp [hp]) k, hf.view k⟩) h.sim.reads

theorem Sim.start (h : Reachable w) (t : ThreadId) : Sim w t [] [] (w.stack t).entries :=
  ⟨h, .nil, .nil, rfl⟩

theorem stands_congr (h : List.Forall₂ (Stands w t) path fs)
    (hn : ∀ x ∈ path.map Level.node, w'.nodes.get? x = w.nodes.get? x) : List.Forall₂ (Stands w' t) path fs := by
  have hl : ∀ l ∈ path, w'.nodes.get? l.node = w.nodes.get? l.node := by
    intro l hl
    exact hn l.node (List.mem_map_of_mem hl)
  exact ((List.forall₂_and_left ..).2 ⟨hl, h⟩).imp fun _ _ ⟨hx, hs⟩ => hs.congr hx

theorem puts_others {ids : List NodeId} (hw : Puts w id n w') (hid : id ∉ ids) :
    ∀ x ∈ ids, w'.nodes.get? x = w.nodes.get? x := by
  intro x hx
  have hne : id ≠ x := by
    rintro rfl
    exact hid hx
  rw [hw.nodes, if_neg hne]

/-- Nothing changes for the open nodes while their look-ups and the stack stay the same. -/
theorem Sim.keep (h : Sim w t path fs base) (hr : Reachable w')
    (hn : ∀ x ∈ path.map Level.node, w'.nodes.get? x = w.nodes.get? x)
    (hs : (w'.stack t).entries = (w.stack t).entries) : Sim w' t path fs base :=
  ⟨hr, stands_congr h.stands hn, h.nodup, hs.trans h.stack⟩

/-- The innermost node is replaced by another state of it. -/
theorem Sim.replace {phase : Phase} (h : Sim w t (l :: path) (f :: fs) base) (hr : Reachable w')
    (hw : Puts w l.node n w') (hs : (w'.stack t).entries = (w.stack t).entries)
    (hl : Stands w' t { l with phase } g) : Sim w' t ({ l with phase } :: path) (g :: fs) base := by
  have hnd := List.nodup_cons.1 h.nodup
  have others := puts_others hw hnd.1
  exact ⟨hr, .cons hl (stands_congr (List.forall₂_cons.1 h.stands).2 others), h.nodup, hs.trans h.stack⟩

/-! ## Writing -/

theorem Sim.set (h : Sim w t (l :: path) (f :: fs) base) (k : String) (v : Option Value) :
    (w.set l.node k v).result = .ok () ∧
      Sim (w.set l.node k v).world t (l :: path) (f.write k v :: fs) base := by
  have hr : Reachable (w.set l.node k v).world := h.reachable.step t (.set l.node k v)
  obtain ⟨hn, hp, ho, hk, hf⟩ := (List.forall₂_cons.1 h.stands).1
  rw [set_eq hn (Phase.ne_closed_of_isOpen ho)] at hr ⊢
  rename_i n
  have hw := withNode_puts w l.node (n.write k v)
  have stands : Stands (w.withNode l.node (n.write k v)) t l (f.write k v) :=
    ⟨(hw.nodes _).trans (if_pos rfl), hp, ho, hk, hf.write k v⟩
  exact ⟨rfl, h.replace hr hw rfl stands⟩

theorem Entered.set (h : Entered w t id link f path fs base) (k : String) (v : Option Value) :
    (w.set id k v).result = .ok () ∧ Entered (w.set id k v).world t id link (f.write k v) path fs base := by
  have hr : Reachable (w.set id k v).world := h.sim.reachable.step t (.set id k v)
  obtain ⟨n, hn, hp, hf⟩ := h.node
  rw [set_eq hn (by simp [hp])] at hr ⊢
  have hw := withNode_puts w id (n.write k v)
  exact ⟨rfl, h.sim.keep hr (puts_others hw h.fresh) rfl, h.fresh, _, (hw.nodes _).trans (if_pos rfl), hp,
    hf.write k v⟩

/-! ## Phases -/

theorem Sim.beginExit (h : Sim w t (l :: path) (f :: fs) base) (hl : l.phase = .active) :
    (w.beginExit l.node).result = .ok () ∧
      Sim (w.beginExit l.node).world t ({ l with phase := .exit } :: path) (f :: fs) base := by
  have hr : Reachable (w.beginExit l.node).world := h.reachable.step t (.beginExit l.node)
  obtain ⟨hn, hp, ho, hk, hf⟩ := (List.forall₂_cons.1 h.stands).1
  rename_i n
  have he : w.beginExit l.node = ⟨.ok (), w.withNode l.node { n with phase := .exit }, []⟩ :=
    change_eq hn (Node.beginExit_eq_ok.2 ⟨hp.trans hl, rfl⟩)
  rw [he] at hr ⊢
  have hw := withNode_puts w l.node { n with phase := .exit }
  have stands : Stands (w.withNode l.node { n with phase := .exit }) t { l with phase := .exit } f :=
    ⟨(hw.nodes _).trans (if_pos rfl), rfl, rfl, hk,
      ⟨hf.thread, hf.parent, hf.synchronous, hf.policy, hf.inherited, hf.writes⟩⟩
  exact ⟨rfl, h.replace hr hw rfl stands⟩

theorem stack_makeActive (hn : w.nodes.get? id = some n) (hp : n.phase = .entry) :
    (w.makeActive t id).result = .ok () ∧
      ((w.makeActive t id).world.stack t).entries = ⟨(w.stack t).last + 1, id⟩ :: (w.stack t).entries := by
  have hpub : ∀ v : World, (v.publish n.activated).1.ambient = v.ambient := by
    intro v
    unfold publish
    split <;> rfl
  have hst : (w.attach t id).1.stack t = (w.stack t).attach id := (stack_withStack ..).trans (if_pos rfl)
  rw [makeActive_eq hn hp]
  refine ⟨rfl, ?_⟩
  show ((((w.attach t id).1.publish n.activated).1.ambient.get? t).getD .empty).entries = _
  rw [hpub, ← stack, hst]
  rfl

theorem Entered.makeActive (h : Entered w t id link f path fs base) :
    (w.makeActive t id).result = .ok () ∧
      Sim (w.makeActive t id).world t (⟨id, (w.stack t).last + 1, link, .active⟩ :: path) (f :: fs) base := by
  have hr : Reachable (w.makeActive t id).world := h.sim.reachable.step t (.makeActive id)
  obtain ⟨n, hn, hp, hf⟩ := h.node
  obtain ⟨hok, hstack⟩ := stack_makeActive (t := t) hn hp
  obtain ⟨scope, hw⟩ := makeActive_puts t hn hp
  have stands : Stands (w.makeActive t id).world t ⟨id, (w.stack t).last + 1, link, .active⟩ f :=
    ⟨(hw.nodes _).trans (if_pos rfl), rfl, rfl, rfl,
      ⟨hf.thread, hf.parent, hf.synchronous, hf.policy, hf.inherited, hf.writes⟩⟩
  refine ⟨hok, hr, .cons stands (stands_congr h.sim.stands (puts_others hw h.fresh)),
    List.nodup_cons.2 ⟨h.fresh, h.sim.nodup⟩, ?_⟩
  rw [hstack, h.sim.stack]
  rfl

/-! ## Entering -/

theorem get?_of_stands (h : List.Forall₂ (Stands w t) path fs) :
    ∀ x ∈ path.map Level.node, ∃ n, w.nodes.get? x = some n := by
  induction h with
  | nil => simp
  | cons hl _ ih =>
    obtain ⟨hn, -⟩ := hl
    intro x hx
    rcases List.mem_cons.1 hx with rfl | hx
    · exact ⟨_, hn⟩
    · exact ih x hx

/-- The next number is not that of an open node. -/
theorem Sim.next_notMem (h : Sim w t path fs base) : w.lastNode + 1 ∉ path.map Level.node := by
  intro hx
  obtain ⟨n, hn⟩ := get?_of_stands h.stands _ hx
  exact h.reachable.sound.next_ne hn rfl

theorem reachable_enter (h : Reachable w) (t : ThreadId) (name : String) (parent : Option NodeId) (p : Policy) :
    Reachable ((w.enter t parent p none).1.hold name (w.lastNode + 1)) := by
  rw [← (enter_cases w t parent p none).1]
  exact h.step t (.enter name parent p none)

/-- A new root lies beside the open nodes. -/
theorem Sim.enter_added (h : Sim w t path fs base) (hw : Adds w n w') (hr : Reachable w')
    (hs : (w'.stack t).entries = (w.stack t).entries) (hp : n.phase = .entry) (hf : Follows n t none f) :
    Entered w' t (w.lastNode + 1) none f path fs base := by
  have others : ∀ x ∈ path.map Level.node, w'.nodes.get? x = w.nodes.get? x := by
    intro x hx
    obtain ⟨n, hn⟩ := get?_of_stands h.stands x hx
    rw [hw.nodes, if_neg (h.reachable.sound.next_ne hn)]
  exact ⟨h.keep hr others hs, h.next_notMem, _, (hw.nodes _).trans (if_pos rfl), hp, hf⟩

theorem Sim.enter_root (h : Sim w t path fs base) (name : String) (p : Policy) :
    Entered ((w.enter t none p none).1.hold name (w.lastNode + 1)) t (w.lastNode + 1) none (Frame.root p)
      path fs base := by
  have hw : Adds w (Node.fresh p t false none none Dict.empty) (w.enter t none p none).1 := addNode_adds ..
  exact h.enter_added ⟨hw.nodes, hw.lastNode⟩ (reachable_enter h.reachable ..) rfl rfl (.root p t)

theorem Sim.enter_child (h : Sim w t (q :: path) (f :: fs) base) (name : String) (p : Policy) :
    Entered ((w.enter t (some q.node) p none).1.hold name (w.lastNode + 1)) t (w.lastNode + 1)
      (some q.node) f.child (q :: path) (f :: fs) base := by
  have hnext := h.next_notMem
  obtain ⟨hq, hrest⟩ := List.forall₂_cons.1 h.stands
  obtain ⟨hn, hp, ho, hk, hf⟩ := hq
  rename_i n
  have he : w.enter t (some q.node) p none = w.enterChild t q.node n := by simp only [enter, hn]
  have hr := reachable_enter h.reachable t name (some q.node) p
  rw [he] at hr ⊢
  have nodes : ∀ x, ((w.enterChild t q.node n).1.hold name (w.lastNode + 1)).nodes.get? x =
      if w.lastNode + 1 = x then some (n.child q.node t)
      else if q.node = x then some (n.remember t) else w.nodes.get? x := by
    intro x
    rw [← get?_withNode]
    exact (enterChild_adds w t q.node n).nodes x
  -- The parent only remembers what it handed down.
  have parent : Stands ((w.enterChild t q.node n).1.hold name (w.lastNode + 1)) t q f := by
    have hne : w.lastNode + 1 ≠ q.node := fun hx => hnext (hx ▸ List.mem_cons_self)
    have hph := Node.phase_remember n t
    exact ⟨(nodes _).trans ((if_neg hne).trans (if_pos rfl)), hph.trans hp, hph.symm ▸ ho,
      (Node.token_remember n t).trans hk, hf.remember t⟩
  have others : ∀ x ∈ path.map Level.node,
      ((w.enterChild t q.node n).1.hold name (w.lastNode + 1)).nodes.get? x = w.nodes.get? x := by
    intro x hx
    have hne₁ : w.lastNode + 1 ≠ x := fun he => hnext (he ▸ List.mem_cons_of_mem _ hx)
    have hne₂ : q.node ≠ x := fun he => (List.nodup_cons.1 h.nodup).1 (he ▸ hx)
    rw [nodes, if_neg hne₁, if_neg hne₂]
  exact ⟨⟨hr, .cons parent (stands_congr hrest others), h.nodup, h.stack⟩, hnext, n.child q.node t,
    (nodes _).trans (if_pos rfl), rfl, hf.child (h.reachable.sound.node hn) ho q.node⟩

/-! ## Closing -/

/-- The close of a node whose attachment is topmost is in order, and takes off just
that. -/
theorem stack_close {seq : Nat} {below : List Attachment} (hn : w.nodes.get? id = some n)
    (ho : n.phase.isOpen = true) (hk : n.token = some ⟨id, seq, t⟩)
    (hs : (w.stack t).entries = ⟨seq, id⟩ :: below) :
    (w.close t id).result = .ok () ∧ ((w.close t id).world.stack t).entries = below := by
  have hfrom : (w.stack t).fromSeq seq = (w.stack t).entries := by simp [Stack.fromSeq, hs]
  have hflow : ∀ v : World, (v.flowUp t id n).1.ambient = v.ambient := by
    intro v
    obtain ⟨nodes, h⟩ := flowUp_nodes v t id n
    rw [h]
  have hscope : (((w.withNode id n.retire).closeScope? n.scope).1).stack t = w.stack t := by
    cases n.scope <;> rfl
  have hdetach : (((w.withNode id n.retire).closeScope? n.scope).1).detach? t n.token =
      ⟨(w.stack t).check ⟨id, seq, t⟩,
        (((w.withNode id n.retire).closeScope? n.scope).1).withStack t ((w.stack t).detach seq), []⟩ := by
    rw [hk, detach?, detach, if_pos rfl, hscope]
  have hcheck : (w.stack t).check ⟨id, seq, t⟩ = .ok () := if_pos (.inr hfrom)
  have hbelow : ((w.stack t).detach seq).entries = below := by simp only [Stack.detach, hfrom, hs]
  rw [close_eq hn ho]
  constructor
  · show (((w.withNode id n.retire).closeScope? n.scope).1.detach? t n.token).result = _
    rw [hdetach, hcheck]
  · rw [closeOpen_world, stack, hflow, closing, hdetach, ← hbelow, ← stack]
    exact congrArg Stack.entries ((stack_withStack ..).trans (if_pos rfl))

theorem Sim.close_root (h : Sim w t (l :: path) (f :: fs) base) (hl : l.link = none) :
    (w.close t l.node).result = .ok () ∧ Sim (w.close t l.node).world t path fs base := by
  obtain ⟨hx, hrest⟩ := List.forall₂_cons.1 h.stands
  obtain ⟨hn, hp, ho, hk, hf⟩ := hx
  have hnd := List.nodup_cons.1 h.nodup
  obtain ⟨hok, hstack⟩ := stack_close hn ho hk h.stack
  rcases close_cases (t := t) hn ho with hw | ⟨pid, p, -, -, hj, -⟩
  · have others := puts_others ⟨hw, lastNode_close w t l.node⟩ hnd.1
    exact ⟨hok, h.reachable.step t (.close l.node), stands_congr hrest others, hnd.2, hstack⟩
  · have := hj.parent
    rw [hf.parent, hl] at this
    cases this

theorem Sim.close_child (h : Sim w t (l :: q :: path) (g :: f :: fs) base) (hl : l.link = some q.node) :
    (w.close t l.node).result = .ok () ∧
      Sim (w.close t l.node).world t (q :: path) (f.merge g :: fs) base := by
  obtain ⟨hx, hrest⟩ := List.forall₂_cons.1 h.stands
  obtain ⟨hq, hrest⟩ := List.forall₂_cons.1 hrest
  obtain ⟨hn, -, ho, hk, hg⟩ := hx
  obtain ⟨hm, hp, hpo, hpk, hf⟩ := hq
  rename_i n p
  obtain ⟨hlnot, hnd⟩ := List.nodup_cons.1 h.nodup
  have hqnot := (List.nodup_cons.1 hnd).1
  have hne : q.node ≠ l.node := fun he => hlnot (he ▸ List.mem_cons_self)
  obtain ⟨hok, hstack⟩ := stack_close hn ho hk h.stack
  have hj : Joined n t q.node p :=
    ⟨hg.parent.trans hl, hg.synchronous.trans (hl ▸ rfl), hf.thread, hpo⟩
  -- The parent lies right below on the stack, which keeps it alive.
  have alive : (w.close t l.node).world.isAlive q.node = true := by
    refine isAlive_iff.2 (.inr (.inl ⟨t, ?_⟩))
    simp only [Stack.holds, hstack, List.any_eq_true]
    exact ⟨q.attachment, by simp, by simp [Level.attachment]⟩
  have nodes := close_flows hn ho hm hne hj alive
  have parent : Stands (w.close t l.node).world t q (f.merge g) :=
    ⟨(nodes _).trans (if_pos rfl), hp, hpo, hpk, hf.absorb hg⟩
  have others : ∀ x ∈ path.map Level.node, (w.close t l.node).world.nodes.get? x = w.nodes.get? x := by
    intro x hx
    have hne₁ : q.node ≠ x := fun he => hqnot (he ▸ hx)
    have hne₂ : l.node ≠ x := fun he => hlnot (he ▸ List.mem_cons_of_mem _ hx)
    rw [nodes, if_neg hne₁, if_neg hne₂]
  exact ⟨hok, h.reachable.step t (.close l.node), .cons parent (stands_congr hrest others), hnd, hstack⟩

end Ambient.Nested
