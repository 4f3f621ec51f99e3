import Ambient.Proofs.Tags.Published
import Ambient.Proofs.Tags.Simulation

/-
What a tagging facility shows when a node has become active (`tags_mirrored`): the tags
that the innermost open node had when it became active, of those nodes whose entry
phase changed a tag. That need not be what the node itself shows, for a write in the
active phase reaches the children that are entered later, but is not published. Where the
nodes in between have kept their tags, the facility shows the node's own.
-/

namespace Ambient

/-- The value that a node shows of a tag, a key that its policy makes a tag that flows down. -/
def World.tag? (w : World) (id : NodeId) (k : String) : Option Value :=
  match w.nodes.get? id, w.get id k with
  | some n, .ok v => if n.policy.isTag k && n.policy.flowsDown k then v else none
  | _, _ => none

theorem World.tag?_eq {w : World} {id : NodeId} {n : Node} (hn : w.nodes.get? id = some n) (hp : n.phase ≠ .closed)
    (k : String) : w.tag? id k = if n.policy.isTag k && n.policy.flowsDown k then n.value k else none := by
  simp only [tag?, hn, get_eq hn hp]

/-- The list of a node's tags: ordered by key, each with the text of its value on the wire. -/
structure World.ListsTags (w : World) (id : NodeId) (tags : Tags) : Prop where
  sorted : tags.Pairwise fun a b => a.1 < b.1
  mem : ∀ k s, (k, s) ∈ tags ↔ ∃ v, w.tag? id k = some v ∧ v.wireText = some s

namespace Nested

open World

/-- The entry phase of the node changed a tag. -/
def Activation.Changed (a : Activation) : Prop := ∃ n, a.ready.nodes.get? a.node = some n ∧ n.Changes

def Activation.parent (a : Activation) : Option NodeId := (a.active.nodes.get? a.node).bind Node.parent

/-- The node shows the tags that it showed when it had become active. -/
def Activation.Kept (now : World) (a : Activation) : Prop :=
  ∀ k, Agrees (now.tag? a.node k) (a.active.tag? a.node k)

/-- What a facility shows when the innermost of some open nodes has become active. -/
inductive Mirrors (b : BridgeId) (a : Activation) (path : List Activation) : Prop
  /-- Nothing, if no entry phase changed a tag. -/
  | nothing : (∀ x ∈ path, ¬ x.Changed) → (a.active.bridge b).current = [] →
    ((∀ x ∈ path, x.Kept a.active) → ∀ k, a.active.tag? a.node k = none) → Mirrors b a path
  /-- Else the tags of the innermost node whose entry phase changed one, as they were when
  it had become active. They are those of the new node if the nodes from there on are
  entered beneath each other and have kept their tags. -/
  | latest {inner outer : List Activation} {m : Activation} : path = inner ++ m :: outer →
    (∀ x ∈ inner, ¬ x.Changed) → m.Changed → m.active.ListsTags m.node (a.active.bridge b).current →
    ((inner ++ [m]).IsChain (fun x y => x.parent = some y.node) → (∀ x ∈ inner ++ [m], x.Kept a.active) →
      ∀ k, Agrees (a.active.tag? a.node k) (m.active.tag? m.node k)) → Mirrors b a path

/-! ## Tags of frames -/

namespace Frame

def tag? (f : Frame) (k : String) : Option Value :=
  if f.policy.isTag k && f.policy.flowsDown k then f.view k else none

/-- What a frame inherits of a tag. -/
def inheritedTag? (f : Frame) (k : String) : Option Value :=
  if f.policy.isTag k && f.policy.flowsDown k then f.inherited k else none

end Frame

variable {S : Setting} {w : World} {o q m : Opened} {f g : Frame} {n : Node} {token : Option Token}
  {path inner outer : List Opened} {fs : List Frame} {tags : Tags} {k : String}

theorem Stands.tag? {l : Level} {t : ThreadId} (h : Stands w t l f) (k : String) :
    Agrees (w.tag? l.node k) (f.tag? k) := by
  obtain ⟨hn, -, ho, -, hf⟩ := h
  rw [World.tag?_eq hn (Phase.ne_closed_of_isOpen ho), Frame.tag?, hf.policy]
  split
  · exact hf.view k
  · exact .refl none

/-- A root inherits no tags, a child those of the node right below it. -/
theorem LinksTo.inheritedTag? {link : Option NodeId} (h : LinksTo link f path fs) :
    link = none ∧ (∀ k, f.inheritedTag? k = none) ∨
      ∃ q below g gs, path = q :: below ∧ fs = g :: gs ∧ link = some q.began.node ∧
        ∀ k, f.inheritedTag? k = g.tag? k := by
  cases h with
  | root hi => exact .inl ⟨rfl, fun k => by simp [Frame.inheritedTag?, hi]⟩
  | child hi hp =>
    refine .inr ⟨_, _, _, _, rfl, rfl, rfl, fun k => ?_⟩
    unfold Frame.inheritedTag? Frame.tag?
    rw [hp, hi, Frame.inherited_child]
    cases Policy.flowsDown _ k <;> simp

/-! ## What a node published -/

namespace Began

theorem changed_iff (h : Began S o f n token) : o.began.Changed ↔ n.Changes := by
  constructor
  · rintro ⟨m, hm, hc⟩
    cases h.ready.symm.trans hm
    exact hc
  · exact fun hc => ⟨n, h.ready, hc⟩

theorem parent (h : Began S o f n token) : o.began.parent = o.link := by
  rw [Activation.parent, h.active]
  exact h.link

theorem tag? (h : Began S o f n token) (k : String) :
    o.began.active.tag? o.began.node k = if n.policy.isTag k && n.policy.flowsDown k then n.value k else none :=
  World.tag?_eq h.active nofun k

/-- A node that opened a scope for its tags listed those that it had when it became active. -/
theorem listsTags (h : Began S o f n token) : o.began.active.ListsTags o.began.node n.activated.tags where
  sorted := n.activated.pairwise_tags
  mem := by
    intro k s
    rw [Node.mem_tags_activated h.sound h.onEntry, h.tag?]
    split <;> rename_i hc <;> simp [hc]

theorem tagsOn_scope (h : Began S o f n token) (hS : ∀ x, S.allowed x → x = some S.bridge) :
    tagsOn S.bridge o.scope = n.activated.changedTags := by
  have bridge : n.activated.bridge = some S.bridge := hS _ h.allowed
  rw [h.scope, Node.ownScope, bridge]
  cases n.activated.changedTags <;> simp [tagsOn]

theorem not_changed (h : Began S o f n token) (hS : ∀ x, S.allowed x → x = some S.bridge)
    (hs : tagsOn S.bridge o.scope = none) : ¬ o.began.Changed := by
  rw [h.tagsOn_scope hS, Node.changedTags_eq_none] at hs
  rwa [h.changed_iff]

theorem changed (h : Began S o f n token) (hS : ∀ x, S.allowed x → x = some S.bridge)
    (hs : tagsOn S.bridge o.scope = some tags) : o.began.Changed ∧ o.began.active.ListsTags o.began.node tags := by
  rw [h.tagsOn_scope hS, Node.changedTags_eq] at hs
  exact ⟨h.changed_iff.2 hs.1, hs.2 ▸ h.listsTags⟩

/-- A node whose entry phase changed no tag has the tags that it inherited. -/
theorem tag?_of_not_changed (h : Began S o f n token) (hc : ¬ o.began.Changed) (k : String) :
    Agrees (o.began.active.tag? o.began.node k) (f.inheritedTag? k) := by
  rw [h.tag?, Frame.inheritedTag?, ← h.policy]
  split <;> rename_i ht
  · rw [Bool.and_eq_true] at ht
    exact (Node.agrees_of_not_changes (h.changed_iff.not.1 hc) ht.1 ht.2).trans (h.inherited k)
  · exact .refl none

end Began

/-! ## Along the open nodes -/

/-- Either no entry phase changed a tag and no scope was opened, or the innermost scope is
that of the innermost node whose entry phase changed one. -/
theorem Around.latest (h : Around S w path fs) (hS : ∀ x, S.allowed x → x = some S.bridge) :
    (∀ o ∈ path, ¬ o.began.Changed) ∧ path.filterMap (fun o => tagsOn S.bridge o.scope) = [] ∨
    ∃ inner m outer tags, path = inner ++ m :: outer ∧ (∀ o ∈ inner, ¬ o.began.Changed) ∧ m.began.Changed ∧
      m.began.active.ListsTags m.began.node tags ∧
      (path.filterMap fun o => tagsOn S.bridge o.scope).head? = some tags := by
  have began := h.began
  clear h
  induction began with
  | nil => exact .inl ⟨List.forall_mem_nil _, rfl⟩
  | @cons o f path fs ho _ ih =>
    obtain ⟨n, token, began⟩ := ho
    rw [List.filterMap_cons]
    cases hs : tagsOn S.bridge o.scope with
    | some tags =>
      obtain ⟨changed, lists⟩ := began.changed hS hs
      exact .inr ⟨[], o, path, tags, rfl, List.forall_mem_nil _, changed, lists, rfl⟩
    | none =>
      have first := began.not_changed hS hs
      rcases ih with ⟨none, empty⟩ | ⟨inner, m, outer, tags, rfl, none, changed, lists, head⟩
      · exact .inl ⟨List.forall_mem_cons.2 ⟨first, none⟩, empty⟩
      · exact .inr ⟨o :: inner, m, outer, tags, rfl, List.forall_mem_cons.2 ⟨first, none⟩, changed, lists, head⟩

/-- A node whose entry phase changed no tag has none, if it is a root, or those that the
node right below it shows. -/
theorem Began.tag?_source (h : Began S o f n token) (hc : ¬ o.began.Changed) (links : LinksTo o.link f path fs)
    (stands : List.Forall₂ (Stands w S.thread) (path.map Opened.level) fs) :
    o.began.parent = none ∧ (∀ k, o.began.active.tag? o.began.node k = none) ∨
      ∃ q below, path = q :: below ∧ o.began.parent = some q.began.node ∧
        ∀ k, Agrees (o.began.active.tag? o.began.node k) (w.tag? q.began.node k) := by
  rw [h.parent]
  have inherits := fun k => h.tag?_of_not_changed hc k
  rcases links.inheritedTag? with ⟨hl, root⟩ | ⟨q, below, g, gs, rfl, rfl, hl, child⟩
  · exact .inl ⟨hl, fun k => Agrees.none_iff.1 (root k ▸ inherits k)⟩
  · have stand := (List.forall₂_cons.1 stands).1
    exact .inr ⟨q, below, rfl, hl, fun k => (inherits k).trans ((child k).symm ▸ (stand.tag? k).symm)⟩

/-- Where no entry phase changed a tag and tags are kept, there are none. -/
theorem tag?_eq_none_of_kept (began : List.Forall₂ (fun o f => ∃ n token, Began S o f n token) path fs)
    (linked : Linked path fs) (stands : List.Forall₂ (Stands w S.thread) (path.map Opened.level) fs)
    (hc : ∀ o ∈ path, ¬ o.began.Changed) (kept : ∀ o ∈ path, o.began.Kept w) :
    ∀ o ∈ path, ∀ k, o.began.active.tag? o.began.node k = none := by
  induction linked with
  | nil => exact List.forall_mem_nil _
  | @cons o f path fs links _ ih =>
    obtain ⟨⟨n, token, first⟩, began⟩ := List.forall₂_cons.1 began
    have stands := (List.forall₂_cons.1 stands).2
    rw [List.forall_mem_cons] at hc kept
    have below := ih began stands hc.2 kept.2
    refine List.forall_mem_cons.2 ⟨fun k => ?_, below⟩
    rcases first.tag?_source hc.1 links stands with ⟨-, root⟩ | ⟨q, _, rfl, -, child⟩
    · exact root k
    · have shown := kept.2 q List.mem_cons_self k
      rw [below q List.mem_cons_self k, Agrees.none_iff] at shown
      exact Agrees.none_iff.1 (shown ▸ child k)

/-- Tags that are kept come down from the innermost node whose entry phase changed one. -/
theorem tag?_agrees_of_kept (began : List.Forall₂ (fun o f => ∃ n token, Began S o f n token) path fs)
    (linked : Linked path fs) (stands : List.Forall₂ (Stands w S.thread) (path.map Opened.level) fs)
    (hp : path = inner ++ m :: outer) (hc : ∀ o ∈ inner, ¬ o.began.Changed)
    (chain : ((inner ++ [m]).map Opened.began).IsChain fun x y => x.parent = some y.node)
    (kept : ∀ o ∈ inner ++ [m], o.began.Kept w) (ho : path.head? = some o) (k : String) :
    Agrees (o.began.active.tag? o.began.node k) (m.began.active.tag? m.began.node k) := by
  induction inner generalizing o path fs with
  | nil =>
    subst hp
    cases ho
    exact .refl _
  | cons x inner ih =>
    subst hp
    cases ho
    cases linked with
    | cons links linked =>
      obtain ⟨⟨n, token, first⟩, began⟩ := List.forall₂_cons.1 began
      have stands := (List.forall₂_cons.1 stands).2
      rw [List.forall_mem_cons] at hc
      have kept' : ∀ o ∈ inner ++ [m], o.began.Kept w := fun o ho => kept o (List.mem_cons_of_mem _ ho)
      -- The next node is the parent.
      obtain ⟨q, rest, rest', hq, hq'⟩ : ∃ q rest rest', inner ++ [m] = q :: rest ∧ inner ++ m :: outer = q :: rest' := by
        cases inner with
        | nil => exact ⟨m, _, _, rfl, rfl⟩
        | cons q inner => exact ⟨q, _, _, rfl, rfl⟩
      rw [List.cons_append, hq, List.map_cons, List.map_cons, List.isChain_cons_cons] at chain
      obtain ⟨parent, chain⟩ := chain
      have below := ih began linked stands rfl hc.2 (by rw [hq]; exact chain) kept' (congrArg List.head? hq')
      rcases first.tag?_source hc.1 links stands with ⟨root, -⟩ | ⟨q', _, he, -, child⟩
      · rw [root] at parent
        cases parent
      · obtain ⟨rfl, -⟩ := List.cons.inj (hq'.symm.trans he)
        exact ((child k).trans (kept' q (hq ▸ List.mem_cons_self) k)).trans below

/-- A facility behind which no tags are ambient shows what it should when the innermost
open node has just become active. -/
theorem Live.mirrors (h : Live S o.began.active (o :: path) (f :: fs)) (hS : ∀ x, S.allowed x → x = some S.bridge)
    (hn : S.outside.headD [] = []) : Mirrors S.bridge o.began ((o :: path).map Opened.began) := by
  have stands := h.sim.stands
  have current : (o.began.active.bridge S.bridge).current =
      ((o :: path).filterMap (fun o => tagsOn S.bridge o.scope) ++ S.outside).headD [] := by
    obtain ⟨k, hk, scopes⟩ := h.around.facility
    rw [hk, ← scopes]
    rfl
  rcases h.around.latest hS with ⟨hc, empty⟩ | ⟨inner, m, outer, tags, hp, hc, changed, lists, head⟩
  · have unchanged : ∀ x ∈ (o :: path).map Opened.began, ¬ x.Changed := List.forall_mem_map.2 hc
    refine .nothing unchanged ?_ fun kept => ?_
    · rw [current, empty]
      exact hn
    · exact tag?_eq_none_of_kept h.around.began h.around.linked stands hc (List.forall_mem_map.1 kept) o
        List.mem_cons_self
  · have shown : (o.began.active.bridge S.bridge).current = tags := by
      obtain ⟨rest, hr⟩ := List.head?_eq_some_iff.1 head
      rw [current, hr]
      rfl
    have path_eq : (o :: path).map Opened.began = inner.map Opened.began ++ m.began :: outer.map Opened.began := by
      rw [hp, List.map_append, List.map_cons]
    have unchanged : ∀ x ∈ inner.map Opened.began, ¬ x.Changed := List.forall_mem_map.2 hc
    refine .latest path_eq unchanged changed (shown ▸ lists) fun chain kept => ?_
    have upTo : inner.map Opened.began ++ [m.began] = (inner ++ [m]).map Opened.began := by
      rw [List.map_append, List.map_singleton]
    rw [upTo] at chain kept
    exact tag?_agrees_of_kept h.around.began h.around.linked stands hp hc chain (List.forall_mem_map.1 kept) rfl

/-- **What a tagging facility shows.** Nodes are entered through an engine with a recording
facility behind which no tags are ambient, and used by properly nested programs. Every
operation succeeds, and whenever a node has become active the facility shows what
`Mirrors` says. -/
theorem tags_mirrored (h : Reachable w) {id : EngineId} {e : Engine} (he : w.engines.get? id = some e) {b : BridgeId}
    (hb : e.bridge = some b) {f : Facility} (hf : w.bridge b = .recording f) (hn : f.current = []) (t : ThreadId)
    (ps : List (Call × Body false)) :
    (∀ x ∈ (live (fun _ => .through e) t ps w).steps, x.1 = .ok ()) ∧
      ∀ a outer, (.ok (), .active (a :: outer)) ∈ (live (fun _ => .through e) t ps w).steps →
        Mirrors b a (a :: outer) := by
  let S : Setting := ⟨fun _ => .through e, t, (w.stack t).entries, fun x => x = some b, b, f.scopes⟩
  have start : Live S w [] [] := .start h (fun _ => ⟨id, he⟩) rfl hf rfl
  obtain ⟨steps, hs, sound⟩ := (live_sim ps (fun _ => hb) start).steps
  have sound : ∀ x ∈ (live (fun _ => .through e) t ps w).steps, x.1 = .ok () ∧ x.2.Sound S := by
    intro x hx
    exact sound x (by rwa [hs] at hx)
  refine ⟨fun x hx => (sound x hx).1, fun a outer hx => ?_⟩
  obtain ⟨o, os, g, gs, path, active⟩ := (sound _ hx).2
  obtain ⟨rfl, rfl⟩ := List.cons.inj path
  exact active.mirrors (fun _ hx => hx) hn

/-! ## A tag written too late -/

/-- A process with a facility and an engine that uses it. -/
def recorded : World :=
  ((World.start 0).perform 0 (.addBridge .fresh)).perform 0 (.addEngine Config.default (some 1) Codec.standard)

/-- That engine. What is built in makes the service a tag that flows down. -/
def plainEngine : Engine := ⟨⟨2, Settings.builtin⟩, [], some 1, Codec.standard, 2⟩

/-- A root names its service on entry and renames it when it is active; then it has a child. -/
def renamedService : List (Call × Body false) :=
  [(⟨"root", true, plainEngine.policy, [("service", some (.text "a"))]⟩,
    .write "service" (some (.text "b")) (.call ⟨"child", false, plainEngine.policy, []⟩ .done .done))]

theorem reachable_recorded : Reachable recorded := ((Reachable.start 0).step 0 _).step 0 _

theorem engines_recorded : recorded.engines.get? 3 = some plainEngine := by
  have resolved : Config.default.settings.resolve = Settings.builtin := by
    simp [Config.default, Settings.empty, Settings.resolve, Settings.defaults, Settings.sortedTags, Dict.sorted, Dict.empty]
  show some (Engine.mk ⟨2, Config.default.settings.resolve⟩ _ _ _ _) = _
  rw [resolved]
  rfl

/-- The child has the new name, and the facility shows the old one. -/
theorem step_renamedService : ∃ a r,
    (.ok (), .active [a, r]) ∈ (live (fun _ => .through plainEngine) 0 renamedService recorded).steps ∧
      a.active.tag? a.node "service" = some (.text "b") ∧ (a.active.bridge 1).current = [("service", "a")] := by
  refine ⟨_, _, List.mem_of_getElem? (i := 5) rfl, rfl, ?_⟩
  show List.filterMap (fun e : String × Value => if Policy.isTag ⟨2, Settings.builtin⟩ e.1 then
    e.2.wireText.map fun t => (e.1, t) else none) (List.mergeSort [("service", .text "a")] _) = _
  rw [List.mergeSort_singleton]
  rfl

/-- What it shows are the tags that the root had when it became active. -/
theorem tags_mirrored_renamedService : ∃ a r,
    (.ok (), .active [a, r]) ∈ (live (fun _ => .through plainEngine) 0 renamedService recorded).steps ∧
      Mirrors 1 a [a, r] ∧ (a.active.bridge 1).current = [("service", "a")] := by
  obtain ⟨a, r, step, -, current⟩ := step_renamedService
  obtain ⟨-, mirrors⟩ := tags_mirrored reachable_recorded engines_recorded rfl
    (show recorded.bridge 1 = .recording ⟨[], []⟩ from rfl) rfl 0 renamedService
  exact ⟨a, r, step, mirrors a [r] step, current⟩

/-- The facility need not show the tags of the node that has just become active. -/
theorem tags_not_mirrored :
    ¬ ∀ (w : World) (id : EngineId) (e : Engine) (b : BridgeId) (f : Facility), Reachable w →
      w.engines.get? id = some e → e.bridge = some b → w.bridge b = .recording f → f.current = [] →
      ∀ (t : ThreadId) (ps : List (Call × Body false)) (a : Activation) (outer : List Activation),
        (.ok (), .active (a :: outer)) ∈ (live (fun _ => .through e) t ps w).steps →
          a.active.ListsTags a.node (a.active.bridge b).current := by
  intro mirrored
  obtain ⟨a, r, step, tag, current⟩ := step_renamedService
  have lists := mirrored recorded 3 plainEngine 1 ⟨[], []⟩ reachable_recorded engines_recorded rfl rfl rfl 0
    renamedService a [r] step
  have shown : ("service", "b") ∈ (a.active.bridge 1).current := (lists.mem _ _).2 ⟨.text "b", tag, rfl⟩
  rw [current] at shown
  revert shown
  decide

end Nested

end Ambient
