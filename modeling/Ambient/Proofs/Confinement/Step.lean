import Ambient.Proofs.Confinement.Veil
import Ambient.Proofs.Invariant
import Ambient.Proofs.Report

/-
Processes that are the same but for the values that one node has under one key
(`World.Alike`). Where the policy of the node keeps the key, an action does the
same to two such processes and is reported alike (`World.Alike.step`), also if it
writes different values under that key of that node.
-/

namespace Ambient

/-- A node of a process in which a key of node `N` is veiled; `id` is its number. -/
def Node.veilAt (N : NodeId) (k : String) (id : NodeId) (n : Node) : Node := if id = N then n.veil k else n

namespace World

/-- A process with other nodes. -/
def withNodes (w : World) (nodes : Dict NodeId Node) : World := { w with nodes }

/-- A process in which a key of node `N` is veiled. -/
def veil (N : NodeId) (k : String) (w : World) : World := w.withNodes (w.nodes.map (Node.veilAt N k))

/-- Two processes that differ at most in the values that node `N` has under a key. -/
def Alike (N : NodeId) (k : String) (w w' : World) : Prop := w.veil N k = w'.veil N k

/-- The policy of node `N` keeps a key, if there is such a node. -/
def Keeps (w : World) (N : NodeId) (k : String) : Prop := ∀ n, w.nodes.get? N = some n → n.policy.Keeps k

end World

namespace Node

variable {N id : NodeId} {k : String} {n m : Node}

@[simp] theorem veilAt_self (N : NodeId) (k : String) (n : Node) : n.veilAt N k N = n.veil k := if_pos rfl

theorem veilAt_of_ne (h : id ≠ N) : n.veilAt N k id = n := if_neg h

/-- What does not see the veil is the same of alike nodes. -/
theorem eq_of_veilAt_eq {α : Type} {g : Node → α} (h : n.veilAt N k id = m.veilAt N k id)
    (hg : id = N → g (n.veil k) = g n ∧ g (m.veil k) = g m) : g n = g m := by
  by_cases hid : id = N
  · subst hid
    rw [veilAt_self, veilAt_self] at h
    rw [← (hg rfl).1, ← (hg rfl).2, h]
  · rw [veilAt_of_ne hid, veilAt_of_ne hid] at h
    rw [h]

/-- Changes that do the same behind the veil keep nodes alike. -/
theorem veilAt_congr {f : Node → Node} (h : n.veilAt N k id = m.veilAt N k id)
    (hf : id = N → (f (n.veil k)).veil k = (f n).veil k ∧ (f (m.veil k)).veil k = (f m).veil k) :
    (f n).veilAt N k id = (f m).veilAt N k id := by
  refine eq_of_veilAt_eq (g := fun n => (f n).veilAt N k id) h fun hid => ?_
  subst hid
  simpa only [veilAt_self] using hf rfl

/-- Alike nodes differ in their writes at most. -/
theorem exists_writes_of_veilAt_eq (h : n.veilAt N k id = m.veilAt N k id) :
    ∃ ws, m = { n with writes := ws } := by
  have rest : ∀ n : Node, { n.veilAt N k id with writes := m.writes } = { n with writes := m.writes } := by
    intro n
    unfold veilAt
    split <;> rfl
  exact ⟨m.writes, by rw [← rest n, h, rest m]⟩

end Node

namespace World

variable {w w' : World} {N id : NodeId} {k : String} {t : ThreadId} {n : Node}

/-- Results that are the same once they are mapped. -/
theorem cases_of_map_eq {ε α β : Type} {f : α → β} {x y : Except ε α} (h : x.map f = y.map f) :
    (∃ e, x = .error e ∧ y = .error e) ∨ ∃ a b, x = .ok a ∧ y = .ok b ∧ f a = f b := by
  match x, y, h with
  | .error _, .error _, h =>
    cases h
    exact .inl ⟨_, rfl, rfl⟩
  | .ok a, .ok b, h => exact .inr ⟨a, b, rfl, rfl, Except.ok.inj h⟩

theorem get?_veil (w : World) (N : NodeId) (k : String) (id : NodeId) :
    (w.veil N k).nodes.get? id = (w.nodes.get? id).map (Node.veilAt N k id) := Dict.get?_map ..

theorem veil_withNode (w : World) (N : NodeId) (k : String) (id : NodeId) (n : Node) :
    (w.withNode id n).veil N k = (w.veil N k).withNode id (n.veilAt N k id) :=
  congrArg w.withNodes (Dict.map_insert ..)

namespace Alike

theorem refl (w : World) : Alike N k w w := rfl

theorem get? (h : Alike N k w w') (id : NodeId) :
    (w.nodes.get? id).map (Node.veilAt N k id) = (w'.nodes.get? id).map (Node.veilAt N k id) := by
  rw [← get?_veil, ← get?_veil, show w.veil N k = w'.veil N k from h]

/-- Alike processes have the same nodes, and these are alike. -/
theorem cases (h : Alike N k w w') (id : NodeId) :
    (w.nodes.get? id = none ∧ w'.nodes.get? id = none) ∨
      ∃ n m, w.nodes.get? id = some n ∧ w'.nodes.get? id = some m ∧ n.veilAt N k id = m.veilAt N k id := by
  have hg := h.get? id
  cases hn : w.nodes.get? id with
  | none =>
    rw [hn] at hg
    exact .inl ⟨rfl, Option.map_eq_none_iff.1 hg.symm⟩
  | some n =>
    rw [hn] at hg
    obtain ⟨m, hm, hv⟩ := Option.map_eq_some_iff.1 hg.symm
    exact .inr ⟨n, m, rfl, hm, hv.symm⟩

/-- Replacing a node by alike ones. -/
theorem withNode {m : Node} (h : Alike N k w w') (hn : n.veilAt N k id = m.veilAt N k id) :
    Alike N k (w.withNode id n) (w'.withNode id m) := by
  unfold Alike
  rw [veil_withNode, veil_withNode, hn, show w.veil N k = w'.veil N k from h]

/-- What alike processes are but for their nodes is the same. -/
theorem eq (h : Alike N k w w') : w' = w.withNodes w'.nodes := by
  have hf : w.withNodes w'.nodes = (w.veil N k).withNodes w'.nodes := rfl
  rw [hf, show w.veil N k = w'.veil N k from h]
  rfl

theorem keeps (h : Alike N k w w') (hk : w.Keeps N k) : w'.Keeps N k := by
  intro m hm
  rcases h.cases N with ⟨-, hm'⟩ | ⟨n, m', hn, hm', hv⟩
  · rw [hm] at hm'
    cases hm'
  · cases hm.symm.trans hm'
    have hp : n.policy = m.policy := Node.eq_of_veilAt_eq hv fun _ => ⟨rfl, rfl⟩
    exact hp ▸ hk n hn

/-- What spares the nodes does the same to alike processes. -/
theorem apply {f : World → World} (hf : ∀ nodes, f (w.withNodes nodes) = (f w).withNodes nodes)
    (h : Alike N k w w') : Alike N k (f w) (f w') := by
  have hw : f w = (f w).withNodes w.nodes := hf w.nodes
  have hw' : f w' = (f w).withNodes w'.nodes := by rw [← hf]; exact congrArg f h.eq
  rw [hw, hw']
  exact congrArg (fun v : World => (f w).withNodes v.nodes) h

end Alike

/-! ## Actions that spare the nodes -/

/-- True of the actions that neither read nor change a node. -/
def sparesNodes : Action → Bool
  | .enter .. | .enterUnder .. | .makeActive _ | .beginExit _ | .close _ | .set .. | .readDown .. | .readUp .. => false
  | _ => true

section WithNodes

variable (w : World) (nodes : Dict NodeId Node)

theorem dropEngine_withNodes (id : EngineId) :
    (w.withNodes nodes).dropEngine id = (w.dropEngine id).withNodes nodes := by
  have he : (w.withNodes nodes).engines.get? id = w.engines.get? id := rfl
  unfold dropEngine
  rw [he]
  cases w.engines.get? id <;> rfl

theorem detach_withNodes (t : ThreadId) (token : Token) : (w.withNodes nodes).detach t token =
    ⟨(w.detach t token).result, (w.detach t token).world.withNodes nodes, (w.detach t token).events⟩ := by
  unfold detach
  split <;> rfl

theorem dropScope_withNodes (t : ThreadId) (token : Token) : (w.withNodes nodes).dropScope t token =
    ((w.dropScope t token).1.withNodes nodes, (w.dropScope t token).2) := by
  unfold dropScope
  rw [detach_withNodes]

theorem unwindScope_withNodes (t : ThreadId) (id : NodeId) : (w.withNodes nodes).unwindScope t id =
    ((w.unwindScope t id).1.withNodes nodes, (w.unwindScope t id).2) := by
  have attached : (w.withNodes nodes).attach t id = ((w.attach t id).1.withNodes nodes, (w.attach t id).2) := rfl
  unfold unwindScope
  rw [attached]
  simp only [dropScope_withNodes]
  rfl

theorem resume_withNodes (t : ThreadId) (table : TableId) (h : Host) : (w.withNodes nodes).resume t table h =
    ((w.resume t table h).1.withNodes nodes, (w.resume t table h).2) := by
  have taken : (w.withNodes nodes).take table h = ((w.take table h).1.withNodes nodes, (w.take table h).2) := rfl
  unfold resume
  rw [taken]
  cases hr : w.take table h with
  | mk w' node => cases node <;> rfl

theorem race_withNodes (table : TableId) (h : Host) (n : Nat) : (w.withNodes nodes).race table h n =
    ((w.race table h n).1.withNodes nodes, (w.race table h n).2) := by
  induction n generalizing w with
  | zero => rfl
  | succ n ih =>
    have taken : (w.withNodes nodes).take table h = ((w.take table h).1.withNodes nodes, (w.take table h).2) := rfl
    simp only [race, taken, ih]

theorem storeForPassing_withNodes (table : TableId) (id : NodeId) (singleUse : Bool) (n : Nat) :
    (w.withNodes nodes).storeForPassing table id singleUse n =
      ((w.storeForPassing table id singleUse n).1.withNodes nodes, (w.storeForPassing table id singleUse n).2) := by
  induction n generalizing w with
  | zero => rfl
  | succ n ih =>
    let stored := w.addHost.1.store table w.addHost.2 id singleUse
    exact congrArg (fun r : World × List Nat × List Event =>
      (r.1, (stored.1.table table).size :: r.2.1, stored.2 ++ r.2.2)) (ih (stored.1.dropHost w.addHost.2))

/-- An action that spares the nodes does the same whatever they are. -/
theorem perform_withNodes {a : Action} (ha : sparesNodes a = true) (t : ThreadId) :
    (w.withNodes nodes).perform t a = (w.perform t a).withNodes nodes ∧
      (w.withNodes nodes).report t a = w.report t a := by
  cases a with
  | applyConfig id c =>
    have he : (w.withNodes nodes).engines.get? id = w.engines.get? id := rfl
    simp only [perform, report, he]
    cases w.engines.get? id <;> exact ⟨rfl, rfl⟩
  | dropEngine id => exact ⟨dropEngine_withNodes w nodes id, rfl⟩
  | detach token =>
    simp only [perform, report, detach_withNodes]
    exact ⟨trivial, rfl⟩
  | dropScope token => simp only [perform, report, dropScope_withNodes, and_self]
  | unwindScope id => simp only [perform, report, unwindScope_withNodes, and_self]
  | resume table h => simp only [perform, report, resume_withNodes, and_self]
  | race table h n => simp only [perform, report, race_withNodes, and_self]
  | storeForPassing table id singleUse n => simp only [perform, report, storeForPassing_withNodes, and_self]
  | enter | enterUnder | makeActive | beginExit | close | set | readDown | readUp => cases ha
  | _ => exact ⟨rfl, rfl⟩

end WithNodes

/-! ## Changes of one node -/

/-- Replies that differ only in a process that is alike. -/
structure AlikeReply (N : NodeId) (k : String) (r r' : Reply Unit) : Prop where
  result : r.result = r'.result
  events : r.events = r'.events
  world : Alike N k r.world r'.world

theorem AlikeReply.report {r r' : Reply Unit} (h : AlikeReply N k r r') : Report.ofReply r = Report.ofReply r' := by
  unfold Report.ofReply
  rw [h.result, h.events]

/-- Alike processes give alike answers to a question that does not see the veil. -/
theorem ask_alike {f g : Node → Except WrongPhase Node} (h : Alike N k w w') (id : NodeId)
    (hf : ∀ n m, w.nodes.get? N = some n → w'.nodes.get? N = some m → n.veil k = m.veil k →
      (f n).map (Node.veil k) = (g m).map (Node.veil k))
    (hne : id ≠ N → f = g) :
    (w.ask id f).map (Node.veilAt N k id) = (w'.ask id g).map (Node.veilAt N k id) := by
  unfold ask
  rcases h.cases id with ⟨hn, hm⟩ | ⟨n, m, hn, hm, hv⟩
  · rw [hn, hm]
  · rw [hn, hm]
    have hl : (f n).map (Node.veilAt N k id) = (g m).map (Node.veilAt N k id) := by
      by_cases hid : id = N
      · subst hid
        have he : Node.veilAt id k id = Node.veil k := funext (Node.veilAt_self id k)
        rw [he] at hv ⊢
        exact hf n m hn hm hv
      · rw [Node.veilAt_of_ne hid, Node.veilAt_of_ne hid] at hv
        rw [hv, hne hid]
    have swap : ∀ x : Except WrongPhase Node, (x.mapError fun e => e.error id).map (Node.veilAt N k id) =
        (x.map (Node.veilAt N k id)).mapError fun e => e.error id := fun x => by cases x <;> rfl
    dsimp only
    rw [swap, swap, hl]

/-- Changes that do the same behind the veil, and are the same for all other nodes. -/
theorem change_alike {f g : Node → Except WrongPhase Node} (h : Alike N k w w') (id : NodeId)
    (hf : ∀ n m : Node, n.veil k = m.veil k → (f n).map (Node.veil k) = (g m).map (Node.veil k))
    (hne : id ≠ N → f = g) : AlikeReply N k (w.change id f) (w'.change id g) := by
  unfold change
  rcases cases_of_map_eq (ask_alike h id (fun n m _ _ => hf n m) hne) with ⟨e, hn, hm⟩ | ⟨n, m, hn, hm, hv⟩
  · rw [hn, hm]
    exact ⟨rfl, rfl, h⟩
  · rw [hn, hm]
    exact ⟨rfl, rfl, h.withNode hv⟩

/-- Behind the veil it does not show which value was written. -/
theorem set_alike (h : Alike N k w w') (id : NodeId) (x : String) {v v' : Option Value}
    (hv : id ≠ N ∨ x ≠ k → v = v') : AlikeReply N k (w.set id x v) (w'.set id x v') :=
  change_alike h id (fun _ _ hn => Node.veil_set hn x fun hx => hv (.inr hx)) fun hid => by rw [hv (.inl hid)]

theorem setAll_alike (h : Alike N k w w') (id : NodeId) (es : List (String × Value)) :
    AlikeReply N k (w.setAll id es) (w'.setAll id es) := by
  unfold setAll
  split
  · exact ⟨rfl, rfl, h⟩
  · exact change_alike h id (fun _ _ hn => Node.veil_setAll hn es) fun _ => rfl

theorem beginExit_alike (h : Alike N k w w') (id : NodeId) :
    AlikeReply N k (w.beginExit id) (w'.beginExit id) :=
  change_alike h id (fun n m hn => by rw [← Node.veil_beginExit, ← Node.veil_beginExit, hn]) fun _ => rfl

theorem readDown_alike (h : Alike N k w w') (id : NodeId) (c : Codec) (hs : Headers) :
    AlikeReply N k (w.readDown id c hs) (w'.readDown id c hs) := by
  have he : w'.requestEntries (c.decode hs) = w.requestEntries (c.decode hs) := by rw [h.eq]; rfl
  obtain ⟨hr, -, hw⟩ := setAll_alike h id (w.requestEntries (c.decode hs))
  have counted : ∀ (v : World) (b : Bool) nodes, (v.withNodes nodes).countObject b = (v.countObject b).withNodes nodes :=
    fun v b nodes => by cases b <;> rfl
  unfold readDown
  dsimp only
  rw [he]
  generalize w.setAll id (w.requestEntries (c.decode hs)) = r at hr hw
  generalize w'.setAll id (w.requestEntries (c.decode hs)) = r' at hr hw
  obtain ⟨result, v, events⟩ := r
  obtain ⟨result', v', events'⟩ := r'
  cases (show result = result' from hr)
  cases result with
  | error e => exact ⟨rfl, rfl, h⟩
  | ok u =>
    exact ⟨rfl, rfl, hw.apply (f := (·.countObject (c.decode hs).span.isSome)) (counted v _)⟩

theorem readUp_alike (h : Alike N k w w') (id : NodeId) (c : Codec) (hs : Headers) :
    AlikeReply N k (w.readUp id c hs) (w'.readUp id c hs) := by
  obtain ⟨hr, -, hw⟩ := setAll_alike h id (c.decode hs).entries.entries
  exact ⟨hr, rfl, hw⟩

/-! ## Entering -/

theorem addNode_alike (h : Alike N k w w') (n : Node) :
    Alike N k (w.addNode n).1 (w'.addNode n).1 ∧ (w.addNode n).2 = (w'.addNode n).2 := by
  have hl : w.lastNode = w'.lastNode := by rw [h.eq]; rfl
  have counted : Alike N k { w with lastNode := w.lastNode + 1 } { w' with lastNode := w'.lastNode + 1 } :=
    h.apply (f := fun w => { w with lastNode := w.lastNode + 1 }) fun _ => rfl
  refine ⟨?_, congrArg (· + 1) hl⟩
  unfold addNode
  rw [hl] at counted ⊢
  exact counted.withNode rfl

theorem rootPolicy_withNodes (w : World) (nodes : Dict NodeId Node) (p : Policy) (found : Tags) :
    (w.withNodes nodes).rootPolicy p found = ((w.rootPolicy p found).1.withNodes nodes, (w.rootPolicy p found).2) := by
  unfold rootPolicy
  dsimp only
  split <;> rfl

theorem enterRoot_alike (h : Alike N k w w') (t : ThreadId) (p : Policy) (b : Option BridgeId) :
    Alike N k (w.enterRoot t p b).1 (w'.enterRoot t p b).1 ∧ (w.enterRoot t p b).2 = (w'.enterRoot t p b).2 := by
  have hb : w'.bridge = w.bridge := by rw [h.eq]; rfl
  have enter : ∀ found : Tags, Alike N k (w.rootPolicy p found).1 (w'.rootPolicy p found).1 ∧
      (w.rootPolicy p found).2 = (w'.rootPolicy p found).2 := fun found =>
    ⟨h.apply (f := fun w => (w.rootPolicy p found).1) fun nodes => by rw [rootPolicy_withNodes],
      by rw [h.eq, rootPolicy_withNodes]⟩
  unfold enterRoot
  dsimp only
  rw [hb, ← (enter _).2]
  exact addNode_alike (enter _).1 _

/-- A child gets the same, whatever is behind the veil. -/
theorem enterChild_alike (h : Alike N k w w') (hk : w.Keeps N k) {pid : NodeId} (t : ThreadId) {m : Node}
    (hn : w.nodes.get? pid = some n) (hm : w'.nodes.get? pid = some m) :
    Alike N k (w.enterChild t pid n).1 (w'.enterChild t pid m).1 ∧
      (w.enterChild t pid n).2 = (w'.enterChild t pid m).2 := by
  have hg := h.get? pid
  rw [hn, hm] at hg
  have hv := Option.some.inj hg
  have down : pid = N → n.policy.flowsDown k = false ∧ m.policy.flowsDown k = false := by
    rintro rfl
    exact ⟨(hk n hn).down, (h.keeps hk m hm).down⟩
  have child : n.child pid t = m.child pid t :=
    Node.eq_of_veilAt_eq (g := fun n => n.child pid t) hv fun hid =>
      ⟨Node.child_veil (down hid).1 .., Node.child_veil (down hid).2 ..⟩
  have remembered : (n.remember t).veilAt N k pid = (m.remember t).veilAt N k pid :=
    Node.veilAt_congr (f := fun n => n.remember t) hv fun hid =>
      ⟨by rw [Node.veil_remember (down hid).1, Node.veil_veil], by rw [Node.veil_remember (down hid).2, Node.veil_veil]⟩
  unfold enterChild
  rw [child]
  exact addNode_alike (h.withNode remembered) _

theorem enter_alike (h : Alike N k w w') (hk : w.Keeps N k) (t : ThreadId) (parent : Option NodeId)
    (p : Policy) (b : Option BridgeId) :
    Alike N k (w.enter t parent p b).1 (w'.enter t parent p b).1 ∧
      (w.enter t parent p b).2 = (w'.enter t parent p b).2 := by
  cases parent with
  | none => exact enterRoot_alike h t p b
  | some pid =>
    simp only [enter]
    rcases h.cases pid with ⟨hn, hm⟩ | ⟨n, m, hn, hm, -⟩
    · rw [hn, hm]
      exact enterRoot_alike h t p b
    · rw [hn, hm]
      exact enterChild_alike h hk t hn hm

theorem seed_alike (h : Alike N k w w') (id : NodeId) (es : List (String × Value)) :
    Alike N k (w.seed id es) (w'.seed id es) := by
  unfold seed
  rcases h.cases id with ⟨hn, hm⟩ | ⟨n, m, hn, hm, hv⟩
  · rw [hn, hm]
    exact h
  · rw [hn, hm]
    exact h.withNode (Node.veilAt_congr (f := fun n => n.seed es) hv fun _ => ⟨Node.veil_seed .., Node.veil_seed ..⟩)

theorem enterUnder_alike (h : Alike N k w w') (hk : w.Keeps N k) (t : ThreadId) (e : Engine)
    (parent : Option NodeId) : Alike N k (w.enterUnder t e parent).1 (w'.enterUnder t e parent).1 ∧
      (w.enterUnder t e parent).2 = (w'.enterUnder t e parent).2 := by
  obtain ⟨hw, hid⟩ := enter_alike h hk t parent e.policy e.bridge
  unfold enterUnder
  dsimp only
  split
  · exact ⟨hid ▸ seed_alike hw _ _, hid⟩
  · exact ⟨hw, hid⟩

/-! ## Becoming active -/

theorem publish_withNodes (w : World) (nodes : Dict NodeId Node) (n : Node) :
    (w.withNodes nodes).publish n = ((w.publish n).1.withNodes nodes, (w.publish n).2) := by
  unfold publish
  split <;> rfl

theorem publish_congr (w : World) (n m : Node) (hb : n.bridge = m.bridge) (ht : n.changedTags = m.changedTags) :
    w.publish n = w.publish m := by
  unfold publish
  rw [hb, ht]

theorem makeActive_alike (h : Alike N k w w') (hk : w.Keeps N k) (t : ThreadId) (id : NodeId) :
    AlikeReply N k (w.makeActive t id) (w'.makeActive t id) := by
  have ha := ask_alike (f := Node.activate) (g := Node.activate) h id (fun n m hn hm hv => by
    rw [← Node.veil_activate (hk n hn).down, ← Node.veil_activate (h.keeps hk m hm).down, hv]) fun _ => rfl
  unfold makeActive
  rcases cases_of_map_eq ha with ⟨e, hn, hm⟩ | ⟨n, m, hn, hm, hv⟩
  · rw [hn, hm]
    exact ⟨rfl, rfl, h⟩
  · rw [hn, hm]
    obtain ⟨n₀, hn₀, hf⟩ := ask_eq_ok.1 hn
    have hpol : n.policy = n₀.policy := by rw [(Node.activate_eq_ok.1 hf).2]; rfl
    obtain ⟨ws, rfl⟩ := Node.exists_writes_of_veilAt_eq hv
    have ht : n.changedTags = { n with writes := ws }.changedTags := by
      refine Node.eq_of_veilAt_eq hv ?_
      rintro rfl
      have hd : n.policy.flowsDown k = false := hpol ▸ (hk n₀ hn₀).down
      exact ⟨Node.changedTags_veil hd, Node.changedTags_veil hd⟩
    have attached : Alike N k (w.attach t id).1 (w'.attach t id).1 :=
      h.apply (f := fun w => (w.attach t id).1) fun _ => rfl
    have token : (w'.attach t id).2 = (w.attach t id).2 := by rw [h.eq]; rfl
    have published : Alike N k ((w.attach t id).1.publish n).1 ((w'.attach t id).1.publish n).1 :=
      attached.apply (f := fun w => (w.publish n).1) fun nodes => by rw [publish_withNodes]
    have scope : ((w'.attach t id).1.publish n).2 = ((w.attach t id).1.publish n).2 := by
      rw [attached.eq, publish_withNodes]
    have put : ∀ (k' : Token) (s : Option TagScope), { n with token := some k', scope := s }.veilAt N k id =
        { n with writes := ws, token := some k', scope := s }.veilAt N k id := by
      intro k' s
      have hset : ∀ n : Node, { n.veil k with token := some k', scope := s }.veil k =
          { n with token := some k', scope := s }.veil k := fun n =>
        congrArg (fun n : Node => { n with token := some k', scope := s }) (Node.veil_veil k n)
      exact Node.veilAt_congr (f := fun n => { n with token := some k', scope := s }) hv fun _ => ⟨hset _, hset _⟩
    have same : (w'.attach t id).1.publish { n with writes := ws } = (w'.attach t id).1.publish n :=
      (publish_congr _ n { n with writes := ws } rfl ht).symm
    refine ⟨rfl, ?_, ?_⟩
    · change ((w.attach t id).1.publish n).2.2 = ((w'.attach t id).1.publish { n with writes := ws }).2.2
      rw [same, scope]
    · change Alike N k
        (((w.attach t id).1.publish n).1.withNode id
          { n with token := some (w.attach t id).2, scope := ((w.attach t id).1.publish n).2.1 })
        (((w'.attach t id).1.publish { n with writes := ws }).1.withNode id
          { n with
            writes := ws, token := some (w'.attach t id).2
            scope := ((w'.attach t id).1.publish { n with writes := ws }).2.1 })
      rw [same, token, scope]
      exact published.withNode (put _ _)

/-! ## Closing -/

theorem closeScope?_withNodes (w : World) (nodes : Dict NodeId Node) (s : Option TagScope) :
    (w.withNodes nodes).closeScope? s = ((w.closeScope? s).1.withNodes nodes, (w.closeScope? s).2) := by
  cases s <;> rfl

theorem detach?_withNodes (w : World) (nodes : Dict NodeId Node) (t : ThreadId) (token : Option Token) :
    (w.withNodes nodes).detach? t token =
      ⟨(w.detach? t token).result, (w.detach? t token).world.withNodes nodes, (w.detach? t token).events⟩ := by
  cases token with
  | none => rfl
  | some token => exact detach_withNodes w nodes t token

/-- What flows up from alike nodes, if it flows into node `N` under a policy that
keeps the key. -/
theorem flowUp_alike (h : Alike N k w w') (t : ThreadId) (id : NodeId) {ws : Writes}
    (hu : n.upward = { n with writes := ws }.upward) (hp : n.parent = some N → n.policy.Keeps k) :
    Alike N k (w.flowUp t id n).1 (w'.flowUp t id { n with writes := ws }).1 ∧
      (w.flowUp t id n).2 = (w'.flowUp t id { n with writes := ws }).2 := by
  have hpar : w'.parentOf { n with writes := ws } = w.parentOf n := by rw [h.eq]; rfl
  unfold flowUp
  rw [hpar]
  cases hq : w.parentOf n with
  | none => exact ⟨h, rfl⟩
  | some pid =>
    dsimp only
    rcases h.cases pid with ⟨hn, hm⟩ | ⟨p, q, hn, hm, hv⟩
    · rw [hn, hm]
      exact ⟨h, rfl⟩
    · obtain ⟨ws', rfl⟩ := Node.exists_writes_of_veilAt_eq hv
      have absorbed : (p.absorb n.policy n.upward).veilAt N k pid =
          ({ p with writes := ws' }.absorb n.policy n.upward).veilAt N k pid := by
        refine Node.veilAt_congr (f := fun p => p.absorb n.policy n.upward) hv ?_
        rintro rfl
        have hd := (hp (Option.filter_eq_some_iff.1 hq).1).down
        exact ⟨Node.veil_absorb hd _, Node.veil_absorb hd _⟩
      rw [hn, hm, ← hu]
      dsimp only
      split
      · split
        · exact ⟨h.withNode absorbed, rfl⟩
        · exact ⟨h, rfl⟩
      · split <;> exact ⟨h, rfl⟩

theorem closeOpen_alike (h : Alike N k w w') (hs : w.Sound) (hk : w.Keeps N k) (t : ThreadId) (id : NodeId)
    {m : Node} (hn : w.nodes.get? id = some n) (hm : w'.nodes.get? id = some m) :
    AlikeReply N k (w.closeOpen t id n) (w'.closeOpen t id m) := by
  have hg := h.get? id
  rw [hn, hm] at hg
  have hv := Option.some.inj hg
  obtain ⟨ws, rfl⟩ := Node.exists_writes_of_veilAt_eq hv
  have hu : n.upward = { n with writes := ws }.upward := by
    refine Node.eq_of_veilAt_eq hv ?_
    rintro rfl
    have hup := (hk n hn).up
    exact ⟨Node.upward_veil hup, Node.upward_veil hup⟩
  -- A child has the policy of its parent.
  have hp : n.parent = some N → n.policy.Keeps k := by
    intro hpar
    obtain ⟨-, p, hpp, hpol⟩ := hs.family hn hpar
    exact hpol ▸ hk p hpp
  have retired : Alike N k (w.withNode id n.retire) (w'.withNode id n.retire) := h.withNode rfl
  have unscoped : Alike N k ((w.withNode id n.retire).closeScope? n.scope).1
      ((w'.withNode id n.retire).closeScope? n.scope).1 :=
    retired.apply (f := fun w => (w.closeScope? n.scope).1) fun nodes => by rw [closeScope?_withNodes]
  have closed : ((w'.withNode id n.retire).closeScope? n.scope).2 =
      ((w.withNode id n.retire).closeScope? n.scope).2 := by
    rw [retired.eq, closeScope?_withNodes]
  have detached : Alike N k (w.closing t id n) (w'.closing t id n) :=
    unscoped.apply (f := fun w => (w.detach? t n.token).world) fun nodes => by rw [detach?_withNodes]
  have result : (((w'.withNode id n.retire).closeScope? n.scope).1.detach? t n.token).result =
      (((w.withNode id n.retire).closeScope? n.scope).1.detach? t n.token).result := by
    rw [unscoped.eq, detach?_withNodes]
  obtain ⟨hw, he⟩ := flowUp_alike detached t id hu hp
  refine ⟨result.symm, ?_, hw⟩
  change _ ++ closeReport id _ ++ ((w.closing t id n).flowUp t id n).2 =
    ((w'.withNode id n.retire).closeScope? n.scope).2 ++
      closeReport id (((w'.withNode id n.retire).closeScope? n.scope).1.detach? t n.token).result ++
      ((w'.closing t id n).flowUp t id { n with writes := ws }).2
  rw [closed, result, he]
  rfl

theorem close_alike (h : Alike N k w w') (hs : w.Sound) (hk : w.Keeps N k) (t : ThreadId) (id : NodeId) :
    AlikeReply N k (w.close t id) (w'.close t id) := by
  have ha := ask_alike h id (k := k) (f := fun n => do n.ensure .whileOpen; return n)
    (g := fun n => do n.ensure .whileOpen; return n) (fun n m _ _ hv => by
      have he : n.ensure .whileOpen = m.ensure .whileOpen := by
        change (n.veil k).ensure .whileOpen = (m.veil k).ensure .whileOpen
        rw [hv]
      rw [he]
      cases m.ensure .whileOpen with
      | error e => rfl
      | ok u => exact congrArg Except.ok hv) fun _ => rfl
  have node : ∀ {v : World} {n : Node}, (v.ask id fun n => do n.ensure .whileOpen; return n) = .ok n →
      v.nodes.get? id = some n := by
    intro v n hn
    obtain ⟨n', hn', hf⟩ := ask_eq_ok.1 hn
    obtain ⟨-, -, he⟩ := bind_eq_ok.1 hf
    exact hn'.trans (congrArg some (Except.ok.inj he))
  unfold close
  rcases cases_of_map_eq ha with ⟨e, hn, hm⟩ | ⟨n, m, hn, hm, -⟩
  · rw [hn, hm]
    exact ⟨rfl, rfl, h⟩
  · rw [hn, hm]
    exact closeOpen_alike h hs hk t id (node hn) (node hm)

/-! ## Every action -/

/-- The actions of two runs at the same place: the same, or writes of any values under
the key of node `N`. -/
inductive DiffersAt (N : NodeId) (k : String) : Action → Action → Prop
  | same (a : Action) : DiffersAt N k a a
  | set (v v' : Option Value) : DiffersAt N k (.set N k v) (.set N k v')

/-- **One step.** Where the policy of a node keeps a key, actions that differ at most in
a value written there do the same to alike processes, and are reported alike. -/
theorem Alike.step (h : Alike N k w w') (hs : w.Sound) (hk : w.Keeps N k) (t : ThreadId) {a b : Action}
    (hd : DiffersAt N k a b) : Alike N k (w.perform t a) (w'.perform t b) ∧ w.report t a = w'.report t b := by
  have reply : ∀ {r r' : Reply Unit}, AlikeReply N k r r' →
      Alike N k r.world r'.world ∧ Report.ofReply r = Report.ofReply r' := fun hr => ⟨hr.world, hr.report⟩
  cases hd with
  | set v v' => exact reply (set_alike h N k fun hne => hne.elim (absurd rfl) (absurd rfl))
  | same a =>
    by_cases ha : sparesNodes a = true
    · have hp := fun nodes => perform_withNodes w nodes ha t
      exact ⟨h.apply (f := fun w => w.perform t a) fun nodes => (hp nodes).1, by rw [h.eq, (hp _).2]⟩
    have held : ∀ {v v' : World} {id id'} (name : String), Alike N k v v' → id = id' →
        Alike N k (v.hold name id) (v'.hold name id') := fun name hv hid =>
      hid ▸ hv.apply (f := fun w => w.hold name _) fun _ => rfl
    cases a with
    | enter name parent p b =>
      obtain ⟨hw, hid⟩ := enter_alike h hk t parent p b
      exact ⟨held name hw hid, congrArg (fun id => Report.handing (.node (some id))) hid⟩
    | enterUnder name engine parent =>
      have he : w'.engines.get? engine = w.engines.get? engine := by rw [h.eq]; rfl
      simp only [perform, report, he]
      cases w.engines.get? engine with
      | none => exact ⟨h, rfl⟩
      | some e =>
        obtain ⟨hw, hid⟩ := enterUnder_alike h hk t e parent
        exact ⟨held name hw hid, congrArg (fun id => Report.handing (.node (some id))) hid⟩
    | makeActive id => exact reply (makeActive_alike h hk t id)
    | beginExit id => exact reply (beginExit_alike h id)
    | close id => exact reply (close_alike h hs hk t id)
    | set id x v => exact reply (set_alike h id x fun _ => rfl)
    | readDown id c hds => exact reply (readDown_alike h id c hds)
    | readUp id c hds => exact reply (readUp_alike h id c hds)
    | _ => exact absurd rfl ha

end World

end Ambient
