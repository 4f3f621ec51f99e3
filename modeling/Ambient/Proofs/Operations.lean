import Ambient.Proofs.Action
import Ambient.Proofs.Snapshot

/-
What the operations of a process do to its nodes, and to who keeps them alive.
Most leave the nodes alone (`World.SameNodes`); the rest change one node, and a
close may change the parent too: `World.close_flows` tells when the writes of
the child flow into it, `World.close_cases` that nothing else can happen.
-/

namespace Ambient.World

variable {w w' : World} {t : ThreadId} {id : NodeId} {n : Node}

/-- The nodes and their numbering are the same. -/
structure SameNodes (w w' : World) : Prop where
  nodes : w'.nodes = w.nodes
  lastNode : w'.lastNode = w.lastNode

theorem SameNodes.refl (w : World) : SameNodes w w := ⟨rfl, rfl⟩

theorem SameNodes.trans {w₁ w₂ w₃ : World} (h : SameNodes w₁ w₂) (h' : SameNodes w₂ w₃) : SameNodes w₁ w₃ :=
  ⟨h'.nodes.trans h.nodes, h'.lastNode.trans h.lastNode⟩

@[simp] theorem get?_withNode (w : World) (id x : NodeId) (n : Node) :
    (w.withNode id n).nodes.get? x = if id = x then some n else w.nodes.get? x :=
  Dict.get?_insert ..

theorem get?_withNode_self (w : World) (id : NodeId) (n : Node) : (w.withNode id n).nodes.get? id = some n := by
  rw [get?_withNode, if_pos rfl]

/-! ## Liveness -/

theorem stack_holds_iff : (w.ambient.entries.any fun e => e.2.holds id) = true ↔ ∃ t, (w.stack t).holds id = true := by
  simp only [List.any_eq_true, Prod.exists, stack]
  constructor
  · rintro ⟨t, s, hm, hs⟩
    exact ⟨t, by rw [Dict.mem_entries.1 hm]; exact hs⟩
  · rintro ⟨t, hs⟩
    cases hg : w.ambient.get? t with
    | none => simp [hg, Stack.holds, Stack.empty] at hs
    | some s => exact ⟨t, s, Dict.mem_entries.2 hg, by simpa [hg] using hs⟩

/-- A node is alive while a name, a stack or a table holds it. -/
theorem isAlive_iff : w.isAlive id = true ↔
    (w.holders.entries.any fun e => e.2 == id) = true ∨ (∃ t, (w.stack t).holds id = true) ∨
      (w.tables.entries.any fun e => e.2.holds id) = true := by
  simp only [isAlive, Bool.or_eq_true, stack_holds_iff, or_assoc]

/-- What is held by no more than before is alive only if it was. -/
theorem isAlive_of_holds (h : w'.isAlive id = true) (hh : w'.holders = w.holders) (ht : w'.tables = w.tables)
    (hs : ∀ t, (w'.stack t).holds id = true → (w.stack t).holds id = true) : w.isAlive id = true := by
  rw [isAlive_iff, hh, ht] at h
  exact isAlive_iff.2 (h.imp_right (Or.imp_left fun ⟨t, h⟩ => ⟨t, hs t h⟩))

theorem stack_withStack (w : World) (t u : ThreadId) (s : Stack) :
    (w.withStack t s).stack u = if t = u then s else w.stack u := by
  simp only [stack, withStack, Dict.get?_insert]
  split <;> rfl

/-! ## Operations that leave the nodes alone -/

theorem sameNodes_detach (w : World) (t : ThreadId) (token : Token) : SameNodes w (w.detach t token).world := by
  unfold detach
  split <;> exact ⟨rfl, rfl⟩

theorem sameNodes_detach? (w : World) (t : ThreadId) (token : Option Token) :
    SameNodes w (w.detach? t token).world := by
  cases token with
  | none => exact .refl w
  | some token => exact sameNodes_detach w t token

theorem sameNodes_closeScope? (w : World) (s : Option TagScope) : SameNodes w (w.closeScope? s).1 := by
  cases s <;> exact ⟨rfl, rfl⟩

theorem sameNodes_publish (w : World) (n : Node) : SameNodes w (w.publish n).1 := by
  unfold publish
  split <;> exact ⟨rfl, rfl⟩

theorem sameNodes_dropEngine (w : World) (e : EngineId) : SameNodes w (w.dropEngine e) := by
  unfold dropEngine
  split <;> exact ⟨rfl, rfl⟩

theorem sameNodes_resume (w : World) (t : ThreadId) (table : TableId) (h : Host) :
    SameNodes w (w.resume t table h).1 := by
  have taken : SameNodes w (w.take table h).1 := ⟨rfl, rfl⟩
  unfold resume
  split <;> rename_i hr <;> rw [hr] at taken
  · exact taken
  · exact taken.trans ⟨rfl, rfl⟩

theorem sameNodes_race (w : World) (table : TableId) (h : Host) (n : Nat) :
    SameNodes w (w.race table h n).1 := by
  induction n generalizing w with
  | zero => exact .refl w
  | succ n ih =>
    have taken : SameNodes w (w.take table h).1 := ⟨rfl, rfl⟩
    exact taken.trans (ih _)

theorem sameNodes_storeForPassing (w : World) (table : TableId) (id : NodeId) (singleUse : Bool) (n : Nat) :
    SameNodes w (w.storeForPassing table id singleUse n).1 := by
  induction n generalizing w with
  | zero => exact .refl w
  | succ n ih =>
    have passed : SameNodes w ((w.addHost.1.store table w.addHost.2 id singleUse).1.dropHost w.addHost.2) :=
      ⟨rfl, rfl⟩
    exact passed.trans (ih _)

/-! ## Operations on one node -/

theorem ask_eq_ok {α : Type} {f : Node → Except WrongPhase α} {a : α} :
    w.ask id f = .ok a ↔ ∃ n, w.nodes.get? id = some n ∧ f n = .ok a := by
  unfold ask
  cases w.nodes.get? id with
  | none => simp
  | some n =>
    simp only [Option.some.injEq, exists_eq_left']
    cases f n with
    | error e => exact ⟨nofun, nofun⟩
    | ok b =>
      constructor
      · intro h
        cases h
        rfl
      · intro h
        cases h
        rfl

/-- What a node answers for a key: what it shows, unless it is closed. -/
theorem get_eq_ok {k : String} {v : Option Value} :
    w.get id k = .ok v ↔ ∃ n, w.nodes.get? id = some n ∧ n.phase ≠ .closed ∧ n.value k = v := by
  simp only [World.get, ask_eq_ok, Node.get_eq_ok]

theorem get_eq (hn : w.nodes.get? id = some n) (hp : n.phase ≠ .closed) (k : String) :
    w.get id k = .ok (n.value k) := get_eq_ok.2 ⟨n, hn, hp, rfl⟩

theorem get_congr (h : w'.nodes.get? id = w.nodes.get? id) (k : String) : w'.get id k = w.get id k := by
  unfold World.get ask
  rw [h]

theorem change_eq {f : Node → Except WrongPhase Node} {n' : Node} (hn : w.nodes.get? id = some n)
    (hf : f n = .ok n') : w.change id f = ⟨.ok (), w.withNode id n', []⟩ := by
  have := ask_eq_ok.2 ⟨n, hn, hf⟩
  simp [change, this]

theorem set_eq (hn : w.nodes.get? id = some n) (hp : n.phase ≠ .closed) (k : String) (v : Option Value) :
    w.set id k v = ⟨.ok (), w.withNode id (n.write k v), []⟩ :=
  change_eq hn (Node.set_eq_ok.2 ⟨hp, rfl⟩)

/-- A change either happens or is refused without a trace. -/
theorem change_cases (w : World) (id : NodeId) (f : Node → Except WrongPhase Node) :
    (w.change id f).world = w ∨
      ∃ n n', w.nodes.get? id = some n ∧ f n = .ok n' ∧ (w.change id f).world = w.withNode id n' := by
  unfold change
  cases ha : w.ask id f with
  | error e => exact .inl rfl
  | ok n' =>
    obtain ⟨n, hn, hf⟩ := ask_eq_ok.1 ha
    exact .inr ⟨n, n', hn, hf, rfl⟩

theorem change_nodes (w : World) (id : NodeId) (f : Node → Except WrongPhase Node) :
    ∃ nodes, (w.change id f).world = { w with nodes } := by
  rcases change_cases w id f with h | ⟨n, n', -, -, h⟩
  · exact ⟨w.nodes, h⟩
  · exact ⟨_, h⟩

@[simp] theorem withNode_withNode (w : World) (id : NodeId) (n m : Node) :
    (w.withNode id n).withNode id m = w.withNode id m := by
  simp [withNode]

theorem withNode_eq_self (hn : w.nodes.get? id = some n) : w.withNode id n = w := by
  simp [withNode, Dict.insert_eq_self hn]

/-- An open node takes over any entries. -/
theorem setAll_eq (hn : w.nodes.get? id = some n) (hp : n.phase ≠ .closed) (es : List (String × Value)) :
    w.setAll id es = ⟨.ok (), w.withNode id (n.writeAll (es.map fun e => (e.1, some e.2))), []⟩ := by
  unfold setAll
  split
  · rename_i he
    rw [List.isEmpty_iff.1 he, List.map_nil, Node.writeAll, List.foldl_nil, withNode_eq_self hn]
  · exact change_eq hn (Node.setAll_eq_ok.2 ⟨fun _ => hp, rfl⟩)

theorem setAll_nodes (w : World) (id : NodeId) (es : List (String × Value)) :
    ∃ nodes, (w.setAll id es).world = { w with nodes } := by
  unfold setAll
  split
  · exact ⟨w.nodes, rfl⟩
  · exact change_nodes w id _

/-- Reading a request changes a node, and may seal a span context. -/
theorem readDown_nodes (w : World) (id : NodeId) (c : Codec) (h : Headers) :
    ∃ nodes lastObject, (w.readDown id c h).world = { w with nodes, lastObject } := by
  obtain ⟨nodes, hset⟩ := setAll_nodes w id (w.requestEntries (c.decode h))
  simp only [readDown]
  split
  · exact ⟨w.nodes, w.lastObject, rfl⟩
  · rename_i v _ hr
    rw [hr] at hset
    obtain rfl : v = { w with nodes } := hset
    unfold countObject
    split
    · exact ⟨nodes, w.lastObject + 1, rfl⟩
    · exact ⟨nodes, w.lastObject, rfl⟩

theorem makeActive_eq (hn : w.nodes.get? id = some n) (hp : n.phase = .entry) :
    w.makeActive t id =
      let attached := w.attach t id
      let published := attached.1.publish n.activated
      ⟨.ok (), published.1.withNode id { n.activated with token := some attached.2, scope := published.2.1 },
        published.2.2⟩ := by
  have ha : w.ask id Node.activate = .ok n.activated :=
    ask_eq_ok.2 ⟨n, hn, Node.activate_eq_ok.2 ⟨hp, rfl⟩⟩
  simp only [makeActive, ha]

/-! ## Closing -/

/-- A process in which a closing node has given up what it held, before its
writes flow up. -/
def closing (w : World) (t : ThreadId) (id : NodeId) (n : Node) : World :=
  (((w.withNode id n.retire).closeScope? n.scope).1.detach? t n.token).world

theorem close_eq (hn : w.nodes.get? id = some n) (ho : n.phase.isOpen = true) :
    w.close t id = w.closeOpen t id n := by
  have he : n.ensure .whileOpen = .ok () := Node.ensure_eq_ok.2 (by rw [PhaseSet.contains_whileOpen]; exact ho)
  have ha : (w.ask id fun n => do
      n.ensure .whileOpen
      return n) = .ok n := ask_eq_ok.2 ⟨n, hn, bind_eq_ok.2 ⟨(), he, rfl⟩⟩
  simp only [close, ha]

theorem close_refused (hn : ∀ n, w.nodes.get? id = some n → n.phase.isOpen = false) :
    (w.close t id).world = w := by
  unfold close
  split
  · rfl
  · rename_i n ha
    obtain ⟨m, hm, hf⟩ := ask_eq_ok.1 ha
    obtain ⟨_, he, -⟩ := bind_eq_ok.1 hf
    rw [Node.ensure_eq_ok, PhaseSet.contains_whileOpen, hn m hm] at he
    cases he

theorem closeOpen_world : (w.closeOpen t id n).world = ((w.closing t id n).flowUp t id n).1 := rfl

theorem sameNodes_closing (w : World) (t : ThreadId) (id : NodeId) (n : Node) :
    SameNodes (w.withNode id n.retire) (w.closing t id n) :=
  (sameNodes_closeScope? ..).trans (sameNodes_detach? ..)

/-- What decides whether the writes of a closing child flow into a node, apart from
whether that is alive. -/
structure Joined (child : Node) (t : ThreadId) (pid : NodeId) (p : Node) : Prop where
  parent : child.parent = some pid
  synchronous : child.synchronous = true
  thread : p.thread = t
  isOpen : p.phase.isOpen = true

theorem flowUp_eq {child p : Node} {pid : NodeId} (hj : Joined child t pid p) (ha : w.isAlive pid = true)
    (hp : w.nodes.get? pid = some p) :
    (w.flowUp t id child).1 = w.withNode pid (p.absorb child.policy child.upward) := by
  have hpar : w.parentOf child = some pid := by simp [parentOf, hj.parent, ha]
  simp [flowUp, hpar, hp, hj.synchronous, hj.thread, hj.isOpen]

theorem flowUp_cases (w : World) (t : ThreadId) (id : NodeId) (child : Node) :
    (w.flowUp t id child).1 = w ∨
      ∃ pid p, Joined child t pid p ∧ w.isAlive pid = true ∧ w.nodes.get? pid = some p := by
  unfold flowUp
  split
  · exact .inl rfl
  split
  · exact .inl rfl
  rename_i pid hpar _ p hp
  split
  · rename_i hs
    simp only [Bool.and_eq_true, beq_iff_eq] at hs
    split
    · rename_i ho
      obtain ⟨hp', ha⟩ := Option.filter_eq_some_iff.1 hpar
      exact .inr ⟨pid, p, ⟨hp', hs.1, hs.2, ho⟩, ha, hp⟩
    · exact .inl rfl
  · split <;> exact .inl rfl

/-! ### Liveness through a close -/

/-- What flows up changes nodes only. -/
theorem flowUp_nodes (w : World) (t : ThreadId) (id : NodeId) (child : Node) :
    ∃ nodes, (w.flowUp t id child).1 = { w with nodes } := by
  rcases flowUp_cases w t id child with h | ⟨pid, p, hj, ha, hp⟩
  · exact ⟨w.nodes, h⟩
  · exact ⟨_, flowUp_eq hj ha hp⟩

theorem isAlive_flowUp (w : World) (t : ThreadId) (id x : NodeId) (child : Node) :
    (w.flowUp t id child).1.isAlive x = w.isAlive x := by
  obtain ⟨nodes, h⟩ := flowUp_nodes w t id child
  rw [h]
  rfl

theorem holds_of_holds_detach {s : Stack} {seq : Nat} (h : (s.detach seq).holds id = true) :
    s.holds id = true := by
  unfold Stack.detach at h
  split at h
  · exact h
  · rename_i a below hb
    simp only [Stack.holds, List.any_eq_true] at h ⊢
    obtain ⟨b, hm, hid⟩ := h
    have hs : a :: below <:+ s.entries := hb ▸ List.dropWhile_suffix _
    exact ⟨b, hs.subset (List.mem_cons_of_mem _ hm), hid⟩

theorem isAlive_of_detach {token : Token} (h : (w.detach t token).world.isAlive id = true) :
    w.isAlive id = true := by
  unfold detach at h
  split at h
  · refine isAlive_of_holds h rfl rfl fun u hu => ?_
    change ((w.withStack t ((w.stack t).detach token.seq)).stack u).holds id = true at hu
    rw [stack_withStack] at hu
    split at hu
    · rename_i he
      exact he ▸ holds_of_holds_detach hu
    · exact hu
  · exact h

/-- A close revives nobody. -/
theorem isAlive_of_close {x : NodeId} (h : (w.close t id).world.isAlive x = true) : w.isAlive x = true := by
  unfold close at h
  split at h
  · exact h
  · rename_i n _
    rw [closeOpen_world, isAlive_flowUp, closing] at h
    have hc : (((w.withNode id n.retire).closeScope? n.scope).1).isAlive x = true := by
      cases ht : n.token with
      | none => simpa only [ht, detach?] using h
      | some token => exact isAlive_of_detach (by simpa only [ht, detach?] using h)
    cases hs : n.scope <;> rw [hs] at hc <;> exact hc

/-- A close changes nodes, stacks and bridges only. -/
theorem close_frame (w : World) (t : ThreadId) (id : NodeId) :
    ∃ nodes ambient bridges, (w.close t id).world = { w with nodes, ambient, bridges } := by
  unfold close
  split
  · exact ⟨w.nodes, w.ambient, w.bridges, rfl⟩
  · rename_i n _
    have scope : ∃ nodes bridges, ((w.withNode id n.retire).closeScope? n.scope).1 = { w with nodes, bridges } := by
      cases n.scope with
      | none => exact ⟨_, w.bridges, rfl⟩
      | some s => exact ⟨_, _, rfl⟩
    have detached : ∀ v : World, ∃ ambient, (v.detach? t n.token).world = { v with ambient } := by
      intro v
      cases n.token with
      | none => exact ⟨v.ambient, rfl⟩
      | some token =>
        simp only [detach?, detach]
        split
        · exact ⟨_, rfl⟩
        · exact ⟨v.ambient, rfl⟩
    obtain ⟨nodes, bridges, hscope⟩ := scope
    obtain ⟨ambient, hdetached⟩ := detached ((w.withNode id n.retire).closeScope? n.scope).1
    obtain ⟨nodes', hflowed⟩ := flowUp_nodes (w.closing t id n) t id n
    refine ⟨nodes', ambient, bridges, ?_⟩
    rw [closeOpen_world, hflowed, closing, hdetached, hscope]

/-- A node that a caller holds under a name stays alive. -/
theorem isAlive_of_held {x : NodeId} (h : (w.holders.entries.any fun e => e.2 == x) = true) :
    (w.close t id).world.isAlive x = true := by
  obtain ⟨nodes, ambient, bridges, hw⟩ := close_frame w t id
  exact isAlive_iff.2 (.inl (by rw [hw]; exact h))

/-! ### The two outcomes of a close -/

theorem get?_closing (w : World) (t : ThreadId) (id x : NodeId) (n : Node) :
    (w.closing t id n).nodes.get? x = if id = x then some n.retire else w.nodes.get? x := by
  rw [(sameNodes_closing w t id n).nodes, get?_withNode]

theorem lastNode_close (w : World) (t : ThreadId) (id : NodeId) : (w.close t id).world.lastNode = w.lastNode := by
  obtain ⟨nodes, ambient, bridges, hw⟩ := close_frame w t id
  rw [hw]

/-- The writes of a closing child flow into an open parent that is still alive when
the child has given up its attachment. -/
theorem close_flows {p : Node} {pid : NodeId} (hn : w.nodes.get? id = some n) (ho : n.phase.isOpen = true)
    (hp : w.nodes.get? pid = some p) (hne : pid ≠ id) (hj : Joined n t pid p)
    (ha : (w.close t id).world.isAlive pid = true) (x : NodeId) :
    (w.close t id).world.nodes.get? x =
      if pid = x then some (p.absorb n.policy n.upward)
      else if id = x then some n.retire else w.nodes.get? x := by
  rw [close_eq hn ho, closeOpen_world] at ha ⊢
  rw [isAlive_flowUp] at ha
  have hp' : (w.closing t id n).nodes.get? pid = some p := by rw [get?_closing, if_neg hne.symm, hp]
  rw [flowUp_eq hj ha hp', get?_withNode, get?_closing]

/-- A close changes its node, and beside it at most a parent that its writes flow into. -/
theorem close_cases (hn : w.nodes.get? id = some n) (ho : n.phase.isOpen = true) :
    (∀ x, (w.close t id).world.nodes.get? x = if id = x then some n.retire else w.nodes.get? x) ∨
      ∃ pid p, pid ≠ id ∧ w.nodes.get? pid = some p ∧ Joined n t pid p ∧
        (w.close t id).world.isAlive pid = true := by
  rw [close_eq hn ho, closeOpen_world]
  rcases flowUp_cases (w.closing t id n) t id n with h | ⟨pid, p, hj, ha, hp⟩
  · exact .inl fun x => by rw [h, get?_closing]
  · rw [get?_closing] at hp
    split at hp
    · -- A node that is its own parent is closed by now.
      cases hp
      exact absurd hj.isOpen (by simp [Node.retire, Phase.isOpen])
    · rename_i hne
      exact .inr ⟨pid, p, fun he => hne he.symm, hp, hj, by rw [isAlive_flowUp]; exact ha⟩

/-- A node that was open is closed afterwards, and has given up all it held. -/
theorem get?_close (hn : w.nodes.get? id = some n) (ho : n.phase.isOpen = true) :
    (w.close t id).world.nodes.get? id = some n.retire := by
  rcases close_cases hn ho with h | ⟨pid, p, hne, hp, hj, ha⟩
  · exact (h id).trans (if_pos rfl)
  · rw [close_flows hn ho hp hne hj ha, if_neg hne, if_pos rfl]

end Ambient.World
