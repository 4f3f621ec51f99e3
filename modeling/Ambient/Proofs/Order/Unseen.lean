import Ambient.Proofs.Confinement.Step
import Ambient.Proofs.Lifecycle.Refusal
import Ambient.Proofs.Order.Reordered
import Mathlib.Data.Prod.Lex
import Mathlib.Data.String.Basic

/-
The order in which maps are iterated is not observable (`Node.order_unseen`). Two nodes that
differ in order only write the same headers and publish the same tags, and hand down,
take over and read data that differs in order only. Some loops are stated here once more as
they go, entry by entry: taking over from a child, where each entry meets what the entries
before it left behind (`Node.absorbEach_eq`), and collecting tags, which come in any order
and are sorted at the end (`Node.collectedTags_eq`).
-/

namespace Ambient

namespace Node

variable {n m : Node}

/-! ## Taking over entry by entry -/

/-- One entry of a closed child: it is stored, and whether it outdates the memo is asked of
the node as it is by then. -/
def absorbEntry (p : Policy) (s : Node × Bool) (e : String × Option Value) : Node × Bool :=
  ({ s.1 with writes := s.1.writes.insert e.1 e.2 }, s.2 || s.1.outdates p e)

/-- Entries are taken over one by one, and the memo goes in the end if one outdates it. -/
def absorbEach (n : Node) (p : Policy) (es : List (String × Option Value)) : Node :=
  let s := es.foldl (absorbEntry p) (n, false)
  if s.2 then { s.1 with memo := none } else s.1

theorem any_outdates_insert {p : Policy} {k : String} {es : List (String × Option Value)} (hk : k ∉ es.map Prod.fst)
    (n : Node) (v : Option Value) :
    es.any (Node.outdates { n with writes := n.writes.insert k v } p) = es.any (n.outdates p) := by
  induction es with
  | nil => rfl
  | cons e es ih =>
    rw [List.map_cons, List.mem_cons, not_or] at hk
    have hvalue : Node.value { n with writes := n.writes.insert k v } e.1 = n.value e.1 := by
      rw [value_eq, value_eq, Dict.get?_insert, if_neg hk.1]
    rw [List.any_cons, List.any_cons, ih hk.2, outdates, outdates, hvalue]

/-- What came before an entry was stored under other keys. -/
theorem foldl_absorbEntry (p : Policy) {es : List (String × Option Value)} (hes : (es.map Prod.fst).Nodup) (n : Node)
    (b : Bool) : es.foldl (absorbEntry p) (n, b) =
      ({ n with writes := n.writes.insertAll es }, b || es.any (n.outdates p)) := by
  induction es generalizing n b with
  | nil => simp [Dict.insertAll]
  | cons e es ih =>
    rw [List.map_cons, List.nodup_cons] at hes
    rw [List.foldl_cons, absorbEntry, ih hes.2, any_outdates_insert hes.1, List.any_cons, Bool.or_assoc]
    rfl

theorem absorbEach_eq (n : Node) (p : Policy) {es : List (String × Option Value)} (hes : (es.map Prod.fst).Nodup) :
    n.absorbEach p es = n.absorb p es := by
  unfold absorbEach absorb
  rw [foldl_absorbEntry p hes, Bool.false_or]
  dsimp only
  split <;> rfl

/-! ## Collecting tags -/

/-- The tag of an entry, if its key is a tag and its value can be written. -/
def tag? (n : Node) (e : String × Value) : Option (String × String) :=
  if n.policy.isTag e.1 then e.2.wireText.map fun t => (e.1, t) else none

/-- Pairs of texts in the order of the first, and of the second where the first is the same. -/
def tagOrder (a b : String × String) : Bool := decide (toLex a ≤ toLex b)

/-- The tags of entries in the order in which they come, sorted at the end. -/
def collectedTags (n : Node) (es : List (String × Value)) : Tags := (es.filterMap n.tag?).mergeSort tagOrder

theorem collectedTags_eq {es : List (String × Value)} (h : es.Perm n.postEntry.entries) :
    n.collectedTags es = n.tags := by
  have htrans : ∀ a b c, tagOrder a b = true → tagOrder b c = true → tagOrder a c = true := by
    intro a b c hab hbc
    exact decide_eq_true (le_trans (of_decide_eq_true hab) (of_decide_eq_true hbc))
  have htotal : ∀ a b, (tagOrder a b || tagOrder b a) = true := by
    intro a b
    simp only [tagOrder, Bool.or_eq_true, decide_eq_true_iff]
    exact le_total (toLex a) (toLex b)
  have hsorted : n.tags.Pairwise fun a b => tagOrder a b = true :=
    n.pairwise_tags.imp fun hlt => decide_eq_true (Prod.Lex.toLex_le_toLex.2 (.inl hlt))
  have hperm : (n.collectedTags es).Perm n.tags :=
    (List.mergeSort_perm _ _).trans ((h.trans n.postEntry.sorted_perm.symm).filterMap _)
  refine List.Perm.eq_of_pairwise ?_ (List.pairwise_mergeSort htrans htotal _) hsorted hperm
  intro a b _ _ hab hba
  exact toLex.injective (le_antisymm (of_decide_eq_true hab) (of_decide_eq_true hba))

end Node

/-! ## What is seen from outside -/

theorem Codec.encode_perm {es fs : List (String × Value)} (hes : (es.map Prod.fst).Nodup) (h : es.Perm fs)
    (f : TraceFormat) (span : Option SpanContext) : encode f es span = encode f fs span := by
  unfold encode
  rw [Baggage.encode_perm hes h]

/-- What headers decode to, its entries in another order. -/
structure Decoded.Reordered (d d' : Decoded) : Prop where
  entries : d.entries.Reordered d'.entries
  span : d.span = d'.span
  dropped : d.dropped = d'.dropped

namespace World

variable {w : World} {t : ThreadId} {id : NodeId} {n m : Node} {d d' : Decoded} {es es' : List (String × Value)}

/-- Two replies that are the same, but for the order in one node. -/
structure SameReply (id : NodeId) (r r' : Reply Unit) : Prop where
  result : r.result = r'.result
  events : r.events = r'.events
  world : ∃ (v : World) (n m : Node), n.Reordered m ∧ r.world = v.withNode id n ∧ r'.world = v.withNode id m

theorem downHeaders_reordered (h : n.Reordered m) (w : World) (id : NodeId) (span : Option SpanContext) :
    (w.withNode id n).downHeaders id span = (w.withNode id m).downHeaders id span := by
  have hn := w.get?_withNode_self id n
  have hm := w.get?_withNode_self id m
  by_cases hp : n.phase = .closed
  · unfold downHeaders
    rw [downEntries_closed hn hp, downEntries_closed hm (h.phase.trans hp)]
    rfl
  · rw [downHeaders_eq hn hp, downHeaders_eq hm (by rwa [h.phase]), h.value, h.policy,
      Codec.encode_perm (n.nodup_shown _) (h.shown _)]
    rfl

theorem upHeaders_reordered (h : n.Reordered m) (w : World) (id : NodeId) :
    (w.withNode id n).upHeaders id = (w.withNode id m).upHeaders id := by
  have hn := w.get?_withNode_self id n
  have hm := w.get?_withNode_self id m
  by_cases hp : n.phase = .closed
  · unfold upHeaders
    rw [upEntries_closed hn hp, upEntries_closed hm (h.phase.trans hp)]
    rfl
  · rw [upHeaders_eq hn hp, upHeaders_eq hm (by rwa [h.phase]), h.policy,
      Codec.encode_perm (n.nodup_shown _) (h.shown _)]
    rfl

/-! ### Becoming active -/

/-- Replies of a world that has nodes which differ in order only. -/
theorem SameReply.of_reordered (h : n.Reordered m) (w : World) (result : Except ContextError Unit)
    (events : List Event) : SameReply id ⟨result, w.withNode id n, events⟩ ⟨result, w.withNode id m, events⟩ :=
  ⟨rfl, rfl, w, n, m, h, rfl, rfl⟩

/-- What is published does not depend on the nodes of a world. -/
theorem publish_withNode (w : World) (id : NodeId) (n x : Node) :
    (w.withNode id n).publish x = ((w.publish x).1.withNode id n, (w.publish x).2) := by
  unfold publish
  split <;> rfl

theorem makeActive_refused (hp : n.phase ≠ .entry) (w : World) (t : ThreadId) (id : NodeId) :
    (w.withNode id n).makeActive t id =
      ⟨.error ((WrongPhase.mk .onEntry n.phase).error id), w.withNode id n, []⟩ := by
  have hactivate : n.activate = .error ⟨.onEntry, n.phase⟩ := by
    unfold Node.activate Node.ensure
    cases hphase : n.phase with
    | entry => exact absurd hphase hp
    | _ => rfl
  have hask : (w.withNode id n).ask id Node.activate = .error ((WrongPhase.mk .onEntry n.phase).error id) := by
    simp only [ask, get?_withNode_self, hactivate]
    rfl
  unfold makeActive
  rw [hask]

theorem makeActive_reordered (h : n.Reordered m) (w : World) (t : ThreadId) (id : NodeId) :
    SameReply id ((w.withNode id n).makeActive t id) ((w.withNode id m).makeActive t id) := by
  by_cases hp : n.phase = .entry
  · have hactive := h.activated
    have hbridge : n.activated.bridge = m.activated.bridge := by rw [hactive.rest]
    have hattach : ∀ x : Node, (w.withNode id x).attach t id = ((w.attach t id).1.withNode id x, (w.attach t id).2) :=
      fun _ => rfl
    rw [makeActive_eq (w.get?_withNode_self id n) hp, makeActive_eq (w.get?_withNode_self id m) (h.phase.trans hp)]
    simp only [hattach, publish_withNode, withNode_withNode,
      publish_congr (w.attach t id).1 n.activated m.activated hbridge hactive.changedTags]
    exact .of_reordered (hactive.hold _ _) _ _ _
  · have hp' : m.phase ≠ .entry := by rwa [h.phase]
    rw [makeActive_refused hp, makeActive_refused hp', h.phase]
    exact .of_reordered h _ _ _

/-! ### Reading headers -/

/-- What the headers of a request decode to is read into a node. -/
def takeRequest (w : World) (id : NodeId) (d : Decoded) : Reply Unit :=
  match w.setAll id (w.requestEntries d) with
  | ⟨.error e, _, _⟩ => ⟨.error e, w, d.dropped.map Event.droppedSegment⟩
  | ⟨.ok _, w, _⟩ => ⟨.ok (), w.countObject d.span.isSome, d.dropped.map Event.droppedSegment⟩

/-- What the headers of a response decode to is read into a node. -/
def takeResponse (w : World) (id : NodeId) (d : Decoded) : Reply Unit :=
  let r := w.setAll id d.entries.entries
  ⟨r.result, r.world, d.dropped.map Event.droppedSegment⟩

theorem readDown_eq_takeRequest (w : World) (id : NodeId) (c : Codec) (h : Headers) :
    w.readDown id c h = w.takeRequest id (c.decode h) := rfl

theorem readUp_eq_takeResponse (w : World) (id : NodeId) (c : Codec) (h : Headers) :
    w.readUp id c h = w.takeResponse id (c.decode h) := rfl

/-- A node takes over entries in any order, and then others in the order given. -/
theorem setAll_reordered (h : n.Reordered m) (hes : (es.map Prod.fst).Nodup) (hperm : es.Perm es')
    (rest : List (String × Value)) (w : World) (id : NodeId) :
    SameReply id ((w.withNode id n).setAll id (es ++ rest)) ((w.withNode id m).setAll id (es' ++ rest)) := by
  have hn := w.get?_withNode_self id n
  have hm := w.get?_withNode_self id m
  by_cases hp : n.phase = .closed
  · have hempty : (es ++ rest).isEmpty = (es' ++ rest).isEmpty := (hperm.append_right rest).isEmpty_eq
    rw [setAll_closed hn hp, setAll_closed hm (h.phase.trans hp), hempty]
    exact .of_reordered h _ _ _
  · have hkeys : ((es.map fun e => (e.1, some e.2)).map Prod.fst).Nodup := by
      simpa [List.map_map, Function.comp_def] using hes
    have hwritten := h.writeAll hkeys (hperm.map fun e => (e.1, some e.2))
    rw [setAll_eq hn hp, setAll_eq hm (by rwa [h.phase]), withNode_withNode, withNode_withNode, List.map_append,
      List.map_append, Node.writeAll_append, Node.writeAll_append]
    exact .of_reordered (Node.orderless_write.foldl_same hwritten _) _ _ _

theorem takeResponse_reordered (h : n.Reordered m) (hd : d.Reordered d') (w : World) (id : NodeId) :
    SameReply id ((w.withNode id n).takeResponse id d) ((w.withNode id m).takeResponse id d') := by
  have hset := setAll_reordered h d.entries.nodup hd.entries [] w id
  rw [List.append_nil, List.append_nil] at hset
  unfold takeResponse
  rw [hd.dropped]
  exact ⟨hset.result, rfl, hset.world⟩

theorem countObject_withNode (w : World) (id : NodeId) (n : Node) (made : Bool) :
    (w.withNode id n).countObject made = (w.countObject made).withNode id n := by
  cases made <;> rfl

theorem takeRequest_reordered (h : n.Reordered m) (hd : d.Reordered d') (w : World) (id : NodeId) :
    SameReply id ((w.withNode id n).takeRequest id d) ((w.withNode id m).takeRequest id d') := by
  have hset : SameReply id ((w.withNode id n).setAll id ((w.withNode id n).requestEntries d))
      ((w.withNode id m).setAll id ((w.withNode id m).requestEntries d')) := by
    unfold requestEntries
    rw [← hd.span]
    exact setAll_reordered h d.entries.nodup hd.entries _ w id
  unfold takeRequest
  rw [← hd.span, ← hd.dropped]
  revert hset
  generalize (w.withNode id n).setAll id _ = r
  generalize (w.withNode id m).setAll id _ = r'
  intro hset
  obtain ⟨result, _, _⟩ := r
  obtain ⟨_, _, _⟩ := r'
  obtain ⟨rfl, -, v, x, y, hxy, rfl, rfl⟩ := hset
  cases result with
  | error e => exact .of_reordered h _ _ _
  | ok u =>
    simp only [countObject_withNode]
    exact .of_reordered hxy _ _ _

end World

/-! ## The order is not observable -/

namespace Node

variable {n m : Node}

/-- Two nodes of which the same is seen, and which stay the same but for order. -/
structure SeenAlike (n m : Node) : Prop where
  /-- The headers of requests and of responses are the same texts. -/
  down : ∀ (w : World) (id : NodeId) (span : Option SpanContext),
    (w.withNode id n).downHeaders id span = (w.withNode id m).downHeaders id span
  up : ∀ (w : World) (id : NodeId), (w.withNode id n).upHeaders id = (w.withNode id m).upHeaders id
  /-- The same tags are published when the entry phase ends. -/
  changedTags : n.changedTags = m.changedTags
  makeActive : ∀ (w : World) (t : ThreadId) (id : NodeId),
    World.SameReply id ((w.withNode id n).makeActive t id) ((w.withNode id m).makeActive t id)
  /-- Children get the same data, and the same is remembered for the next one. -/
  handDown : ∀ t : ThreadId, (n.handDown t).Reordered (m.handDown t)
  remember : ∀ t : ThreadId, (n.remember t).Reordered (m.remember t)
  child : ∀ (id : NodeId) (t : ThreadId), (n.child id t).Reordered (m.child id t)
  /-- The writes of a closed child come in any two orders, all at once or one by one. -/
  absorb : ∀ (child : Node) (es es' : List (String × Option Value)), es.Perm child.upward → es'.Perm child.upward →
    (n.absorb child.policy es).Reordered (m.absorb child.policy es') ∧
      n.absorbEach child.policy es = n.absorb child.policy es
  /-- What headers decode to comes in the order of the decoded map or in any other. -/
  readDown : ∀ (w : World) (id : NodeId) (c : Codec) (h : Headers) (d : Decoded), (c.decode h).Reordered d →
    World.SameReply id ((w.withNode id n).readDown id c h) ((w.withNode id m).takeRequest id d)
  readUp : ∀ (w : World) (id : NodeId) (c : Codec) (h : Headers) (d : Decoded), (c.decode h).Reordered d →
    World.SameReply id ((w.withNode id n).readUp id c h) ((w.withNode id m).takeResponse id d)

theorem Reordered.seenAlike (h : n.Reordered m) : n.SeenAlike m where
  down := World.downHeaders_reordered h
  up := World.upHeaders_reordered h
  changedTags := h.changedTags
  makeActive := World.makeActive_reordered h
  handDown := h.handDown
  remember := h.remember
  child := h.child
  absorb child es es' hes hes' := by
    have hkeys : (es.map Prod.fst).Nodup := (hes.map Prod.fst).nodup_iff.2 child.nodup_upward
    exact ⟨h.absorb child.policy hkeys (hes.trans hes'.symm), n.absorbEach_eq child.policy hkeys⟩
  readDown w id c x d hd := by
    rw [World.readDown_eq_takeRequest]
    exact World.takeRequest_reordered h hd w id
  readUp w id c x d hd := by
    rw [World.readUp_eq_takeResponse]
    exact World.takeResponse_reordered h hd w id

/-- **The order of maps is not observable.** Of nodes that differ only in the order in which
their maps are iterated the same is seen, and what becomes of them differs in order only.
Published tags come in strictly increasing order of their keys, in whatever order they were
collected; and a baggage header does not show in which order its entries were given. -/
theorem order_unseen (h : n.Reordered m) :
    n.SeenAlike m ∧
    (∀ tags, n.changedTags = some tags → tags.Pairwise (fun a b => a.1 < b.1) ∧
      ∀ es, es.Perm n.postEntry.entries → n.collectedTags es = tags) ∧
    ∀ es es' : List (String × Value), (es.map Prod.fst).Nodup → es.Perm es' →
      Baggage.encode es = Baggage.encode es' := by
  refine ⟨h.seenAlike, ?_, fun _ _ => Baggage.encode_perm⟩
  intro tags htags
  have hall : n.tags = tags := by
    unfold Node.changedTags at htags
    split at htags
    · exact Option.some.inj htags
    · cases htags
  rw [← hall]
  exact ⟨n.pairwise_tags, fun es hes => collectedTags_eq hes⟩

/-- A node that inherits two values, writes one tag and removes another, and the same node with
its maps turned round. -/
theorem order_unseen_reversed :
    let p : Policy := ⟨1, Dict.ofList [("a", .inferredTag), ("b", .inferredTag)]⟩
    let node (inherited : Data) (writes : Writes) : Node :=
      { fresh p 0 false (some 7) none Dict.empty with inherited, writes }
    let n := node (Dict.ofList [("a", .text "0"), ("b", .text "x")])
      (Dict.ofList [("a", some (.text "1")), ("b", none)])
    let m := node (Dict.ofList [("b", .text "x"), ("a", .text "0")])
      (Dict.ofList [("b", none), ("a", some (.text "1"))])
    n ≠ m ∧ n.Reordered m ∧ n.SeenAlike m ∧ n.activated.changedTags = some [("a", "1")] := by
  intro p node n m
  have h : n.Reordered m := ⟨by decide, .refl _, by decide, .none, rfl⟩
  exact ⟨by decide, h, (order_unseen h).1, by decide +kernel⟩

end Node

end Ambient
