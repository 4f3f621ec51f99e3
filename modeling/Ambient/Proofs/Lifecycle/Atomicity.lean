import Ambient.Proofs.Lifecycle.Refusal
import Ambient.Proofs.Stack.Turns

/-
Whoever is refused because of the phase of a node has changed nothing
(`World.use_atomic`). Most uses ask for the phase once, before they do anything. Reading
headers asks for it anew at each entry that it writes (`World.setEach`), and could stop
halfway; but a write leaves the phase as it was, so the first one decides for all
(`World.setEach_eq`).
-/

namespace Ambient

/-- The errors that tell of the phase of a node. -/
def ContextError.isOfPhase : ContextError → Bool
  | closed _ => true
  | wrongPhase .. => true
  | detachMismatch .. => false
  | wrongThread => false

/-- A further operation, unless this one was refused. -/
def Reply.andThen (r : Reply Unit) (next : World → Reply Unit) : Reply Unit :=
  match r.result with
  | .error _ => r
  | .ok _ => ⟨(next r.world).result, (next r.world).world, r.events ++ (next r.world).events⟩

@[simp] theorem Reply.andThen_error (e : ContextError) (w : World) (events : List Event) (next : World → Reply Unit) :
    (Reply.mk (.error e) w events).andThen next = ⟨.error e, w, events⟩ := rfl

@[simp] theorem Reply.andThen_ok (w : World) (events : List Event) (next : World → Reply Unit) :
    (Reply.mk (.ok ()) w events).andThen next = ⟨(next w).result, (next w).world, events ++ (next w).events⟩ := rfl

namespace World

variable {w : World} {t : ThreadId} {id : NodeId} {n : Node} {e : ContextError}

/-! ## Headers are read step by step -/

/-- Entries are written one after another, each in a step of its own, up to one that is refused. -/
def setEach (w : World) (id : NodeId) : List (String × Value) → Reply Unit
  | [] => ⟨.ok (), w, []⟩
  | e :: es => (w.set id e.1 (some e.2)).andThen fun w => w.setEach id es

/-- Headers are decoded before anything is written. -/
def decodedReply (w : World) (d : Decoded) : Reply Unit := ⟨.ok (), w, d.dropped.map Event.droppedSegment⟩

/-- A span context is sealed, and written in a step of its own. -/
def setSpan (w : World) (id : NodeId) (s : SpanContext) : Reply Unit :=
  (w.set id remoteParentKey (some (w.sealSpan s))).andThen fun w => ⟨.ok (), w.countObject true, []⟩

/-- A request is read: each entry is written in a step of its own, and the span context last. -/
def readDownEach (w : World) (id : NodeId) (c : Codec) (h : Headers) : Reply Unit :=
  let d := c.decode h
  (w.decodedReply d).andThen fun w =>
    (w.setEach id d.entries.entries).andThen fun w => d.span.elim ⟨.ok (), w, []⟩ (w.setSpan id)

/-- A response is read: each entry is written in a step of its own. -/
def readUpEach (w : World) (id : NodeId) (c : Codec) (h : Headers) : Reply Unit :=
  let d := c.decode h
  (w.decodedReply d).andThen fun w => w.setEach id d.entries.entries

/-- A node is used on a thread, and headers are read step by step. -/
def useEach (w : World) (t : ThreadId) (id : NodeId) : NodeUse → Reply Unit
  | .readDown c h => w.readDownEach id c h
  | .readUp c h => w.readUpEach id c h
  | u => w.use t id u

/-- Nothing can be written to a node that is not there, or is closed. -/
def Shut (w : World) (id : NodeId) : Prop := ∀ n, w.nodes.get? id = some n → n.phase = .closed

theorem open_or_shut (w : World) (id : NodeId) :
    (∃ n, w.nodes.get? id = some n ∧ n.phase ≠ .closed) ∨ w.Shut id := by
  by_cases h : ∃ n, w.nodes.get? id = some n ∧ n.phase ≠ .closed
  · exact .inl h
  · exact .inr fun n hn => by_contra fun hp => h ⟨n, hn, hp⟩

theorem set_shut (hs : w.Shut id) (k : String) (v : Option Value) : w.set id k v = ⟨.error (.closed id), w, []⟩ := by
  cases hn : w.nodes.get? id with
  | none => simp [set, change, ask, hn]
  | some n => exact change_closed hn (refusesClosed_ensure (hs n hn) _ _)

theorem setAll_shut (hs : w.Shut id) (es : List (String × Value)) :
    w.setAll id es = ⟨if es.isEmpty then .ok () else .error (.closed id), w, []⟩ := by
  cases hn : w.nodes.get? id with
  | none => cases es <;> simp [setAll, change, ask, hn]
  | some n => exact setAll_closed hn (hs n hn) es

/-- Either all entries are written or none: a write does not change the phase. -/
theorem setEach_eq (w : World) (id : NodeId) (es : List (String × Value)) : w.setEach id es = w.setAll id es := by
  rcases w.open_or_shut id with ⟨n, hn, hp⟩ | hs
  · induction es generalizing w n with
    | nil => rfl
    | cons e es ih =>
      have hn' : (w.withNode id (n.write e.1 (some e.2))).nodes.get? id = some (n.write e.1 (some e.2)) := by
        rw [get?_withNode_self]
      rw [setEach, set_eq hn hp, Reply.andThen_ok, ih _ _ hn' hp, setAll_eq hn' hp, setAll_eq hn hp]
      simp [Node.writeAll]
  · cases es with
    | nil => rfl
    | cons e es => rw [setEach, set_shut hs, setAll_shut hs]; rfl

/-- What step by step is read of a request is what is read of it in one step. -/
theorem readDownEach_eq (w : World) (id : NodeId) (c : Codec) (h : Headers) :
    w.readDownEach id c h = w.readDown id c h := by
  unfold readDownEach readDown decodedReply
  generalize c.decode h = d
  simp only [Reply.andThen_ok, setEach_eq]
  rcases w.open_or_shut id with ⟨n, hn, hp⟩ | hs
  · simp only [setAll_eq hn hp, requestEntries, List.map_append, Node.writeAll_append]
    generalize hm : n.writeAll (d.entries.entries.map fun e => (e.1, some e.2)) = m
    have hmp : m.phase ≠ .closed := by rwa [← hm, Node.phase_writeAll]
    have hm' : (w.withNode id m).nodes.get? id = some m := by rw [get?_withNode_self]
    cases d.span with
    | none => simp [Node.writeAll, countObject]
    | some s =>
      simp only [Reply.andThen_ok, Option.elim_some, setSpan, set_eq hm' hmp, withNode_withNode]
      simp [Node.writeAll]
      rfl
  · simp only [setAll_shut hs, isEmpty_requestEntries]
    cases hes : d.entries.entries with
    | nil =>
      cases d.span with
      | none => simp [Dict.isEmpty, hes, countObject]
      | some s => simp [Dict.isEmpty, hes, setSpan, set_shut hs]
    | cons e es => simp [Dict.isEmpty, hes]

theorem readUpEach_eq (w : World) (id : NodeId) (c : Codec) (h : Headers) :
    w.readUpEach id c h = w.readUp id c h := by
  simp only [readUpEach, readUp, decodedReply, Reply.andThen_ok, setEach_eq]
  unfold setAll change
  split
  · simp
  · split <;> simp

theorem useEach_eq (w : World) (t : ThreadId) (id : NodeId) (u : NodeUse) : w.useEach t id u = w.use t id u := by
  cases u with
  | readDown c h => exact readDownEach_eq w id c h
  | readUp c h => exact readUpEach_eq w id c h
  | _ => rfl

/-! ## Refusals -/

theorem change_of_error {f : Node → Except WrongPhase Node} (h : (w.change id f).result = .error e) :
    (w.change id f).world = w := by
  unfold change at h ⊢
  split at h
  · rfl
  · cases h

theorem setAll_of_error {es : List (String × Value)} (h : (w.setAll id es).result = .error e) :
    (w.setAll id es).world = w := by
  unfold setAll at h ⊢
  split
  · rfl
  · rename_i hes
    rw [if_neg hes] at h
    exact change_of_error h

theorem makeActive_of_error (h : (w.makeActive t id).result = .error e) : (w.makeActive t id).world = w := by
  unfold makeActive at h ⊢
  split at h
  · rfl
  · cases h

/-- Undoing an attachment may be refused, but not because of a phase. -/
theorem isOfPhase_detach {token : Token} (h : (w.detach t token).result = .error e) : e.isOfPhase = false := by
  rw [result_detach, Stack.check] at h
  split at h
  · split at h <;> cases h
    rfl
  · cases h
    rfl

/-- A close that goes on after the question for the phase can only fail at the attachment. -/
theorem close_of_error (h : (w.close t id).result = .error e) (he : e.isOfPhase = true) :
    (w.close t id).world = w := by
  unfold close at h ⊢
  split at h
  · rfl
  · rename_i n _
    rw [result_closeOpen] at h
    cases ht : n.token with
    | none =>
      rw [ht] at h
      cases h
    | some token =>
      rw [ht] at h
      rw [isOfPhase_detach h] at he
      cases he

theorem readDown_of_error {c : Codec} {h : Headers} (he : (w.readDown id c h).result = .error e) :
    (w.readDown id c h).world = w := by
  unfold readDown at he ⊢
  dsimp only at he ⊢
  split at he
  · rfl
  · cases he

/-- Whichever use is refused because of a phase, nothing has changed. -/
theorem use_of_error {u : NodeUse} (h : (w.use t id u).result = .error e) (he : e.isOfPhase = true) :
    (w.use t id u).world = w := by
  cases u with
  | set key v => exact change_of_error h
  | makeActive => exact makeActive_of_error h
  | beginExit => exact change_of_error h
  | close => exact close_of_error h he
  | readDown c headers => exact readDown_of_error h
  | readUp c headers => exact setAll_of_error h
  | _ => rfl

/-! ## Headers are read as a whole -/

/-- Entries were written as a whole, or nothing can be written to the node and nothing was. -/
inductive Whole (w : World) (id : NodeId) (es : List (String × Value)) (r : Reply Unit) : Prop
  | written (result : r.result = .ok ())
      (nodes : ∀ x, r.world.nodes.get? x =
        (w.nodes.get? x).map fun n => if x = id then n.writeAll (es.map fun e => (e.1, some e.2)) else n)
      (rest : ∃ nodes lastObject, r.world = { w with nodes, lastObject })
  | refused (e : ContextError) (shut : w.Shut id) (result : r.result = .error e) (phase : e.isOfPhase = true)
      (world : r.world = w)

theorem whole_setAll (w : World) (id : NodeId) (es : List (String × Value)) : Whole w id es (w.setAll id es) := by
  rcases w.open_or_shut id with ⟨n, hn, hp⟩ | hs
  · rw [setAll_eq hn hp]
    refine .written rfl (fun x => ?_) ⟨_, w.lastObject, rfl⟩
    by_cases hx : id = x
    · subst hx
      simp [hn]
    · simp [hx, Ne.symm hx]
  · rw [setAll_shut hs]
    cases es with
    | nil =>
      refine .written rfl (fun x => ?_) ⟨w.nodes, w.lastObject, rfl⟩
      simp [Node.writeAll]
    | cons e es => exact .refused (.closed id) hs rfl rfl rfl

theorem whole_readDown (w : World) (id : NodeId) (c : Codec) (h : Headers) :
    Whole w id (w.requestEntries (c.decode h)) (w.readDown id c h) := by
  have hwhole := whole_setAll w id (w.requestEntries (c.decode h))
  simp only [readDown]
  generalize w.setAll id (w.requestEntries (c.decode h)) = r at hwhole ⊢
  obtain ⟨result, v, events⟩ := r
  cases hwhole with
  | written hresult hnodes hrest =>
    cases hresult
    obtain ⟨nodes, lastObject, rfl⟩ := hrest
    cases (c.decode h).span with
    | none => exact .written rfl hnodes ⟨_, _, rfl⟩
    | some s => exact .written rfl hnodes ⟨_, _, rfl⟩
  | refused e hs hresult hphase hworld =>
    cases hresult
    exact .refused e hs rfl hphase rfl

theorem whole_readUp (w : World) (id : NodeId) (c : Codec) (h : Headers) :
    Whole w id (c.decode h).entries.entries (w.readUp id c h) := by
  cases whole_setAll w id (c.decode h).entries.entries with
  | written hresult hnodes hrest => exact .written hresult hnodes hrest
  | refused e hs hresult hphase hworld => exact .refused e hs hresult hphase hworld

/-- **Phase errors are atomic.** A use that is refused because of the phase of the node has
changed nothing, also where headers are read step by step; they are read as a whole or
not at all. Undoing an attachment is never refused because of a phase. -/
theorem use_atomic (w : World) (t : ThreadId) (id : NodeId) :
    (∀ u, w.useEach t id u = w.use t id u) ∧
      (∀ u e, (w.useEach t id u).result = .error e → e.isOfPhase = true → (w.useEach t id u).world = w) ∧
      (∀ token e, (w.detach t token).result = .error e → e.isOfPhase = false) ∧
      (∀ c h, Whole w id (w.requestEntries (c.decode h)) (w.useEach t id (.readDown c h))) ∧
      ∀ c h, Whole w id (c.decode h).entries.entries (w.useEach t id (.readUp c h)) := by
  refine ⟨useEach_eq w t id, fun u e h he => ?_, fun token e => isOfPhase_detach, fun c h => ?_, fun c h => ?_⟩
  · rw [useEach_eq] at h ⊢
    exact use_of_error h he
  · rw [useEach_eq]
    exact whole_readDown w id c h
  · rw [useEach_eq]
    exact whole_readUp w id c h

/-- A request with two entries and a span context. -/
def fullRequest : Headers :=
  Dict.ofList [("baggage", "k=x,l=y"), ("traceparent", "00-000000000000000000000000000000ff-0000000000000007-01")]

/-- A closed root refuses a request, and an open one does not become active twice. -/
theorem use_atomic_root :
    let w := (start 0).run closedRun
    let v := (start 0).run (closedRun.take 3)
    (w.useEach 7 1 (.readDown Codec.standard fullRequest)).result = .error (.closed 1) ∧
      (w.useEach 7 1 (.readDown Codec.standard fullRequest)).world = w ∧
      (v.useEach 0 1 .makeActive).result = .error (.wrongPhase 1 .onEntry .active) ∧
      (v.useEach 0 1 .makeActive).world = v ∧
      (v.detach 0 ⟨1, 1, 7⟩).result = .error .wrongThread ∧
      ContextError.wrongThread.isOfPhase = false := by
  have hclosed : (((start 0).run closedRun).useEach 7 1 (.readDown Codec.standard fullRequest)).result =
      .error (.closed 1) := rfl
  have hactive : (((start 0).run (closedRun.take 3)).useEach 0 1 .makeActive).result =
      .error (.wrongPhase 1 .onEntry .active) := rfl
  have hdetach : (((start 0).run (closedRun.take 3)).detach 0 ⟨1, 1, 7⟩).result = .error .wrongThread := rfl
  exact ⟨hclosed, (use_atomic _ 7 1).2.1 _ _ hclosed rfl, hactive, (use_atomic _ 0 1).2.1 _ _ hactive rfl, hdetach,
    (use_atomic _ 0 1).2.2.1 _ _ hdetach⟩

end World

end Ambient
