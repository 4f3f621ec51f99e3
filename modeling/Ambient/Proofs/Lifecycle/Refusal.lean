import Ambient.Proofs.Action
import Ambient.Proofs.Operations

/-
Everything that callers ask of one node, as one type of uses, and what a closed node
does with them (`World.use_closed`): it refuses, and nothing changes. Reading headers
is made of one write for each entry, and it is the writes that are refused; so headers
without anything to write are read by a closed node as by any other.
-/

namespace Ambient

/-- What callers can ask of a node. To remove is to write a tombstone. -/
inductive NodeUse where
  | get (key : String)
  | set (key : String) (value : Option Value)
  | makeActive
  | beginExit
  | close
  | remoteParent
  | downEntries
  | upEntries
  | downHeaders (span : Option SpanContext)
  | upHeaders
  | readDown (codec : Codec) (headers : Headers)
  | readUp (codec : Codec) (headers : Headers)

/-- Headers are read, and there is nothing in them to write. -/
def NodeUse.writesNothing : NodeUse → Bool
  | readDown c h => (c.decode h).entries.isEmpty && (c.decode h).span.isNone
  | readUp c h => (c.decode h).entries.isEmpty
  | _ => false

namespace World

/-- A question as an operation: whether it was answered, without the answer. -/
def told {α : Type} (w : World) (answer : Except ContextError α) : Reply Unit := ⟨answer.map fun _ => (), w, []⟩

/-- A node is used on a thread. -/
def use (w : World) (t : ThreadId) (id : NodeId) : NodeUse → Reply Unit
  | .get key => w.told (w.get id key)
  | .set key v => w.set id key v
  | .makeActive => w.makeActive t id
  | .beginExit => w.beginExit id
  | .close => w.close t id
  | .remoteParent => w.told (w.remoteParent id)
  | .downEntries => w.told (w.downEntries id)
  | .upEntries => w.told (w.upEntries id)
  | .downHeaders span => w.told (w.downHeaders id span)
  | .upHeaders => w.told (w.upHeaders id)
  | .readDown c h => w.readDown id c h
  | .readUp c h => w.readUp id c h

variable {w : World} {t : ThreadId} {id : NodeId} {n : Node}

/-! ## A closed node -/

/-- A node refuses because it is closed. -/
def RefusesClosed {α : Type} (n : Node) (f : Node → Except WrongPhase α) : Prop := ∃ s, f n = .error ⟨s, .closed⟩

theorem refusesClosed_ensure {α : Type} (hp : n.phase = .closed) (s : PhaseSet) (f : Node → Except WrongPhase α) :
    RefusesClosed n fun n => n.ensure s >>= fun _ => f n := by
  refine ⟨s, ?_⟩
  simp [Node.ensure, hp, bind, Except.bind]

theorem refusesClosed_bind {α β : Type} {f : Node → Except WrongPhase α} (hf : RefusesClosed n f)
    (g : Node → α → Except WrongPhase β) : RefusesClosed n fun n => f n >>= g n := by
  obtain ⟨s, hs⟩ := hf
  refine ⟨s, ?_⟩
  simp [hs, bind, Except.bind]

theorem refusesClosed_setAll (hp : n.phase = .closed) {es : List (String × Value)} (hes : es.isEmpty = false) :
    RefusesClosed n fun n => n.setAll es := by
  cases es with
  | nil => cases hes
  | cons e es =>
    have hset : RefusesClosed n fun n => n.set e.1 (some e.2) := refusesClosed_ensure hp _ _
    exact refusesClosed_bind hset fun _ m => m.setAll es

theorem ask_closed {α : Type} {f : Node → Except WrongPhase α} (hn : w.nodes.get? id = some n)
    (hf : RefusesClosed n f) : w.ask id f = .error (.closed id) := by
  obtain ⟨s, hs⟩ := hf
  simp only [ask, hn, hs]
  rfl

theorem change_closed {f : Node → Except WrongPhase Node} (hn : w.nodes.get? id = some n) (hf : RefusesClosed n f) :
    w.change id f = ⟨.error (.closed id), w, []⟩ := by
  unfold change
  rw [ask_closed hn hf]

theorem setAll_closed (hn : w.nodes.get? id = some n) (hp : n.phase = .closed) (es : List (String × Value)) :
    w.setAll id es = ⟨if es.isEmpty then .ok () else .error (.closed id), w, []⟩ := by
  unfold setAll
  by_cases hes : es.isEmpty = true
  · rw [if_pos hes, if_pos hes]
  · rw [if_neg hes, if_neg hes]
    exact change_closed hn (refusesClosed_setAll hp (by simpa using hes))

theorem isEmpty_requestEntries (w : World) (d : Decoded) :
    (w.requestEntries d).isEmpty = (d.entries.isEmpty && d.span.isNone) := by
  unfold requestEntries
  cases d.span <;> simp [Dict.isEmpty]

/-- How a closed node answers: nothing changes, and it is reported as closed. -/
structure Declined (w : World) (id : NodeId) (r : Reply Unit) : Prop where
  world : r.world = w
  result : r.result = .error (.closed id)

theorem declined_told {α : Type} {answer : Except ContextError α} (h : answer = .error (.closed id)) :
    Declined w id (w.told answer) := by
  subst h
  exact ⟨rfl, rfl⟩

theorem declined_change {f : Node → Except WrongPhase Node} (hn : w.nodes.get? id = some n) (hf : RefusesClosed n f) :
    Declined w id (w.change id f) := by
  rw [change_closed hn hf]
  exact ⟨rfl, rfl⟩

theorem declined_makeActive (hn : w.nodes.get? id = some n) (hp : n.phase = .closed) (t : ThreadId) :
    Declined w id (w.makeActive t id) := by
  have hactivate : w.ask id Node.activate = .error (.closed id) := ask_closed hn (refusesClosed_ensure hp _ _)
  unfold makeActive
  rw [hactivate]
  exact ⟨rfl, rfl⟩

theorem declined_close (hn : w.nodes.get? id = some n) (hp : n.phase = .closed) (t : ThreadId) :
    Declined w id (w.close t id) := by
  have hask := ask_closed hn (refusesClosed_ensure hp .whileOpen fun n => pure n)
  unfold close
  rw [hask]
  exact ⟨rfl, rfl⟩

theorem downEntries_closed (hn : w.nodes.get? id = some n) (hp : n.phase = .closed) :
    w.downEntries id = .error (.closed id) := ask_closed hn (refusesClosed_ensure hp _ _)

theorem upEntries_closed (hn : w.nodes.get? id = some n) (hp : n.phase = .closed) :
    w.upEntries id = .error (.closed id) := ask_closed hn (refusesClosed_ensure hp _ _)

theorem use_declined {u : NodeUse} (hn : w.nodes.get? id = some n) (hp : n.phase = .closed) (t : ThreadId)
    (hu : u.writesNothing = false) : Declined w id (w.use t id u) := by
  cases u with
  | get key => exact declined_told (ask_closed hn (refusesClosed_ensure hp _ _))
  | set key v => exact declined_change hn (refusesClosed_ensure hp _ _)
  | makeActive => exact declined_makeActive hn hp t
  | beginExit => exact declined_change hn (refusesClosed_ensure hp _ _)
  | close => exact declined_close hn hp t
  | remoteParent => exact declined_told (ask_closed hn (refusesClosed_bind (refusesClosed_ensure hp _ _) _))
  | downEntries => exact declined_told (downEntries_closed hn hp)
  | upEntries => exact declined_told (upEntries_closed hn hp)
  | downHeaders span =>
    refine declined_told ?_
    rw [downHeaders, downEntries_closed hn hp]
    rfl
  | upHeaders =>
    refine declined_told ?_
    rw [upHeaders, upEntries_closed hn hp]
    rfl
  | readDown c h =>
    have hes : (w.requestEntries (c.decode h)).isEmpty = false := (isEmpty_requestEntries w _).trans hu
    simp only [use, readDown, setAll_closed hn hp, hes]
    exact ⟨rfl, rfl⟩
  | readUp c h =>
    have hes : (c.decode h).entries.entries.isEmpty = false := hu
    simp only [use, readUp, setAll_closed hn hp, hes]
    exact ⟨rfl, rfl⟩

/-- Nothing is asked of a node when headers hold nothing to write. -/
theorem use_nothing {u : NodeUse} (w : World) (t : ThreadId) (id : NodeId) (hu : u.writesNothing = true) :
    (w.use t id u).world = w ∧ (w.use t id u).result = .ok () := by
  cases u with
  | readDown c h =>
    have hes : (w.requestEntries (c.decode h)).isEmpty = true := (isEmpty_requestEntries w _).trans hu
    have hspan : (c.decode h).span = none := by
      simp only [NodeUse.writesNothing, Bool.and_eq_true, Option.isNone_iff_eq_none] at hu
      exact hu.2
    simp [use, readDown, setAll, hes, countObject, hspan]
  | readUp c h =>
    have hes : (c.decode h).entries.entries.isEmpty = true := hu
    simp only [use, readUp, setAll, hes, if_true, and_self]
  | _ => cases hu

/-- **Use after close.** A closed node refuses every use and is reported as closed, and
nothing changes. Only headers that hold nothing to write are not refused. -/
theorem use_closed (hn : w.nodes.get? id = some n) (hp : n.phase = .closed) (t : ThreadId) (u : NodeUse) :
    (w.use t id u).world = w ∧
      (w.use t id u).result = if u.writesNothing then .ok () else .error (.closed id) := by
  cases hu : u.writesNothing with
  | false =>
    obtain ⟨hworld, hresult⟩ := use_declined hn hp t hu
    exact ⟨hworld, hresult⟩
  | true => exact use_nothing w t id hu

/-- A root comes to its end. -/
def closedRun : List (ThreadId × Action) :=
  [.enter "root" none bothWays none, .set 1 "k" (some (.flag true)), .makeActive 1, .close 1].map fun a => (0, a)

/-- An entry is refused; an entry that cannot be read is not. -/
theorem use_closed_root :
    let w := (start 0).run closedRun
    (w.use 0 1 (.get "k")).result = .error (.closed 1) ∧
      (w.use 7 1 (.readUp Codec.standard (Dict.ofList [("baggage", "k=x")]))).result = .error (.closed 1) ∧
      (w.use 7 1 (.readUp Codec.standard (Dict.ofList [("baggage", "k=x;type=i")]))).result = .ok () := by
  obtain ⟨n, hn⟩ : ∃ n, ((start 0).run closedRun).nodes.get? 1 = some n := ⟨_, rfl⟩
  have hp : n.phase = .closed := by cases hn; rfl
  exact ⟨(use_closed hn hp 0 (.get "k")).2,
    (use_closed hn hp 7 (.readUp Codec.standard (Dict.ofList [("baggage", "k=x")]))).2,
    (use_closed hn hp 7 (.readUp Codec.standard (Dict.ofList [("baggage", "k=x;type=i")]))).2⟩

/-- Not every use of a closed node is refused. -/
theorem closed_not_refused :
    ¬ ∀ (w : World) (id : NodeId) (n : Node), Reachable w → w.nodes.get? id = some n → n.phase = .closed →
      ∀ (t : ThreadId) (u : NodeUse), (w.use t id u).result = .error (.closed id) := by
  intro refused
  obtain ⟨n, hn⟩ : ∃ n, ((start 0).run closedRun).nodes.get? 1 = some n := ⟨_, rfl⟩
  have hp : n.phase = .closed := by cases hn; rfl
  have hrefused := refused _ 1 n ((Reachable.start 0).run closedRun) hn hp 0 (.readDown Codec.standard Dict.empty)
  have hread : (((start 0).run closedRun).use 0 1 (.readDown Codec.standard Dict.empty)).result = .ok () := rfl
  rw [hread] at hrefused
  cases hrefused

end World

end Ambient
