import Ambient.Proofs.Action

/-
Properly nested use of contexts on one thread, and what it should show. A program
says which nodes are entered, written and closed within each other (`Body`). It can
be run on a process (`Call.run`), which records what every operation answers, and
it has a meaning without any snapshots, phases or stacks (`Call.eval`): a frame is
its own writes over what it inherits, a child inherits what flows down at that
moment, and its parent takes over what flows up at the end.
-/

namespace Ambient.Nested

/-! ## Programs -/

/-- How a node is entered: the name it is held under, whether it is a root although
another node is open, the policy if it is a root, and the writes on entry. -/
structure Call where
  name : String
  root : Bool
  policy : Policy
  entry : List (String × Option Value)

/-- What is done with an active node until it is closed. The exit phase begins at most
once: it has begun before a `Body true`. -/
inductive Body : Bool → Type
  | done {e : Bool} : Body e
  | write {e : Bool} (key : String) (v : Option Value) (rest : Body e) : Body e
  | beginExit (rest : Body true) : Body false
  /-- Another node is entered, used and closed. -/
  | call {e : Bool} (c : Call) (body : Body false) (rest : Body e) : Body e

/-! ## Running a program -/

/-- A moment of a run: what the last operation answered, the process after it, and the
open nodes, innermost first. -/
structure Moment where
  result : Except ContextError Unit
  world : World
  path : List NodeId

/-- What was recorded of a run: the process, every moment so far, and for every node
that was closed the process before it became active and the one after its close. -/
structure Trace where
  world : World
  moments : List Moment
  brackets : List (World × World)

/-- The next moment. -/
def Trace.op (s : Trace) (path : List NodeId) (r : Reply Unit) : Trace :=
  ⟨r.world, s.moments ++ [⟨r.result, r.world, path⟩], s.brackets⟩

/-- The parent of the node that a call enters while others are open. -/
def Call.parent (c : Call) (path : List NodeId) : Option NodeId := if c.root then none else path.head?

/-- Enters a node. That cannot fail. -/
def Call.enter (c : Call) (t : ThreadId) (path : List NodeId) (s : Trace) : Trace × NodeId :=
  let (w, id) := s.world.enter t (c.parent path) c.policy none
  (s.op (id :: path) ⟨.ok (), w.hold c.name id, []⟩, id)

/-- Writes on entry. -/
def runEntry (id : NodeId) (path : List NodeId) (es : List (String × Option Value)) (s : Trace) : Trace :=
  es.foldl (fun s e => s.op (id :: path) (s.world.set id e.1 e.2)) s

/-- The whole life of a node: entry, the body, and the close. -/
def Call.run (c : Call) (t : ThreadId) (path : List NodeId) (body : NodeId → Trace → Trace) (s : Trace) :
    Trace :=
  let (entered, id) := c.enter t path s
  let ready := runEntry id path c.entry entered
  let inner := body id (ready.op (id :: path) (ready.world.makeActive t id))
  let closed := inner.op path (inner.world.close t id)
  { closed with brackets := closed.brackets ++ [(ready.world, closed.world)] }

/-- What is done with an active node that lies above others. -/
def Body.run (t : ThreadId) : {e : Bool} → Body e → NodeId → List NodeId → Trace → Trace
  | _, .done, _, _, s => s
  | _, .write key v rest, id, outer, s => rest.run t id outer (s.op (id :: outer) (s.world.set id key v))
  | _, .beginExit rest, id, outer, s => rest.run t id outer (s.op (id :: outer) (s.world.beginExit id))
  | _, .call c body rest, id, outer, s =>
    rest.run t id outer (c.run t (id :: outer) (fun child => body.run t child (id :: outer)) s)

/-- Runs a program on a process. -/
def Call.start (c : Call) (t : ThreadId) (body : Body false) (w : World) : Trace :=
  c.run t [] (fun id => body.run t id []) ⟨w, [], []⟩

/-! ## The meaning of a program -/

/-- What there is to know about an open node: own writes over what it inherits. -/
structure Frame where
  policy : Policy
  inherited : String → Option Value
  writes : String → Option (Option Value)

namespace Frame

/-- The value of a key. A tombstone reads as absent. -/
def view (f : Frame) (k : String) : Option Value := (f.writes k).getD (f.inherited k)

/-- A root inherits nothing. -/
def root (p : Policy) : Frame := ⟨p, fun _ => none, fun _ => none⟩

/-- A child inherits what flows down, as it is at that moment. -/
def child (f : Frame) : Frame :=
  ⟨f.policy, fun k => if f.policy.flowsDown k then f.view k else none, fun _ => none⟩

/-- A write, or a tombstone. -/
def write (f : Frame) (k : String) (v : Option Value) : Frame :=
  { f with writes := fun x => if k = x then some v else f.writes x }

/-- Takes over what a child wrote under the keys that flow up, tombstones included. -/
def merge (f child : Frame) : Frame :=
  { f with writes := fun k => if child.policy.flowsUp k then (child.writes k).or (f.writes k) else f.writes k }

@[simp] theorem inherited_child (f : Frame) (k : String) :
    f.child.inherited k = if f.policy.flowsDown k then f.view k else none := rfl

@[simp] theorem writes_write (f : Frame) (k x : String) (v : Option Value) :
    (f.write k v).writes x = if k = x then some v else f.writes x := rfl

@[simp] theorem writes_merge (f child : Frame) (k : String) :
    (f.merge child).writes k =
      if child.policy.flowsUp k then (child.writes k).or (f.writes k) else f.writes k := rfl

end Frame

/-- The frame of the node that a call enters. -/
def Call.frame (c : Call) (outer : List Frame) : Frame :=
  match if c.root then none else outer.head? with
  | none => .root c.policy
  | some f => f.child

/-- What becomes of a frame when a node closes above it. -/
def Call.back (c : Call) (child f : Frame) : Frame := if c.root then f else f.merge child

/-- The frames of the open nodes at every moment until a node closes, and its last frame. -/
def Call.eval (c : Call) (outer : List Frame) (body : Frame → List (List Frame) × Frame) :
    List (List Frame) × Frame :=
  let onEntry := c.entry.scanl (fun f e => f.write e.1 e.2) (c.frame outer)
  let ready := c.entry.foldl (fun f e => f.write e.1 e.2) (c.frame outer)
  let inner := body ready
  ((onEntry ++ [ready]).map (· :: outer) ++ inner.1, inner.2)

/-- The frames at every moment of a body, and the last frame of its node. -/
def Body.eval : {e : Bool} → Body e → List Frame → Frame → List (List Frame) × Frame
  | _, .done, _, f => ([], f)
  | _, .write key v rest, outer, f =>
    let later := rest.eval outer (f.write key v)
    ((f.write key v :: outer) :: later.1, later.2)
  | _, .beginExit rest, outer, f =>
    let later := rest.eval outer f
    ((f :: outer) :: later.1, later.2)
  | _, .call c body rest, outer, f =>
    let inner := c.eval (f :: outer) (body.eval (f :: outer))
    let back := c.back inner.2 f
    let later := rest.eval outer back
    (inner.1 ++ (back :: outer) :: later.1, later.2)

/-- The frames at every moment of a program. -/
def Call.meaning (c : Call) (body : Body false) : List (List Frame) := (c.eval [] (body.eval [])).1 ++ [[]]

end Ambient.Nested
