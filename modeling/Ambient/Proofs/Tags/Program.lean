import Ambient.Proofs.Nested.Program

/-
Properly nested use of contexts that are entered with bridges or through engines, run
with a diary of when nodes become active and when they close (`Nested.live`). The
programs are those that the plain semantics is about; only how a root is entered is
chosen here, call by call.
-/

namespace Ambient.Nested

/-- How a call enters its node. What it says of policy and bridge is for roots only. -/
inductive Entrance where
  | direct (bridge : Option BridgeId)
  | through (engine : Engine)

namespace Entrance

/-- The bridge that a root gets. -/
def bridge : Entrance → Option BridgeId
  | direct b => b
  | through e => e.bridge

def enter (w : World) (t : ThreadId) (parent : Option NodeId) (p : Policy) : Entrance → World × NodeId
  | direct b => w.enter t parent p b
  | through e => w.enterUnder t e parent

/-- An engine is one of the process. -/
def Known (w : World) : Entrance → Prop
  | direct _ => True
  | through e => ∃ id, w.engines.get? id = some e

end Entrance

/-- A node becomes active: the process before and after. -/
structure Activation where
  node : NodeId
  ready : World
  active : World

/-- The life of a node: how it became active, and the process before and after its close. -/
structure Life where
  began : Activation
  last : World
  closed : World

/-- What an operation of a program was. -/
inductive Step where
  /-- A node was entered or written, or its exit began. -/
  | quiet (before after : World)
  /-- A node became active. It stands first among the open nodes, which go innermost first. -/
  | active (path : List Activation)
  | closed (life : Life)

/-- A process, and every operation so far with its result. -/
structure Diary where
  world : World
  steps : List (Except ContextError Unit × Step)

/-- An operation other than becoming active and closing. -/
def Diary.quiet (d : Diary) (r : Reply Unit) : Diary := ⟨r.world, d.steps ++ [(r.result, .quiet d.world r.world)]⟩

variable (how : Call → Entrance) (t : ThreadId)

/-- Enters a node, and writes on entry. -/
def Call.prepare (c : Call) (path : List Activation) (d : Diary) : Diary × NodeId :=
  let (w, id) := (how c).enter d.world t (c.parent (path.map Activation.node)) c.policy
  let entered := d.quiet ⟨.ok (), w.hold c.name id, []⟩
  (c.entry.foldl (fun d e => d.quiet (d.world.set id e.1 e.2)) entered, id)

/-- The whole life of a node. -/
def Call.live (c : Call) (path : List Activation) (body : Activation → Diary → Diary) (d : Diary) : Diary :=
  let (ready, id) := c.prepare how t path d
  let made := ready.world.makeActive t id
  let a : Activation := ⟨id, ready.world, made.world⟩
  let inner := body a ⟨made.world, ready.steps ++ [(made.result, .active (a :: path))]⟩
  let closed := inner.world.close t id
  ⟨closed.world, inner.steps ++ [(closed.result, .closed ⟨a, inner.world, closed.world⟩)]⟩

/-- What is done with an active node that lies above others. -/
def Body.live : {e : Bool} → Body e → Activation → List Activation → Diary → Diary
  | _, .done, _, _, d => d
  | _, .write key v rest, a, outer, d => rest.live a outer (d.quiet (d.world.set a.node key v))
  | _, .beginExit rest, a, outer, d => rest.live a outer (d.quiet (d.world.beginExit a.node))
  | _, .call c body rest, a, outer, d =>
    rest.live a outer (c.live how t (a :: outer) (fun child => body.live child (a :: outer)) d)

/-- Runs programs on a process, one after another. -/
def live (ps : List (Call × Body false)) (w : World) : Diary :=
  ps.foldl (fun d p => p.1.live how t [] (fun a => p.2.live how t a []) d) ⟨w, []⟩

end Ambient.Nested
