import Ambient.Engine
import Ambient.Node

/-
A process as contexts see it: the nodes, the ambient stack of every thread, the
bridges, engines and tables, the hosts that are alive, and the trace format that
all engines write. Parents are not held by their children: a node is alive while
a caller holds it under a name, a stack has it attached, or a table has it parked.
-/

namespace Ambient

/-- The state of a process. -/
structure World where
  nodes : Dict NodeId Node
  ambient : Dict ThreadId Stack
  bridges : Dict BridgeId Bridge
  engines : Dict EngineId Engine
  tables : Dict TableId ContinuationTable
  /-- The names under which callers hold nodes. -/
  holders : Dict String NodeId
  /-- The serial numbers of the hosts that are alive. -/
  hosts : List Nat
  traceFormat : TraceFormat
  /-- The number of the last node. -/
  lastNode : Nat
  /-- The version of the last policy. -/
  lastVersion : Nat
  /-- The serial number of the last sealed object. -/
  lastObject : Nat
  /-- The last number of a bridge, an engine, a table or a host. -/
  lastNumber : Nat

/-- What an operation answers: a result, the state after it, and what it reports. -/
structure Reply (α : Type) where
  result : Except ContextError α
  world : World
  events : List Event

namespace World

/-- Nothing there yet; the serial numbers of sealed objects go on from a given one. -/
def start (lastObject : Nat) : World :=
  { nodes := Dict.empty, ambient := Dict.empty, bridges := Dict.empty, engines := Dict.empty
    tables := Dict.empty, holders := Dict.empty, hosts := [], traceFormat := .w3c
    lastNode := 0, lastVersion := 0, lastObject, lastNumber := 0 }

/-! ## Parts -/

def stack (w : World) (t : ThreadId) : Stack := (w.ambient.get? t).getD .empty

def withStack (w : World) (t : ThreadId) (s : Stack) : World := { w with ambient := w.ambient.insert t s }

def current (w : World) (t : ThreadId) : Option NodeId := (w.stack t).top?

def withNode (w : World) (id : NodeId) (n : Node) : World := { w with nodes := w.nodes.insert id n }

/-- A bridge; an unknown one is silent. -/
def bridge (w : World) (b : BridgeId) : Bridge := (w.bridges.get? b).getD .silent

def withBridge (w : World) (b : BridgeId) (x : Bridge) : World := { w with bridges := w.bridges.insert b x }

/-- A table; an unknown one is empty. -/
def table (w : World) (t : TableId) : ContinuationTable := (w.tables.get? t).getD .empty

def withTable (w : World) (t : TableId) (x : ContinuationTable) : World :=
  { w with tables := w.tables.insert t x }

/-- Asks a node. An unknown node counts as closed. -/
def ask {α : Type} (w : World) (id : NodeId) (f : Node → Except WrongPhase α) : Except ContextError α :=
  match w.nodes.get? id with
  | none => .error (.closed id)
  | some n => (f n).mapError fun e => e.error id

/-- Changes a node; nothing changes if it refuses. -/
def change (w : World) (id : NodeId) (f : Node → Except WrongPhase Node) : Reply Unit :=
  match w.ask id f with
  | .error e => ⟨.error e, w, []⟩
  | .ok n => ⟨.ok (), w.withNode id n, []⟩

/-! ## Liveness -/

def isAlive (w : World) (id : NodeId) : Bool :=
  (w.holders.entries.any fun e => e.2 == id) || (w.ambient.entries.any fun e => e.2.holds id) ||
    (w.tables.entries.any fun e => e.2.holds id)

/-- The parent of a node, while it is open and the parent alive. -/
def parentOf (w : World) (n : Node) : Option NodeId := n.parent.filter w.isAlive

/-- Holds a node under a name, in place of what the name held. -/
def hold (w : World) (name : String) (id : NodeId) : World := { w with holders := w.holders.insert name id }

def release (w : World) (name : String) : World := { w with holders := w.holders.erase name }

def hostIsAlive (w : World) (serial : Nat) : Bool := w.hosts.contains serial

/-! ## Numbers -/

def newPolicy (w : World) (t : PolicyTable) : World × Policy :=
  ({ w with lastVersion := w.lastVersion + 1 }, ⟨w.lastVersion + 1, t⟩)

def addNode (w : World) (n : Node) : World × NodeId :=
  (({ w with lastNode := w.lastNode + 1 }).withNode (w.lastNode + 1) n, w.lastNode + 1)

def addBridge (w : World) (b : Bridge) : World × BridgeId :=
  (({ w with lastNumber := w.lastNumber + 1 }).withBridge (w.lastNumber + 1) b, w.lastNumber + 1)

def addTable (w : World) : World × TableId :=
  (({ w with lastNumber := w.lastNumber + 1 }).withTable (w.lastNumber + 1) .empty, w.lastNumber + 1)

/-- Gives a table up; the nodes parked in it are no longer held by it. -/
def dropTable (w : World) (t : TableId) : World := { w with tables := w.tables.erase t }

def addHost (w : World) : World × Host :=
  let n := w.lastNumber + 1
  ({ w with lastNumber := n, hosts := n :: w.hosts }, ⟨n, n⟩)

def dropHost (w : World) (h : Host) : World := { w with hosts := w.hosts.filter fun s => s != h.serial }

end World

end Ambient
