import Ambient.World.Attach
import Ambient.World.Tags

/-
The life of a node. Becoming active makes it ambient and publishes its tags if
they changed; closing undoes both and lets its data flow up. Closing is complete
even if the node is not the topmost of its thread's stack.
-/

namespace Ambient.World

/-- Opens the scope of a node's tags, if it has a bridge and a tag changed. -/
def publish (w : World) (n : Node) : World × Option TagScope × List Event :=
  match n.bridge, n.changedTags with
  | some b, some tags =>
    let (w, scope, events) := w.openScope b tags
    (w, some scope, events)
  | _, _ => (w, none, [])

def makeActive (w : World) (t : ThreadId) (id : NodeId) : Reply Unit :=
  match w.ask id Node.activate with
  | .error e => ⟨.error e, w, []⟩
  | .ok n =>
    let (w, token) := w.attach t id
    let (w, scope, events) := w.publish n
    ⟨.ok (), w.withNode id { n with token := some token, scope }, events⟩

def beginExit (w : World) (id : NodeId) : Reply Unit := w.change id Node.beginExit

/-- Lets the writes of a closed child flow up: into its parent if the child is
synchronous and closed on the parent's thread, and nowhere otherwise. -/
def flowUp (w : World) (t : ThreadId) (id : NodeId) (child : Node) : World × List Event :=
  match w.parentOf child with
  | none => (w, [])
  | some parent =>
    match w.nodes.get? parent with
    | none => (w, [])
    | some p =>
      if child.synchronous && p.thread == t then
        if p.phase.isOpen then (w.withNode parent (p.absorb child.policy child.upward), [])
        else (w, [.parentNotOpen parent p.phase])
      else if child.upward.isEmpty then (w, [])
      else (w, [.skippedUpward id parent])

def closeReport (id : NodeId) : Except ContextError Unit → List Event
  | .ok _ => []
  | .error e => [.closedOutOfOrder id e]

def closeOpen (w : World) (t : ThreadId) (id : NodeId) (n : Node) : Reply Unit :=
  let (w, closed) := (w.withNode id n.retire).closeScope? n.scope
  let detached := w.detach? t n.token
  let (w, flowed) := detached.world.flowUp t id n
  ⟨detached.result, w, closed ++ closeReport id detached.result ++ flowed⟩

def close (w : World) (t : ThreadId) (id : NodeId) : Reply Unit :=
  match w.ask id fun n => do
    n.ensure .whileOpen
    return n with
  | .error e => ⟨.error e, w, []⟩
  | .ok n => w.closeOpen t id n

end Ambient.World
