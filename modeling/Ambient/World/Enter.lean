import Ambient.World.Basic

/-
Entering contexts. A child takes policy and bridge from its parent. A root takes
the given ones; the tags that are ambient behind its bridge become its own data,
under a policy that makes them inherited tags wherever nothing else is set.
-/

namespace Ambient.World

/-- The policy of a root for which tags were found: a new one if they change anything. -/
def rootPolicy (w : World) (p : Policy) (found : Tags) : World × Policy :=
  let keys := found.map Prod.fst
  if keys.any p.table.infersTag then w.newPolicy (p.table.inferTags keys) else (w, p)

def enterRoot (w : World) (t : ThreadId) (p : Policy) (b : Option BridgeId) : World × NodeId :=
  let found : Tags := match b with
    | none => []
    | some b => (w.bridge b).current
  let (w, p) := w.rootPolicy p found
  w.addNode ((Node.fresh p t false b none Dict.empty).seed (found.map fun e => (e.1, .text e.2)))

def enterChild (w : World) (t : ThreadId) (parent : NodeId) (n : Node) : World × NodeId :=
  (w.withNode parent (n.remember t)).addNode (n.child parent t)

/-- Enters a context beneath a parent, or a root; policy and bridge are for roots only. -/
def enter (w : World) (t : ThreadId) (parent : Option NodeId) (p : Policy) (b : Option BridgeId) :
    World × NodeId :=
  match parent with
  | none => w.enterRoot t p b
  | some id =>
    match w.nodes.get? id with
    | none => w.enterRoot t p b
    | some n => w.enterChild t id n

def seed (w : World) (id : NodeId) (entries : List (String × Value)) : World :=
  match w.nodes.get? id with
  | none => w
  | some n => w.withNode id (n.seed entries)

/-- Enters a context through an engine; a root gets the engine's identity. -/
def enterUnder (w : World) (t : ThreadId) (e : Engine) (parent : Option NodeId) : World × NodeId :=
  let (entered, id) := w.enter t parent e.policy e.bridge
  if parent.isNone then (entered.seed id e.seedData, id) else (entered, id)

end Ambient.World
