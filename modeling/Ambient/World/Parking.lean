import Ambient.World.Attach

/-
Parking nodes against hosts and taking them up again, on any thread.
-/

namespace Ambient.World

def purgeReport (removed : Nat) : List Event := if removed = 0 then [] else [.purged removed]

def store (w : World) (t : TableId) (h : Host) (id : NodeId) (singleUse : Bool) : World × List Event :=
  let parked := (w.table t).park h id singleUse
  let after := (w.table t).store w.hostIsAlive h id singleUse
  (w.withTable t after, purgeReport (parked.size - after.size))

/-- Removes the entries of dropped hosts, and tells how many there were. -/
def purge (w : World) (t : TableId) : World × Nat × List Event :=
  let after := (w.table t).purge w.hostIsAlive
  let removed := (w.table t).size - after.size
  (w.withTable t after, removed, purgeReport removed)

def peek (w : World) (t : TableId) (h : Host) : Option NodeId := (w.table t).peek w.hostIsAlive h

def take (w : World) (t : TableId) (h : Host) : World × Option NodeId :=
  let (after, node) := (w.table t).take w.hostIsAlive h
  (w.withTable t after, node)

def resume (w : World) (thread : ThreadId) (t : TableId) (h : Host) : World × Option Token :=
  match w.take t h with
  | (w, none) => (w, none)
  | (w, some id) =>
    let (w, token) := w.attach thread id
    (w, some token)

/-- How many of so many threads take the node parked against a host; each undoes its
attachment at once. -/
def race (w : World) (t : TableId) (h : Host) : Nat → World × Nat
  | 0 => (w, 0)
  | n + 1 =>
    let (w, node) := w.take t h
    let (w, others) := w.race t h n
    (w, if node.isSome then others + 1 else others)

/-- Removes whatever is parked against a host, and gives it out. -/
def clear (w : World) (t : TableId) (h : Host) : World × Option NodeId :=
  let (after, node) := (w.table t).clear h
  (w.withTable t after, node)

/-- Parks a node against so many new hosts, each of which is dropped when it is done;
tells the size of the table after each. -/
def storeForPassing (w : World) (t : TableId) (id : NodeId) (singleUse : Bool) :
    Nat → World × List Nat × List Event
  | 0 => (w, [], [])
  | n + 1 =>
    let (w, h) := w.addHost
    let (w, events) := w.store t h id singleUse
    let size := (w.table t).size
    let (w, sizes, later) := (w.dropHost h).storeForPassing t id singleUse n
    (w, size :: sizes, events ++ later)

end Ambient.World
