import Ambient.ContextError
import Ambient.Dict

/-
Parking contexts at the points where work is handed over. A table holds a
context against a host object, under the host's address; whoever later runs the
host takes the context up again. The table does not keep hosts alive. An entry
whose host is gone is never handed out and is removed sooner or later; until
then nothing else can have its address.
-/

namespace Ambient

abbrev TableId := Nat

/-- An object that work is handed over with. Its serial number is its identity. -/
structure Host where
  serial : Nat
  address : Nat
deriving DecidableEq

/-- A parked context. -/
structure Parked where
  /-- The serial number of the host. -/
  host : Nat
  node : NodeId
  /-- Handed out once only. -/
  singleUse : Bool
deriving DecidableEq

/-- Parked contexts under the addresses of their hosts, and the number of stores so far. -/
structure ContinuationTable where
  entries : Dict Nat Parked
  stores : Nat
deriving DecidableEq

namespace ContinuationTable

def empty : ContinuationTable := ⟨Dict.empty, 0⟩

def purgeInterval : Nat := 64

/-- The number of entries, those of dropped hosts included. -/
def size (t : ContinuationTable) : Nat := t.entries.size

def holds (t : ContinuationTable) (node : NodeId) : Bool := t.entries.entries.any fun e => e.2.node == node

/-- Parks a context, in place of what was parked there, and counts the store. -/
def park (t : ContinuationTable) (h : Host) (node : NodeId) (singleUse : Bool) : ContinuationTable :=
  ⟨t.entries.insert h.address ⟨h.serial, node, singleUse⟩, t.stores + 1⟩

def purge (t : ContinuationTable) (alive : Nat → Bool) : ContinuationTable :=
  { t with entries := t.entries.filter fun _ p => alive p.host }

def purgeIsDue (t : ContinuationTable) : Bool := t.stores % purgeInterval == 0

def store (t : ContinuationTable) (alive : Nat → Bool) (h : Host) (node : NodeId) (singleUse : Bool) :
    ContinuationTable :=
  let t := t.park h node singleUse
  if t.purgeIsDue then t.purge alive else t

def living (alive : Nat → Bool) (p : Parked) : Option NodeId := if alive p.host then some p.node else none

def entryAt (t : ContinuationTable) (h : Host) : Option Parked := t.entries.get? h.address

def removeAt (t : ContinuationTable) (h : Host) : ContinuationTable :=
  { t with entries := t.entries.erase h.address }

def peek (t : ContinuationTable) (alive : Nat → Bool) (h : Host) : Option NodeId :=
  (t.entryAt h).bind (living alive)

/-- Removes the entry at a host's address if a test accepts it, and gives it out: one
step, whatever else goes on. -/
def takeIf (t : ContinuationTable) (h : Host) (accepts : Parked → Bool) :
    ContinuationTable × Option Parked :=
  match (t.entryAt h).filter accepts with
  | some p => (t.removeAt h, some p)
  | none => (t, none)

/-- The context parked against a host for taking it up: a single-use entry is removed
with it, and so is the entry of a dropped host. -/
def take (t : ContinuationTable) (alive : Nat → Bool) (h : Host) : ContinuationTable × Option NodeId :=
  match t.takeIf h Parked.singleUse with
  | (t, some p) => (t, living alive p)
  | (t, none) =>
    match t.peek alive h with
    | some node => (t, some node)
    | none => ((t.takeIf h fun p => !alive p.host).1, none)

/-- Removes whatever is parked against a host, and gives it out. -/
def clear (t : ContinuationTable) (h : Host) : ContinuationTable × Option NodeId :=
  (t.removeAt h, (t.entryAt h).map Parked.node)

def diagnostic (t : ContinuationTable) : String :=
  "ContinuationTable \x7b entries: " ++ Nat.repr t.size ++ " \x7d"

end ContinuationTable

end Ambient
