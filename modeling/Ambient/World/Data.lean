import Ambient.World.Basic

/-
Reading and writing the data of nodes, and carrying it between processes in the
headers of requests and responses.
-/

namespace Ambient.World

def get (w : World) (id : NodeId) (key : String) : Except ContextError (Option Value) :=
  w.ask id fun n => n.get key

/-- Writes a value, or a tombstone. -/
def set (w : World) (id : NodeId) (key : String) (v : Option Value) : Reply Unit :=
  w.change id fun n => n.set key v

def remoteParent (w : World) (id : NodeId) : Except ContextError (Option SpanContext) :=
  w.ask id Node.remoteParent

def downEntries (w : World) (id : NodeId) : Except ContextError (List (String × Value)) :=
  w.ask id Node.downEntries

def upEntries (w : World) (id : NodeId) : Except ContextError (List (String × Value)) :=
  w.ask id Node.upEntries

/-- The headers of a request; without a span context that of the remote parent is passed on. -/
def downHeaders (w : World) (id : NodeId) (span : Option SpanContext) : Except ContextError Headers := do
  let entries ← w.downEntries id
  let remote ← if span.isSome then pure none else w.remoteParent id
  return Codec.encode w.traceFormat entries (span.or remote)

def upHeaders (w : World) (id : NodeId) : Except ContextError Headers := do
  return Codec.encode w.traceFormat (← w.upEntries id) none

/-- Writes entries one after another, all or none. -/
def setAll (w : World) (id : NodeId) (entries : List (String × Value)) : Reply Unit :=
  if entries.isEmpty then ⟨.ok (), w, []⟩ else w.change id fun n => n.setAll entries

def sealSpan (w : World) (s : SpanContext) : Value := .sealed ⟨w.lastObject + 1, .span s⟩

/-- What the headers of a request write, and whether they seal a span context. -/
def requestEntries (w : World) (d : Decoded) : List (String × Value) :=
  d.entries.entries ++ (d.span.map fun s => (remoteParentKey, w.sealSpan s)).toList

/-- Takes the number of a sealed object, if one was made. -/
def countObject (w : World) (made : Bool) : World :=
  if made then { w with lastObject := w.lastObject + 1 } else w

def readDown (w : World) (id : NodeId) (c : Codec) (h : Headers) : Reply Unit :=
  let d := c.decode h
  let dropped := d.dropped.map Event.droppedSegment
  match w.setAll id (w.requestEntries d) with
  | ⟨.error e, _, _⟩ => ⟨.error e, w, dropped⟩
  | ⟨.ok _, w, _⟩ => ⟨.ok (), w.countObject d.span.isSome, dropped⟩

def readUp (w : World) (id : NodeId) (c : Codec) (h : Headers) : Reply Unit :=
  let d := c.decode h
  let r := w.setAll id d.entries.entries
  ⟨r.result, r.world, d.dropped.map Event.droppedSegment⟩

end Ambient.World
