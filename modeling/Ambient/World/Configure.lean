import Ambient.World.Basic

/-
Engines and their configuration. What an engine takes over counts for the roots
that are entered from then on; the trace format counts for all engines.
-/

namespace Ambient.World

def withEngine (w : World) (id : EngineId) (e : Engine) : World := { w with engines := w.engines.insert id e }

def withTraceFormat (w : World) (f : TraceFormat) : World := { w with traceFormat := f }

/-- Makes the policy of a configuration; tells the conflicts. -/
def resolve (w : World) (c : Config) : World × Policy × List Event :=
  let (w, p) := w.newPolicy c.settings.resolve
  (w, p, c.settings.conflicts.map Event.conflict ++ [.configured p.table.size c.traceFormat])

def applyConfig (w : World) (id : EngineId) (e : Engine) (c : Config) : World × List Event :=
  let (w, p, events) := w.resolve c
  ((w.withEngine id (e.configure p c)).withTraceFormat c.traceFormat, events)

def addEngine (w : World) (c : Config) (b : Option BridgeId) (codec : Codec) :
    World × EngineId × List Event :=
  let (w, blank) := w.newPolicy Dict.empty
  let (w, table) := w.addTable
  let id := w.lastNumber + 1
  let w := { w with lastNumber := id }
  let (w, events) := w.applyConfig id ⟨blank, [], b, codec, table⟩ c
  (w, id, events)

/-- Gives an engine up, and its table with it. -/
def dropEngine (w : World) (id : EngineId) : World :=
  match w.engines.get? id with
  | none => w
  | some e => { w with engines := w.engines.erase id }.dropTable e.table

end Ambient.World
