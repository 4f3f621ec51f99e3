import Ambient.ContextError
import Ambient.Settings
import Ambient.Text.Quoted
import Ambient.Wire.Baggage
import Ambient.Wire.TraceFormat

/-
The events that operations report, with the level, the message and the fields
under which a log shows them.
-/

namespace Ambient

/-- The levels of events. -/
inductive Level where
  | trace
  | debug
  | info
  | warn
  | error
deriving DecidableEq

def Level.name : Level → String
  | trace => "TRACE"
  | debug => "DEBUG"
  | info => "INFO"
  | warn => "WARN"
  | error => "ERROR"

def Level.all : List Level := [trace, debug, info, warn, error]

abbrev Tags := List (String × String)

namespace Tags

def diagnostic (t : Tags) : String :=
  "[" ++ ", ".intercalate (t.map fun e => "(" ++ Text.quoted e.1 ++ ", " ++ Text.quoted e.2 ++ ")") ++ "]"

end Tags

/-- What happened. -/
inductive Event where
  /-- A segment of a baggage header was dropped. -/
  | droppedSegment (dropped : DroppedSegment)
  /-- A configured setting replaced another one. -/
  | conflict (conflict : Conflict)
  /-- An engine took a configuration over. -/
  | configured (keys : Nat) (format : TraceFormat)
  /-- An asynchronous context closed and its data did not flow up. -/
  | skippedUpward (node parent : NodeId)
  /-- A parent was no longer open when data flowed up. -/
  | parentNotOpen (parent : NodeId) (phase : Phase)
  /-- Parked contexts of dropped hosts were removed. -/
  | purged (removed : Nat)
  /-- A context closed while others were attached above it, or on another thread. -/
  | closedOutOfOrder (node : NodeId) (error : ContextError)
  /-- A scope was dropped while others were attached above it. -/
  | scopeOutOfOrder (error : ContextError)
  /-- A logging bridge opened or closed a scope. -/
  | tagScope (level : Level) (opens : Bool) (tags : Tags)
deriving DecidableEq

namespace Event

def level : Event → Level
  | droppedSegment _ => .debug
  | conflict _ => .info
  | configured _ _ => .info
  | skippedUpward _ _ => .debug
  | parentNotOpen _ _ => .debug
  | purged _ => .debug
  | closedOutOfOrder _ _ => .warn
  | scopeOutOfOrder _ => .warn
  | tagScope l _ _ => l

def message : Event → String
  | droppedSegment _ => "Dropping malformed baggage entry"
  | conflict _ => "Propagation setting overridden by higher precedence source"
  | configured _ _ => "Applying propagation configuration"
  | skippedUpward _ _ => "Skipping up-propagation from asynchronous context"
  | parentNotOpen _ _ => "Parent no longer open, dropping up-propagation"
  | purged _ => "Purged parked contexts of dropped hosts"
  | closedOutOfOrder _ _ => "Context closed out of order"
  | scopeOutOfOrder _ => "Ambient scope dropped out of order"
  | tagScope _ _ _ => "Tag scope"

def fields : Event → List (String × String)
  | droppedSegment d => [("segment", d.segment), ("issue", d.issue.message)]
  | conflict c =>
    [("key", c.key), ("field", c.field.name), ("overridden", c.overridden.name), ("winner", c.winner.name)]
  | configured keys format => [("keys", Nat.repr keys), ("trace_format", format.name)]
  | skippedUpward node parent => [("node", Nat.repr node), ("parent", Nat.repr parent)]
  | parentNotOpen parent phase => [("node", Nat.repr parent), ("phase", phase.name)]
  | purged removed => [("removed", Nat.repr removed)]
  | closedOutOfOrder node error => [("node", Nat.repr node), ("error", error.message)]
  | scopeOutOfOrder error => [("error", error.message)]
  | tagScope _ opens tags =>
    [("action", if opens then "open" else "close"), ("tags", tags.diagnostic)]

end Event

end Ambient
