import Ambient.Event

/-
Bridges to a tagging facility outside. A bridge tells which tags are ambient
there and opens scopes that replace them until they are closed. The recording
facility keeps its open scopes and everything that happened to it; a silent
bridge has no facility, and a logging one only reports.
-/

namespace Ambient

abbrev BridgeId := Nat

/-- Something that happened to a facility. -/
inductive FacilityEvent where
  | opened (tags : Tags)
  | closed
deriving DecidableEq

/-- A facility in memory: its open scopes, innermost first, and what happened, latest first. -/
structure Facility where
  scopes : List Tags
  history : List FacilityEvent
deriving DecidableEq

namespace Facility

def current (f : Facility) : Tags := f.scopes.headD []

def openScope (f : Facility) (tags : Tags) : Facility := ⟨tags :: f.scopes, .opened tags :: f.history⟩

def closeScope (f : Facility) : Facility := ⟨f.scopes.tail, .closed :: f.history⟩

/-- What happened, in order. -/
def events (f : Facility) : List FacilityEvent := f.history.reverse

def openedCount (f : Facility) : Nat := f.history.countP fun e => e != .closed

@[simp] theorem scopes_closeScope_openScope (f : Facility) (tags : Tags) :
    (f.openScope tags).closeScope.scopes = f.scopes := rfl

end Facility

/-- A bridge to a tagging facility. -/
inductive Bridge where
  | recording (facility : Facility)
  | silent
  | logging (level : Level)
deriving DecidableEq

namespace Bridge

def withAmbient (tags : Tags) : Bridge := .recording ⟨[tags], []⟩

def fresh : Bridge := .recording ⟨[], []⟩

def current : Bridge → Tags
  | recording f => f.current
  | silent => []
  | logging _ => []

/-- The level at which a logging bridge reports; what is graver than information is
reported as information. -/
def reported : Level → Level
  | .trace => .trace
  | .debug => .debug
  | _ => .info

def openScope : Bridge → Tags → Bridge
  | recording f, tags => recording (f.openScope tags)
  | b, _ => b

def closeScope : Bridge → Bridge
  | recording f => recording f.closeScope
  | b => b

def report (opens : Bool) (tags : Tags) : Bridge → List Event
  | logging level => [.tagScope (reported level) opens tags]
  | _ => []

end Bridge

/-- A scope that was opened through a bridge. -/
structure TagScope where
  bridge : BridgeId
  tags : Tags
deriving DecidableEq

end Ambient
