import Ambient.World.Basic

/-
Opening and closing tag scopes through bridges.
-/

namespace Ambient.World

def tags (w : World) (b : BridgeId) : Tags := (w.bridge b).current

def openScope (w : World) (b : BridgeId) (tags : Tags) : World × TagScope × List Event :=
  (w.withBridge b ((w.bridge b).openScope tags), ⟨b, tags⟩, (w.bridge b).report true tags)

def closeScope (w : World) (s : TagScope) : World × List Event :=
  (w.withBridge s.bridge (w.bridge s.bridge).closeScope, (w.bridge s.bridge).report false s.tags)

/-- Closes a scope, if there is one. -/
def closeScope? (w : World) : Option TagScope → World × List Event
  | none => (w, [])
  | some s => w.closeScope s

end Ambient.World
