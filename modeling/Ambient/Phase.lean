/-
The life of a context: it is filled on entry, ambient while active, still open
while exiting, and closed in the end.
-/

namespace Ambient

/-- The phases of a context. -/
inductive Phase where
  | entry
  | active
  | exit
  | closed
deriving DecidableEq

namespace Phase

def name : Phase → String
  | entry => "ENTRY"
  | active => "ACTIVE"
  | exit => "EXIT"
  | closed => "CLOSED"

def isOpen : Phase → Bool
  | active => true
  | exit => true
  | _ => false

end Phase

/-- The sets of phases in which operations are legal. -/
inductive PhaseSet where
  | onEntry
  | whenActive
  | whileOpen
  | untilClosed
deriving DecidableEq

namespace PhaseSet

/-- The phases of a set, in order. -/
def phases : PhaseSet → List Phase
  | onEntry => [.entry]
  | whenActive => [.active]
  | whileOpen => [.active, .exit]
  | untilClosed => [.entry, .active, .exit]

def contains (s : PhaseSet) (p : Phase) : Bool := s.phases.contains p

/-- The names of the phases, with bars between them. -/
def text (s : PhaseSet) : String := "|".intercalate (s.phases.map Phase.name)

/-- No set holds the closed phase. -/
@[simp] theorem contains_closed (s : PhaseSet) : s.contains .closed = false := by cases s <;> rfl

theorem contains_whileOpen (p : Phase) : whileOpen.contains p = p.isOpen := by cases p <;> rfl

end PhaseSet

end Ambient
