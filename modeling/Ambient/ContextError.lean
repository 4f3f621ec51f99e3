import Ambient.Phase

/-
Misuse of contexts and of the ambient stack by the code that drives them.
-/

namespace Ambient

abbrev NodeId := Nat

/-- What a caller did wrong. -/
inductive ContextError where
  /-- The context is closed. -/
  | closed (node : NodeId)
  /-- The operation is not legal in the phase of the context. -/
  | wrongPhase (node : NodeId) (expected : PhaseSet) (actual : Phase)
  /-- An attachment was undone that is not the topmost one. -/
  | detachMismatch (attached : NodeId) (ambient : Option NodeId)
  /-- An attachment was undone on another thread. -/
  | wrongThread
deriving DecidableEq

namespace ContextError

/-- The error of an operation outside its phases; a closed context is always reported as closed. -/
def outside (node : NodeId) (expected : PhaseSet) (actual : Phase) : ContextError :=
  if actual = .closed then .closed node else .wrongPhase node expected actual

/-- The number of an ambient context, or that there is none, as diagnostics show it. -/
def ambientText : Option NodeId → String
  | none => "None"
  | some n => "Some(" ++ Nat.repr n ++ ")"

def message : ContextError → String
  | closed n => "context " ++ Nat.repr n ++ " is closed"
  | wrongPhase n expected actual =>
    "context " ++ Nat.repr n ++ " is in phase " ++ actual.name ++ ", expected " ++ expected.text
  | detachMismatch attached ambient =>
    "detach out of order: token for context " ++ Nat.repr attached ++ " but ambient is " ++
      ambientText ambient
  | wrongThread => "detach on a different thread than the matching attach"

@[simp] theorem outside_closed (node : NodeId) (expected : PhaseSet) :
    outside node expected .closed = .closed node := rfl

end ContextError

end Ambient
