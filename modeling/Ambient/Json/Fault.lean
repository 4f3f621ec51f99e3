/-
What is wrong with a document. Reading goes from left to right and stops at the
first fault.
-/

namespace Ambient.Json

/-- The kinds of faults. -/
inductive Fault where
  /-- The document ends too early. -/
  | ended
  /-- The text is not a JSON document. -/
  | malformed
  /-- A well-formed value has the wrong type or name. -/
  | mismatch
deriving DecidableEq

def Fault.category : Fault → String
  | ended => "eof"
  | malformed => "syntax"
  | mismatch => "data"

abbrev Reader (α : Type) := List Char → Except Fault (α × List Char)

def isSpace (c : Char) : Bool := c == ' ' || c == '\n' || c == '\t' || c == '\r'

def skipSpace (s : List Char) : List Char := s.dropWhile isSpace

/-- Takes a word off the front of a text; a text that ends inside it has ended too early. -/
def readWord : (word s : List Char) → Except Fault (List Char)
  | [], s => .ok s
  | _ :: _, [] => .error .ended
  | w :: ws, c :: cs => if c = w then readWord ws cs else .error .malformed

@[simp] theorem readWord_append (w s : List Char) : readWord w (w ++ s) = .ok s := by
  induction w with
  | nil => rfl
  | cons c w ih => simpa [readWord] using ih

theorem skipSpace_cons {c : Char} (h : isSpace c = false) (s : List Char) :
    skipSpace (c :: s) = c :: s := by simp [skipSpace, h]

end Ambient.Json
