import Ambient.ContextError

/-
The ambient stack of a thread. Attaching a context puts it on top and yields a
token; detaching the token takes the attachment off again, with whatever was
attached above it. Attachments are numbered and no number comes back, so a token
whose attachment is gone finds nothing, whatever stands there now.
-/

namespace Ambient

abbrev ThreadId := Nat

/-- A context that was made ambient. -/
structure Attachment where
  seq : Nat
  node : NodeId
deriving DecidableEq

/-- What undoes an attachment. -/
structure Token where
  node : NodeId
  seq : Nat
  thread : ThreadId
deriving DecidableEq

/-- The attachments of a thread, topmost first, and the number of the last one. -/
structure Stack where
  entries : List Attachment
  last : Nat
deriving DecidableEq

namespace Stack

def empty : Stack := ⟨[], 0⟩

def top? (s : Stack) : Option NodeId := s.entries.head?.map Attachment.node

def holds (s : Stack) (node : NodeId) : Bool := s.entries.any fun a => a.node == node

/-- Makes a context ambient; its attachment gets the next number. -/
def attach (s : Stack) (node : NodeId) : Stack := ⟨⟨s.last + 1, node⟩ :: s.entries, s.last + 1⟩

/-- The attachments from one number down; none if it is gone. -/
def fromSeq (s : Stack) (seq : Nat) : List Attachment := s.entries.dropWhile fun a => a.seq != seq

/-- Takes an attachment off, and everything above it. -/
def detach (s : Stack) (seq : Nat) : Stack :=
  match s.fromSeq seq with
  | [] => s
  | _ :: below => ⟨below, s.last⟩

/-- Whether detaching a token is in order: its attachment is topmost, or gone. -/
def check (s : Stack) (token : Token) : Except ContextError Unit :=
  if s.fromSeq token.seq = [] ∨ s.fromSeq token.seq = s.entries then .ok ()
  else .error (.detachMismatch token.node s.top?)

@[simp] theorem top?_attach (s : Stack) (node : NodeId) : (s.attach node).top? = some node := rfl

@[simp] theorem detach_attach (s : Stack) (node : NodeId) :
    ((s.attach node).detach (s.last + 1)).entries = s.entries := by
  simp [attach, detach, fromSeq]

end Stack

namespace Token

def diagnostic (t : Token) : String :=
  "AttachToken \x7b attached: " ++ Nat.repr t.node ++ ", seq: " ++ Nat.repr t.seq ++ " \x7d"

end Token

end Ambient
