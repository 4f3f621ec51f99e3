import Ambient.World.Basic

/-
Making nodes ambient on a thread, and undoing that. A token counts on its own
thread only. Scopes are attachments whose undoing is only logged when it is out
of order.
-/

namespace Ambient.World

def attach (w : World) (t : ThreadId) (id : NodeId) : World × Token :=
  (w.withStack t ((w.stack t).attach id), ⟨id, (w.stack t).last + 1, t⟩)

/-- Undoes an attachment from a thread. What was attached above it goes too. -/
def detach (w : World) (t : ThreadId) (token : Token) : Reply Unit :=
  if token.thread = t then
    ⟨(w.stack t).check token, w.withStack t ((w.stack t).detach token.seq), []⟩
  else ⟨.error .wrongThread, w, []⟩

/-- Undoes an attachment, if there is one. -/
def detach? (w : World) (t : ThreadId) : Option Token → Reply Unit
  | none => ⟨.ok (), w, []⟩
  | some token => w.detach t token

/-- Drops a scope: its attachment is undone, and misuse is only reported. -/
def dropScope (w : World) (t : ThreadId) (token : Token) : World × List Event :=
  let r := w.detach t token
  (r.world, match r.result with
    | .ok _ => []
    | .error e => [.scopeOutOfOrder e])

/-- The node that is ambient inside a scope that is left at once by unwinding. -/
def unwindScope (w : World) (t : ThreadId) (id : NodeId) : World × Option NodeId × List Event :=
  let (inside, token) := w.attach t id
  let (after, events) := inside.dropScope t token
  (after, inside.current t, events)

end Ambient.World
