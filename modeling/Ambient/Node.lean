import Ambient.Policy
import Ambient.Stack
import Ambient.Tagging
import Ambient.Value

/-
A context node: the data scope of one invocation. It inherits data, and its own
writes lie over what it inherits; a tombstone hides inherited data. Children get
a snapshot of the data that flows down: those entered on the node's thread while
it is open get the effective data, from a memo that is dropped when it may have
become stale; all others get the data as it stood when the entry phase ended.
-/

namespace Ambient

abbrev Data := Dict String Value

/-- Writes under keys; an absent value is a tombstone. -/
abbrev Writes := Dict String (Option Value)

def remoteParentKey : String := "remote_parent_span_context"

/-- An operation outside the phases in which it is legal. -/
structure WrongPhase where
  expected : PhaseSet
  actual : Phase
deriving DecidableEq

def WrongPhase.error (e : WrongPhase) (node : NodeId) : ContextError := .outside node e.expected e.actual

/-- A context node. -/
structure Node where
  policy : Policy
  /-- The thread that entered the node. -/
  thread : ThreadId
  /-- Entered on its parent's thread while the parent was open. -/
  synchronous : Bool
  bridge : Option BridgeId
  parent : Option NodeId
  phase : Phase
  inherited : Data
  /-- The data that flows down, as it stood when the entry phase ended. -/
  postEntry : Data
  writes : Writes
  /-- What the next synchronous child inherits, if that is known. -/
  memo : Option Data
  token : Option Token
  scope : Option TagScope
deriving DecidableEq

namespace Node

def fresh (policy : Policy) (thread : ThreadId) (synchronous : Bool) (bridge : Option BridgeId)
    (parent : Option NodeId) (inherited : Data) : Node :=
  { policy, thread, synchronous, bridge, parent, phase := .entry, inherited, postEntry := inherited,
    writes := Dict.empty, memo := none, token := none, scope := none }

def ensure (n : Node) (s : PhaseSet) : Except WrongPhase Unit :=
  if s.contains n.phase then .ok () else .error ⟨s, n.phase⟩

/-! ## Data -/

/-- The effective value of a key: the node's own write, else what it inherits. -/
def value (n : Node) (key : String) : Option Value :=
  match n.writes.get? key with
  | some v => v
  | none => n.inherited.get? key

def get (n : Node) (key : String) : Except WrongPhase (Option Value) := do
  n.ensure .untilClosed
  return n.value key

def memoAfter (n : Node) (key : String) : Option Data :=
  if n.phase.isOpen && n.policy.flowsDown key then none else n.memo

/-- Writes a value, or a tombstone. -/
def set (n : Node) (key : String) (v : Option Value) : Except WrongPhase Node := do
  n.ensure .untilClosed
  return { n with writes := n.writes.insert key v, memo := n.memoAfter key }

def setAll (n : Node) (entries : List (String × Value)) : Except WrongPhase Node :=
  entries.foldlM (fun n e => n.set e.1 (some e.2)) n

def seed (n : Node) (entries : List (String × Value)) : Node :=
  if n.phase = .entry then
    { n with writes := n.writes.insertAll (entries.map fun e => (e.1, some e.2)) }
  else n

/-! ## Snapshots -/

def writesDown (n : Node) : Bool := n.writes.entries.any fun e => n.policy.flowsDown e.1

def layOver (p : Policy) (d : Data) (e : String × Option Value) : Data :=
  if p.flowsDown e.1 then
    match e.2 with
    | some v => d.insert e.1 v
    | none => d.erase e.1
  else d

def overlay (n : Node) : Data := n.writes.entries.foldl (layOver n.policy) n.inherited

def snapshot (n : Node) : Data :=
  match n.memo with
  | some m => m
  | none => if n.writesDown then n.overlay else n.inherited

def joins (n : Node) (thread : ThreadId) : Bool := n.thread == thread && n.phase.isOpen

def handDown (n : Node) (thread : ThreadId) : Data := if n.joins thread then n.snapshot else n.postEntry

def remember (n : Node) (thread : ThreadId) : Node :=
  if n.joins thread then { n with memo := some n.snapshot } else n

/-- A child entered on a thread; `id` is the number of the node itself. -/
def child (n : Node) (id : NodeId) (thread : ThreadId) : Node :=
  fresh n.policy thread (n.joins thread) n.bridge (some id) (n.handDown thread)

/-! ## Lifecycle -/

def activate (n : Node) : Except WrongPhase Node := do
  n.ensure .onEntry
  let post := if n.writesDown then n.overlay else n.postEntry
  return { n with postEntry := post, memo := some post, phase := .active }

def changesTag (n : Node) (e : String × Option Value) : Bool :=
  n.policy.isTag e.1 && n.policy.flowsDown e.1 && !sameValue? e.2 (n.inherited.get? e.1)

/-- The tags in the data that flows down, ordered by key. -/
def tags (n : Node) : Tags :=
  n.postEntry.sorted.filterMap fun e =>
    if n.policy.isTag e.1 then e.2.wireText.map fun t => (e.1, t) else none

/-- The tags to publish when the entry phase ends: all of them, if one changed. -/
def changedTags (n : Node) : Option Tags :=
  if n.writes.entries.any n.changesTag then some n.tags else none

def beginExit (n : Node) : Except WrongPhase Node := do
  n.ensure .whenActive
  return { n with phase := .exit }

def upward (n : Node) : List (String × Option Value) :=
  n.writes.entries.filter fun e => n.policy.flowsUp e.1

def retire (n : Node) : Node :=
  { n with
    phase := .closed, memo := none, writes := Dict.empty, token := none, scope := none, parent := none }

def outdates (n : Node) (p : Policy) (e : String × Option Value) : Bool :=
  p.flowsDown e.1 && !sameValue? (n.value e.1) e.2

/-- Takes over the writes of a closed child; `p` is the child's policy. -/
def absorb (n : Node) (p : Policy) (entries : List (String × Option Value)) : Node :=
  { n with
    writes := n.writes.insertAll entries
    memo := if entries.any (n.outdates p) then none else n.memo }

/-! ## Wire view -/

/-- The effective entries: what is inherited and not written over, then the writes. -/
def effective (n : Node) : List (String × Option Value) :=
  ((n.inherited.filter fun k _ => !n.writes.contains k).entries.map fun e => (e.1, some e.2)) ++
    n.writes.entries

def wireEntries (n : Node) (accepts : String → Bool) : Except WrongPhase (List (String × Value)) := do
  n.ensure .untilClosed
  return n.effective.filterMap fun e =>
    if accepts e.1 then (e.2.filter Value.isPortable).map fun v => (e.1, v) else none

def downEntries (n : Node) : Except WrongPhase (List (String × Value)) :=
  n.wireEntries n.policy.flowsDown

def upEntries (n : Node) : Except WrongPhase (List (String × Value)) :=
  n.wireEntries fun k => (n.policy.upMode k).isGlobal

def remoteParent (n : Node) : Except WrongPhase (Option SpanContext) := do
  return (← n.get remoteParentKey).bind Value.span?

/-! ## Diagnostics -/

def phaseName : Phase → String
  | .entry => "Entry"
  | .active => "Active"
  | .exit => "Exit"
  | .closed => "Closed"

def writeDiagnostic (e : String × Option Value) : String :=
  Text.quoted e.1 ++ ": " ++
    match e.2 with
    | none => "None"
    | some v => "Some(" ++ v.diagnostic ++ ")"

/-- A node as diagnostics show it; its policy is not told apart from others. -/
def diagnostic (n : Node) (id : NodeId) : String :=
  "ContextNode \x7b id: " ++ Nat.repr id ++ ", phase: " ++ phaseName n.phase ++ ", synchronous: " ++
    Value.flagText n.synchronous ++ ", policy_version: V, overwrites: \x7b" ++
    ", ".intercalate (n.writes.entries.map writeDiagnostic) ++ "\x7d, .. \x7d"

end Node

end Ambient
