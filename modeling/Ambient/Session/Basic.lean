import Ambient.Session.Step
import Ambient.World.Attach
import Ambient.World.Configure
import Ambient.World.Data
import Ambient.World.Enter
import Ambient.World.Lifecycle
import Ambient.World.Parking

/-
A session: a process, and what its callers hold under names. Giving a name to
something drops what had it before. Policies are told apart by small numbers, in
the order in which they first appear in an answer.
-/

namespace Ambient

/-- A process and the names of what its callers hold. -/
structure Session where
  world : World
  builders : Dict String PolicyTable
  policies : Dict String Policy
  bridges : Dict String BridgeId
  tagScopes : Dict String TagScope
  engines : Dict String EngineId
  tables : Dict String TableId
  hosts : Dict String Host
  tokens : Dict String Token
  /-- The scopes of each thread. -/
  scopes : Dict (ThreadId × String) Token
  /-- The policy versions that answers have shown, in order. -/
  versions : List Nat

namespace Session

def start (lastObject : Nat) : Session :=
  { world := World.start lastObject, builders := Dict.empty, policies := Dict.empty
    bridges := Dict.empty, tagScopes := Dict.empty, engines := Dict.empty, tables := Dict.empty
    hosts := Dict.empty, tokens := Dict.empty, scopes := Dict.empty, versions := [] }

/-- What a step comes to: an answer or a refusal, the session after it, and what it reports. -/
structure Outcome where
  result : Except Refusal Answer
  session : Session
  events : List Event

def answer (s : Session) (a : Answer) (events : List Event) : Outcome := ⟨.ok a, s, events⟩

def withWorld (s : Session) (w : World) : Session := { s with world := w }

/-- Goes on with what has a name, and refuses if nothing has it. -/
def withNamed {α : Type} (s : Session) (name : String) (found : Option α) (next : α → Outcome) : Outcome :=
  match found with
  | some a => next a
  | none => ⟨.error (.unknown name), s, []⟩

def withOptional {α : Type} (s : Session) (name : Option String) (find : String → Option α)
    (next : Option α → Outcome) : Outcome :=
  match name with
  | none => next none
  | some name => s.withNamed name (find name) fun a => next (some a)

def withNode (s : Session) (name : String) (next : NodeId → Outcome) : Outcome :=
  s.withNamed name (s.world.holders.get? name) next

def engine? (s : Session) (name : String) : Option Engine :=
  (s.engines.get? name).bind s.world.engines.get?

def withPlace (s : Session) (p : Place) (next : TableId → Outcome) : Outcome :=
  match p with
  | .table name => s.withNamed name (s.tables.get? name) next
  | .engine name => s.withNamed name (s.engine? name) fun e => next e.table

def withParking (s : Session) (p : Place) (host : String) (next : TableId → Host → Outcome) : Outcome :=
  s.withPlace p fun t => s.withNamed host (s.hosts.get? host) fun h => next t h

def ofRead {α : Type} (s : Session) (r : Except ContextError α) (show' : α → Answer) : Outcome :=
  ⟨(r.map show').mapError .context, s, []⟩

def ofReply (s : Session) (r : Reply Unit) : Outcome :=
  ⟨(r.result.map fun _ => Answer.nothing).mapError .context, s.withWorld r.world, r.events⟩

/-- The number of a policy version, the next one if it has none yet. -/
def number (s : Session) (version : Nat) : Session × Nat :=
  match s.versions.findIdx? (· == version) with
  | some i => (s, i + 1)
  | none => ({ s with versions := s.versions ++ [version] }, s.versions.length + 1)

def answerPolicy (s : Session) (p : Policy) (key : Option String) : Outcome :=
  let (s, version) := s.number p.version
  s.answer (.policy version p.table (key.map p.table.settings)) []

def info? (s : Session) (id : NodeId) : Option (Session × Info) :=
  (s.world.nodes.get? id).map fun n =>
    let (s, policy) := s.number n.policy.version
    (s, ⟨id, n.phase, n.synchronous, s.world.parentOf n, policy⟩)

def answerInfo (s : Session) (id : NodeId) : Outcome :=
  match s.info? id with
  | none => ⟨.error (.context (.closed id)), s, []⟩
  | some (s, i) => s.answer (.info i) []

/-- Tells of a node, and then holds it under a name. -/
def holdAndTell (s : Session) (name : String) (id : NodeId) : Outcome :=
  let o := s.answerInfo id
  { o with session := o.session.withWorld (o.session.world.hold name id) }

def phase? (s : Session) (name : String) : Option Phase :=
  ((s.world.holders.get? name).bind s.world.nodes.get?).map Node.phase

end Session

end Ambient
