import Ambient.World.Configure
import Ambient.World.Data
import Ambient.World.Enter
import Ambient.World.Lifecycle
import Ambient.World.Parking

/-
Everything that threads can do to a process, as one type of actions, and the
processes that runs of actions reach. Nothing is asked of an action: it may name
a node that nobody holds any more, detach a token twice, or attach a node that
was never active. What holds of every reachable process therefore holds of
whatever callers bring about, in any order and on any threads.
-/

namespace Ambient

/-- What a thread can do to a process. Reading is no action, it changes nothing. -/
inductive Action where
  | buildPolicy (table : PolicyTable)
  | addBridge (bridge : Bridge)
  | openScope (bridge : BridgeId) (tags : Tags)
  | closeScope (scope : TagScope)
  | addEngine (config : Config) (bridge : Option BridgeId) (codec : Codec)
  | applyConfig (engine : EngineId) (config : Config)
  | dropEngine (engine : EngineId)
  | setFormat (format : TraceFormat)
  /-- Enters a context beneath a parent, or a root, and holds it under a name. -/
  | enter (name : String) (parent : Option NodeId) (policy : Policy) (bridge : Option BridgeId)
  /-- The same through an engine; beneath the ambient node if that is the parent. -/
  | enterUnder (name : String) (engine : EngineId) (parent : Option NodeId)
  | hold (name : String) (node : NodeId)
  | release (name : String)
  | makeActive (node : NodeId)
  | beginExit (node : NodeId)
  | close (node : NodeId)
  | set (node : NodeId) (key : String) (value : Option Value)
  | readDown (node : NodeId) (codec : Codec) (headers : Headers)
  | readUp (node : NodeId) (codec : Codec) (headers : Headers)
  | attach (node : NodeId)
  | detach (token : Token)
  | dropScope (token : Token)
  | unwindScope (node : NodeId)
  | addTable
  | dropTable (table : TableId)
  | addHost
  | dropHost (host : Host)
  | store (table : TableId) (host : Host) (node : NodeId) (singleUse : Bool)
  | storeForPassing (table : TableId) (node : NodeId) (singleUse : Bool) (count : Nat)
  | resume (table : TableId) (host : Host)
  | race (table : TableId) (host : Host) (count : Nat)
  | clear (table : TableId) (host : Host)
  | purge (table : TableId)

namespace World

/-- The process after an action on a thread. -/
def perform (w : World) (t : ThreadId) : Action → World
  | .buildPolicy table => (w.newPolicy table).1
  | .addBridge b => (w.addBridge b).1
  | .openScope b tags => (w.openScope b tags).1
  | .closeScope s => (w.closeScope s).1
  | .addEngine c b codec => (w.addEngine c b codec).1
  | .applyConfig id c =>
    match w.engines.get? id with
    | none => w
    | some e => (w.applyConfig id e c).1
  | .dropEngine id => w.dropEngine id
  | .setFormat f => w.withTraceFormat f
  | .enter name parent p b =>
    let (w, id) := w.enter t parent p b
    w.hold name id
  | .enterUnder name engine parent =>
    match w.engines.get? engine with
    | none => w
    | some e =>
      let (w, id) := w.enterUnder t e parent
      w.hold name id
  | .hold name id => w.hold name id
  | .release name => w.release name
  | .makeActive id => (w.makeActive t id).world
  | .beginExit id => (w.beginExit id).world
  | .close id => (w.close t id).world
  | .set id key v => (w.set id key v).world
  | .readDown id c h => (w.readDown id c h).world
  | .readUp id c h => (w.readUp id c h).world
  | .attach id => (w.attach t id).1
  | .detach token => (w.detach t token).world
  | .dropScope token => (w.dropScope t token).1
  | .unwindScope id => (w.unwindScope t id).1
  | .addTable => w.addTable.1
  | .dropTable table => w.dropTable table
  | .addHost => w.addHost.1
  | .dropHost h => w.dropHost h
  | .store table h id singleUse => (w.store table h id singleUse).1
  | .storeForPassing table id singleUse n => (w.storeForPassing table id singleUse n).1
  | .resume table h => (w.resume t table h).1
  | .race table h n => (w.race table h n).1
  | .clear table h => (w.clear table h).1
  | .purge table => (w.purge table).1

/-- The process after a run: actions of any threads, one after another. -/
def run (w : World) (as : List (ThreadId × Action)) : World := as.foldl (fun w a => w.perform a.1 a.2) w

@[simp] theorem run_nil (w : World) : w.run [] = w := rfl

theorem run_concat (w : World) (as : List (ThreadId × Action)) (t : ThreadId) (a : Action) :
    w.run (as ++ [(t, a)]) = (w.run as).perform t a := by
  simp [run]

end World

/-- A policy under which one key flows both ways, for sample runs. -/
def bothWays : Policy := ⟨1, Dict.ofList [("k", ⟨some .processLocal, some .processLocal, none⟩)]⟩

/-- The processes that runs reach. -/
inductive Reachable : World → Prop
  | start (lastObject : Nat) : Reachable (World.start lastObject)
  | step {w} (t : ThreadId) (a : Action) : Reachable w → Reachable (w.perform t a)

theorem Reachable.run {w : World} (h : Reachable w) (as : List (ThreadId × Action)) : Reachable (w.run as) := by
  induction as generalizing w with
  | nil => exact h
  | cons a as ih => exact ih (h.step a.1 a.2)

end Ambient
