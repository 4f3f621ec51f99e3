import Ambient.Proofs.Action

/-
What callers and the log learn from an action: what it hands out or the error it
returns, and the events that it emits. `World.perform` tells the process after
the action, `World.report` what is learned from it, and `World.reports` what is
learned from a whole run.
-/

namespace Ambient

/-- What an action hands to its caller. -/
inductive Handed where
  | nothing
  | policy (policy : Policy)
  | bridge (bridge : BridgeId)
  | scope (scope : TagScope)
  | engine (engine : EngineId)
  | node (node : Option NodeId)
  | token (token : Option Token)
  | table (table : TableId)
  | host (host : Host)
  | count (n : Nat)
  | counts (ns : List Nat)

/-- What is learned from an action. -/
structure Report where
  result : Except ContextError Handed
  events : List Event

namespace Report

def silent : Report := ⟨.ok .nothing, []⟩

/-- The report of an action that hands something out and emits no event. -/
def handing (h : Handed) : Report := ⟨.ok h, []⟩

/-- The report of an action that only emits events. -/
def emitting (es : List Event) : Report := ⟨.ok .nothing, es⟩

def ofReply (r : Reply Unit) : Report := ⟨r.result.map fun _ => .nothing, r.events⟩

end Report

namespace World

/-- What is learned from an action on a thread. -/
def report (w : World) (t : ThreadId) : Action → Report
  | .buildPolicy table => .handing (.policy (w.newPolicy table).2)
  | .addBridge b => .handing (.bridge (w.addBridge b).2)
  | .openScope b tags =>
    let (_, scope, events) := w.openScope b tags
    ⟨.ok (.scope scope), events⟩
  | .closeScope s => .emitting (w.closeScope s).2
  | .addEngine c b codec =>
    let (_, id, events) := w.addEngine c b codec
    ⟨.ok (.engine id), events⟩
  | .applyConfig id c =>
    match w.engines.get? id with
    | none => .silent
    | some e => .emitting (w.applyConfig id e c).2
  | .dropEngine _ => .silent
  | .setFormat _ => .silent
  | .enter _ parent p b => .handing (.node (w.enter t parent p b).2)
  | .enterUnder _ engine parent =>
    match w.engines.get? engine with
    | none => .silent
    | some e => .handing (.node (w.enterUnder t e parent).2)
  | .hold _ _ => .silent
  | .release _ => .silent
  | .makeActive id => .ofReply (w.makeActive t id)
  | .beginExit id => .ofReply (w.beginExit id)
  | .close id => .ofReply (w.close t id)
  | .set id key v => .ofReply (w.set id key v)
  | .readDown id c h => .ofReply (w.readDown id c h)
  | .readUp id c h => .ofReply (w.readUp id c h)
  | .attach id => .handing (.token (w.attach t id).2)
  | .detach token => .ofReply (w.detach t token)
  | .dropScope token => .emitting (w.dropScope t token).2
  | .unwindScope id =>
    let (_, inside, events) := w.unwindScope t id
    ⟨.ok (.node inside), events⟩
  | .addTable => .handing (.table w.addTable.2)
  | .dropTable _ => .silent
  | .addHost => .handing (.host w.addHost.2)
  | .dropHost _ => .silent
  | .store table h id singleUse => .emitting (w.store table h id singleUse).2
  | .storeForPassing table id singleUse n =>
    let (_, sizes, events) := w.storeForPassing table id singleUse n
    ⟨.ok (.counts sizes), events⟩
  | .resume table h => .handing (.token (w.resume t table h).2)
  | .race table h n => .handing (.count (w.race table h n).2)
  | .clear table h => .handing (.node (w.clear table h).2)
  | .purge table =>
    let (_, removed, events) := w.purge table
    ⟨.ok (.count removed), events⟩

/-- What is learned from a run, action by action. -/
def reports (w : World) : List (ThreadId × Action) → List Report
  | [] => []
  | a :: as => w.report a.1 a.2 :: (w.perform a.1 a.2).reports as

end World

end Ambient
