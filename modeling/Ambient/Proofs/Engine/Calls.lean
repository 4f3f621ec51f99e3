import Ambient.Proofs.Tags.Scopes
import Mathlib.Logic.Function.Basic

/-
Calls on one engine that are under way at once: taking a configuration over, and entering a
root. The policy of an engine and its identity lie behind a lock each, and a call takes one
lock after the other, to write or to read. What a call does with what it shares with others
is a step each; steps of different calls come in any order. A call whose steps follow upon
one another does what the world does in one (`Scene.run_apply`, `Scene.run_enter`).
-/

namespace Ambient.Configuring

/-- A call on an engine. -/
inductive Call where
  | apply (c : Config)
  | enter (t : ThreadId)
deriving DecidableEq

/-- The locks of an engine. -/
inductive Lock where
  | policy
  | identity
deriving DecidableEq

/-- How far a call has come: what it does next, and what it holds by then. -/
inductive Stage where
  | resolve (c : Config)
  | writePolicy (c : Config) (p : Policy)
  | writeIdentity (c : Config) (p : Policy)
  | readFormat (c : Config) (p : Policy)
  | writeFormat (c : Config) (p : Policy)
  | applied (c : Config) (p : Policy)
  | readPolicy (t : ThreadId)
  | addNode (t : ThreadId) (p : Policy)
  | readIdentity (id : NodeId)
  | seed (id : NodeId) (data : List (String × Value))
  | entered (id : NodeId)

def Call.begin : Call → Stage
  | apply c => .resolve c
  | enter t => .readPolicy t

namespace Stage

/-- The lock that is held for the next step. -/
def lock? : Stage → Option Lock
  | writePolicy _ _ | readPolicy _ => some .policy
  | writeIdentity _ _ | readIdentity _ => some .identity
  | _ => none

/-- The next step: the world after it, how far the call has come then, and what it reports. -/
def next (w : World) (x : EngineId) (e : Engine) : Stage → World × Stage × List Event
  | resolve c =>
    let (w, p, events) := w.resolve c
    (w, writePolicy c p, events)
  | writePolicy c p => (w.withEngine x (e.withPolicy p), writeIdentity c p, [])
  | writeIdentity c p => (w.withEngine x (e.withIdentity c.identity), readFormat c p, [])
  | readFormat c p => (w, if w.traceFormat = c.traceFormat then applied c p else writeFormat c p, [])
  | writeFormat c p => (w.withTraceFormat c.traceFormat, applied c p, [])
  | readPolicy t => (w, addNode t e.policy, [])
  | addNode t p =>
    let (w, id) := w.enterRoot t p e.bridge
    (w, readIdentity id, [])
  | readIdentity id => (w, seed id e.seedData, [])
  | seed id data => (w.seed id data, entered id, [])
  | s => (w, s, [])

end Stage

/-- A world, and the calls that are under way on one of its engines. -/
structure Scene where
  world : World
  engine : EngineId
  stages : Nat → Stage
  /-- The locks that were taken, and by which call, in order. -/
  log : List (Lock × Nat)
  events : List Event

namespace Scene

/-- The next step of a call. -/
def step (s : Scene) (n : Nat) : Scene :=
  match s.world.engines.get? s.engine with
  | none => s
  | some e =>
    let (world, stage, events) := (s.stages n).next s.world s.engine e
    { world, engine := s.engine, stages := Function.update s.stages n stage
      log := s.log ++ ((s.stages n).lock?.map fun l => (l, n)).toList, events := s.events ++ events }

/-- Steps of calls, in the order of their numbers in the list. -/
def run (s : Scene) (ns : List Nat) : Scene := ns.foldl step s

variable {s : Scene} {e : Engine} {n : Nat} {stage : Stage}

theorem step_eq (he : s.world.engines.get? s.engine = some e) (hn : s.stages n = stage) :
    s.step n = ⟨(stage.next s.world s.engine e).1, s.engine,
      Function.update s.stages n (stage.next s.world s.engine e).2.1,
      s.log ++ (stage.lock?.map fun l => (l, n)).toList, s.events ++ (stage.next s.world s.engine e).2.2⟩ := by
  subst hn
  simp only [step, he]

/-- Taking a configuration over without a break. -/
theorem run_apply {c : Config} (he : s.world.engines.get? s.engine = some e) (hn : s.stages n = .resolve c) :
    s.run [n, n, n, n, n] = ⟨(s.world.applyConfig s.engine e c).1, s.engine,
      Function.update s.stages n (.applied c (s.world.resolve c).2.1),
      s.log ++ [(.policy, n), (.identity, n)], s.events ++ (s.world.applyConfig s.engine e c).2⟩ := by
  obtain ⟨w, x, stages, log, events⟩ := s
  dsimp only at he hn
  -- The format is written only if it is another one.
  by_cases hf : w.traceFormat = c.traceFormat <;>
    simp [run, step, he, hn, hf, Stage.next, Stage.lock?, World.applyConfig, World.resolve, World.newPolicy,
      World.withEngine, World.withTraceFormat, Engine.configure]

/-- Entering a root without a break. -/
theorem run_enter {t : ThreadId} (he : s.world.engines.get? s.engine = some e) (hn : s.stages n = .readPolicy t) :
    s.run [n, n, n, n] = ⟨(s.world.enterUnder t e none).1, s.engine,
      Function.update s.stages n (.entered (s.world.enterUnder t e none).2),
      s.log ++ [(.policy, n), (.identity, n)], s.events⟩ := by
  obtain ⟨w, x, stages, log, events⟩ := s
  dsimp only at he hn
  have still : (w.enterRoot t e.policy e.bridge).1.engines.get? x = some e := by
    rw [show (w.enterRoot t e.policy e.bridge).1.engines = w.engines from
      (w.sameBridges_enter t none e.policy e.bridge).engines, he]
  simp [run, step, he, hn, still, Stage.next, Stage.lock?, World.enterUnder, World.enter]

/-! ## Making an engine -/

/-- An engine without a bridge that is being made and has no configuration yet. -/
def blank (w : World) (codec : Codec) (calls : Nat → Call) : Scene :=
  let (w, p) := w.newPolicy Dict.empty
  let (w, table) := w.addTable
  let x := w.lastNumber + 1
  { world := { w with lastNumber := x }.withEngine x ⟨p, [], none, codec, table⟩, engine := x
    stages := fun n => (calls n).begin, log := [], events := [] }

end Scene

/-- The calls on an engine. The first belongs to making it, and any number may come later. -/
def numbered (c : Config) (later : Nat → Call) : Nat → Call
  | 0 => .apply c
  | n + 1 => later n

namespace Scene

/-- An engine that was made with a configuration, before any later call on it. -/
def opened (w : World) (c : Config) (codec : Codec) (later : Nat → Call) : Scene :=
  (blank w codec (numbered c later)).run [0, 0, 0, 0, 0]

/-- The policy that an engine is made with: the second one that its making makes. -/
def firstPolicy (w : World) (c : Config) : Policy := ⟨w.lastVersion + 2, c.settings.resolve⟩

theorem opened_eq (w : World) (c : Config) (codec : Codec) (later : Nat → Call) :
    opened w c codec later = ⟨(w.addEngine c none codec).1, (w.addEngine c none codec).2.1,
      Function.update (fun n => (numbered c later n).begin) 0 (.applied c (firstPolicy w c)),
      [(.policy, 0), (.identity, 0)], (w.addEngine c none codec).2.2⟩ := by
  have alone := run_apply (s := blank w codec (numbered c later)) (n := 0) (c := c)
    ((Dict.get?_insert ..).trans (if_pos rfl)) rfl
  have made : ∀ (v : World) x e e', (v.withEngine x e).applyConfig x e' c = v.applyConfig x e' c := by
    intro v x e e'
    simp [World.applyConfig, World.resolve, World.newPolicy, World.withEngine]
  refine alone.trans ?_
  simp only [blank, made]
  rfl

theorem get?_addEngine (w : World) (c : Config) (codec : Codec) :
    (w.addEngine c none codec).1.engines.get? (w.addEngine c none codec).2.1 =
      some ⟨firstPolicy w c, c.identity, none, codec, w.lastNumber + 1⟩ :=
  (Dict.get?_insert ..).trans (if_pos rfl)

end Scene

end Ambient.Configuring
