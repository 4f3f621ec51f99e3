import Ambient.Proofs.Action
import Ambient.Session.Run

/-
What sessions do to a process are runs of actions (`Session.run_acts`), so the
process of a session is reachable at every step (`Session.reachable_run`). A
session adds names, and refuses the steps whose names stand for nothing.
-/

namespace Ambient

/-- A thread brings a process into another state by some actions. -/
def Acts (t : ThreadId) (w w' : World) : Prop := ∃ as : List Action, w' = w.run (as.map fun a => (t, a))

namespace Acts

variable {t : ThreadId} {w w' w'' : World}

theorem refl (w : World) : Acts t w w := ⟨[], rfl⟩

theorem perform (a : Action) (h : Acts t w w') : Acts t w (w'.perform t a) := by
  obtain ⟨as, rfl⟩ := h
  exact ⟨as ++ [a], by rw [List.map_append, List.map_singleton, World.run_concat]⟩

theorem one (a : Action) : Acts t w (w.perform t a) := (refl w).perform a

theorem reachable (h : Acts t w w') (hr : Reachable w) : Reachable w' := by
  obtain ⟨as, rfl⟩ := h
  exact hr.run _

end Acts

namespace Session

variable {s : Session} {t : ThreadId}

/-! ## Outcomes -/

/-- A step on a session comes to actions of a thread. -/
def Outcome.Acts (o : Outcome) (t : ThreadId) (s : Session) : Prop := Ambient.Acts t s.world o.session.world

theorem acts_withNamed {α : Type} {name : String} {found : Option α} {next : α → Outcome}
    (h : ∀ a, found = some a → (next a).Acts t s) : (s.withNamed name found next).Acts t s := by
  cases found with
  | none => exact .refl s.world
  | some a => exact h a rfl

theorem acts_withOptional {α : Type} {name : Option String} {find : String → Option α}
    {next : Option α → Outcome} (h : ∀ a, (next a).Acts t s) : (s.withOptional name find next).Acts t s := by
  cases name with
  | none => exact h none
  | some name => exact acts_withNamed fun a _ => h (some a)

theorem acts_withNode {name : String} {next : NodeId → Outcome} (h : ∀ id, (next id).Acts t s) :
    (s.withNode name next).Acts t s :=
  acts_withNamed fun id _ => h id

theorem acts_withPlace {p : Place} {next : TableId → Outcome} (h : ∀ id, (next id).Acts t s) :
    (s.withPlace p next).Acts t s := by
  cases p with
  | table name => exact acts_withNamed fun id _ => h id
  | engine name => exact acts_withNamed fun e _ => h e.table

theorem acts_withParking {p : Place} {host : String} {next : TableId → Host → Outcome}
    (h : ∀ id k, (next id k).Acts t s) : (s.withParking p host next).Acts t s :=
  acts_withPlace fun id => acts_withNamed fun k _ => h id k

theorem acts_withConfig {document : Option String} {next : Config → Outcome} (h : ∀ c, (next c).Acts t s) :
    (s.withConfig document next).Acts t s := by
  unfold withConfig
  split
  · exact h _
  · exact .refl s.world

theorem acts_withCodec {engine : Option String} {next : Codec → Outcome} (h : ∀ c, (next c).Acts t s) :
    (s.withCodec engine next).Acts t s :=
  acts_withOptional fun _ => h _

theorem world_number (s : Session) (version : Nat) : (s.number version).1.world = s.world := by
  unfold number
  split <;> rfl

theorem world_answerPolicy (s : Session) (p : Policy) (key : Option String) :
    (s.answerPolicy p key).session.world = s.world := s.world_number p.version

theorem world_answerInfo (s : Session) (id : NodeId) : (s.answerInfo id).session.world = s.world := by
  unfold answerInfo info?
  cases s.world.nodes.get? id with
  | none => rfl
  | some n => exact s.world_number n.policy.version

theorem world_holdAndTell (s : Session) (name : String) (id : NodeId) :
    (s.holdAndTell name id).session.world = s.world.hold name id :=
  congrArg (·.hold name id) (s.world_answerInfo id)

theorem acts_inspect (p : Policy) (key : Option String) : (s.answerPolicy p key).Acts t s := by
  unfold Outcome.Acts
  rw [world_answerPolicy]
  exact .refl s.world

theorem engine?_eq_some {name : String} {e : Engine} (h : s.engine? name = some e) :
    ∃ id, s.world.engines.get? id = some e := by
  obtain ⟨id, -, h⟩ := Option.bind_eq_some_iff.1 h
  exact ⟨id, h⟩

/-! ## Steps -/

theorem acts_runPolicy (step : PolicyStep) : (s.runPolicy step).Acts t s := by
  have edit : ∀ {b k f}, (s.editBuilder b k f).Acts t s := acts_withNamed fun _ _ => .refl s.world
  cases step with
  | newBuilder b copied => exact acts_withOptional fun _ => .refl s.world
  | cloneBuilder b clone => exact acts_withNamed fun _ _ => .refl s.world
  | withTag b key isTag => exact edit
  | withDown b key mode => exact edit
  | withUp b key mode => exact edit
  | inferTag b key => exact acts_withNamed fun _ _ => .refl s.world
  | settings b key => exact acts_withNamed fun _ _ => .refl s.world
  | build b name =>
    refine acts_withNamed fun table _ => ?_
    unfold Outcome.Acts
    rw [world_answerPolicy]
    exact .one (.buildPolicy table)
  | inspect source key =>
    cases source with
    | policy name => exact acts_withNamed fun _ _ => acts_inspect ..
    | engine name => exact acts_withNamed fun _ _ => acts_inspect ..
    | node name => exact acts_withNode fun _ => acts_withNamed fun _ _ => acts_inspect ..

theorem acts_runTags (step : TagStep) : (s.runTags step).Acts t s := by
  cases step with
  | newBridge name b => exact .one (.addBridge b)
  | current name => exact acts_withNamed fun _ _ => .refl s.world
  | openScope name scope tags => exact acts_withNamed fun b _ => .one (.openScope b tags)
  | closeScope scope => exact acts_withNamed fun opened _ => .one (.closeScope opened)
  | facility name =>
    refine acts_withNamed fun b _ => ?_
    split <;> exact .refl s.world

theorem acts_runEngine (step : EngineStep) : (s.runEngine t step).Acts t s := by
  cases step with
  | newEngine name document bridge extractors =>
    refine acts_withOptional fun b => acts_withConfig fun c => ?_
    have added := Acts.one (t := t) (w := s.world) (.addEngine c b (extractors.foldl Codec.withExtractor .standard))
    cases s.engines.get? name with
    | none => exact added
    | some old => exact added.perform (.dropEngine old)
  | applyConfig name document =>
    refine acts_withNamed fun id _ => acts_withNamed fun e he => acts_withConfig fun c => ?_
    have := Acts.one (t := t) (w := s.world) (.applyConfig id c)
    simp only [World.perform, he] at this
    exact this
  | setFormat f => exact .one (.setFormat f)
  | headerNames name => exact acts_withNamed fun _ _ => .refl s.world
  | current name => exact acts_withNamed fun _ _ => .refl s.world

theorem acts_enterAs {name : String} {entered : World × NodeId}
    (h : Ambient.Acts t s.world (entered.1.hold name entered.2)) : (s.enterAs name entered).Acts t s := by
  unfold Outcome.Acts enterAs
  rw [world_holdAndTell]
  exact h

theorem acts_enterUnder {name engine : String} {e : Engine} (he : s.engine? engine = some e)
    (parent : Option NodeId) : (s.enterAs name (s.world.enterUnder t e parent)).Acts t s := by
  obtain ⟨id, hid⟩ := engine?_eq_some he
  have := Acts.one (t := t) (w := s.world) (.enterUnder name id parent)
  simp only [World.perform, hid] at this
  exact acts_enterAs this

theorem acts_runContext (step : ContextStep) : (s.runContext t step).Acts t s := by
  cases step with
  | enter name entrance =>
    cases entrance with
    | ambient engine => exact acts_withNamed fun e he => acts_enterUnder he _
    | under engine parent =>
      exact acts_withNamed fun e he => acts_withOptional fun _ => acts_enterUnder he _
    | direct parent policy bridge =>
      refine acts_withOptional fun id => acts_withOptional fun p => acts_withOptional fun b => ?_
      cases p with
      | some p => exact acts_enterAs (.one (.enter name id p b))
      | none => exact acts_enterAs ((Acts.one (.buildPolicy Dict.empty)).perform (.enter name id _ b))
  | holdCurrent name =>
    simp only [runContext, Outcome.Acts]
    split
    · exact .refl s.world
    · rw [world_holdAndTell]
      exact .one (.hold name _)
  | drop name => exact .one (.release name)
  | info name =>
    refine acts_withNode fun id => ?_
    unfold Outcome.Acts
    rw [world_answerInfo]
    exact .refl s.world
  | makeActive name => exact acts_withNode fun id => .one (.makeActive id)
  | beginExit name => exact acts_withNode fun id => .one (.beginExit id)
  | close name => exact acts_withNode fun id => .one (.close id)

theorem acts_runData (step : DataStep) : (s.runData step).Acts t s := by
  cases step with
  | set name key v => exact acts_withNode fun id => .one (.set id key v)
  | readDown name engine headers =>
    exact acts_withNode fun id => acts_withCodec fun c => .one (.readDown id c headers)
  | readUp name engine headers =>
    exact acts_withNode fun id => acts_withCodec fun c => .one (.readUp id c headers)
  | _ => exact acts_withNode fun _ => .refl s.world

theorem acts_withScope {scope : String} {next : Session → Token → Outcome}
    (h : ∀ s' token, s'.world = s.world → (next s' token).Acts t s) : (s.withScope t scope next).Acts t s :=
  acts_withNamed fun token _ => h _ token rfl

theorem acts_runStack (step : StackStep) : (s.runStack t step).Acts t s := by
  cases step with
  | attach name token => exact acts_withNode fun id => .one (.attach id)
  | detach token => exact acts_withNamed fun attached _ => .one (.detach attached)
  | enterScope name scope =>
    refine acts_withNode fun id => ?_
    have attached := Acts.one (t := t) (w := s.world) (.attach id)
    cases s.scopes.get? (t, scope) with
    | none => exact attached
    | some old => exact attached.perform (.dropScope old)
  | exitScope scope =>
    refine acts_withScope fun s' token hs => ?_
    unfold Outcome.Acts
    rw [← hs]
    exact .one (.detach token)
  | dropScope scope =>
    refine acts_withScope fun s' token hs => ?_
    unfold Outcome.Acts
    rw [← hs]
    exact .one (.dropScope token)
  | unwindScope name => exact acts_withNode fun id => .one (.unwindScope id)

theorem acts_runParking (step : ParkingStep) : (s.runParking t step).Acts t s := by
  cases step with
  | newTable name =>
    have added := Acts.one (t := t) (w := s.world) .addTable
    cases h : s.tables.get? name with
    | none =>
      simp only [Outcome.Acts, runParking, h]
      exact added
    | some old =>
      simp only [Outcome.Acts, runParking, h]
      exact added.perform (.dropTable old)
  | newHost name =>
    have added := Acts.one (t := t) (w := s.world) .addHost
    cases h : s.hosts.get? name with
    | none =>
      simp only [Outcome.Acts, runParking, h]
      exact added
    | some old =>
      simp only [Outcome.Acts, runParking, h]
      exact added.perform (.dropHost old)
  | dropHost name => exact acts_withNamed fun h _ => .one (.dropHost h)
  | store place host name singleUse =>
    exact acts_withParking fun table h => acts_withNode fun id => .one (.store table h id singleUse)
  | storeForPassing place name singleUse count =>
    exact acts_withPlace fun table => acts_withNode fun id => .one (.storeForPassing table id singleUse count)
  | resume place host token =>
    refine acts_withParking fun table h => ?_
    have resumed := Acts.one (t := t) (w := s.world) (.resume table h)
    simp only [World.perform] at resumed
    split <;> rename_i hr <;> rw [hr] at resumed <;> exact resumed
  | race place host count => exact acts_withParking fun table h => .one (.race table h count)
  | peek place host => exact acts_withParking fun _ _ => .refl s.world
  | clear place host => exact acts_withParking fun table h => .one (.clear table h)
  | purge place => exact acts_withPlace fun table => .one (.purge table)
  | size place => exact acts_withPlace fun _ => .refl s.world

/-- Whatever the step, the process after it is one that actions of the thread reach. -/
theorem run_acts (s : Session) (t : ThreadId) (step : Step) : (s.run t step).Acts t s := by
  cases step with
  | idle => exact .refl s.world
  | policy step => exact acts_runPolicy step
  | tags step => exact acts_runTags step
  | engine step => exact acts_runEngine step
  | context step => exact acts_runContext step
  | data step => exact acts_runData step
  | stack step => exact acts_runStack step
  | parking step => exact acts_runParking step
  | diagnostic subject =>
    cases subject with
    | node name => exact acts_withNode fun _ => acts_withNamed fun _ _ => .refl s.world
    | _ => exact acts_withNamed fun _ _ => .refl s.world

theorem reachable_run (h : Reachable s.world) (t : ThreadId) (step : Step) :
    Reachable (s.run t step).session.world := (s.run_acts t step).reachable h

/-- The process of a session that has run any steps on any threads is reachable. -/
theorem reachable_steps (lastObject : Nat) (steps : List (ThreadId × Step)) :
    Reachable (steps.foldl (fun s x => (s.run x.1 x.2).session) (Session.start lastObject)).world := by
  suffices h : ∀ s : Session, Reachable s.world →
      Reachable (steps.foldl (fun s x => (s.run x.1 x.2).session) s).world from h _ (.start lastObject)
  induction steps with
  | nil => exact fun _ h => h
  | cons x steps ih => exact fun s h => ih _ (reachable_run h x.1 x.2)

end Session

end Ambient
