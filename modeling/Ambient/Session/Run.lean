import Ambient.Session.Basic

/-
What each step of a session comes to.
-/

namespace Ambient.Session

def changeBuilder (s : Session) (builder key : String) (changed : Option Bool) (t : PolicyTable) : Outcome :=
  { s with builders := s.builders.insert builder t }.answer (.settings changed (t.get? key)) []

def editBuilder (s : Session) (builder key : String) (edit : PolicyTable → PolicyTable) : Outcome :=
  s.withNamed builder (s.builders.get? builder) fun t => s.changeBuilder builder key none (edit t)

def runPolicy (s : Session) : PolicyStep → Outcome
  | .newBuilder b copied =>
    s.withOptional copied s.policies.get? fun p =>
      { s with builders := s.builders.insert b ((p.map Policy.table).getD Dict.empty) }.answer .nothing []
  | .cloneBuilder b clone =>
    s.withNamed b (s.builders.get? b) fun t =>
      { s with builders := s.builders.insert clone t }.answer .nothing []
  | .withTag b key isTag => s.editBuilder b key fun t => t.withTag key isTag
  | .withDown b key mode => s.editBuilder b key fun t => t.withDown key mode
  | .withUp b key mode => s.editBuilder b key fun t => t.withUp key mode
  | .inferTag b key =>
    s.withNamed b (s.builders.get? b) fun t =>
      s.changeBuilder b key (some (t.infersTag key)) (t.inferTagIfOpen key)
  | .settings b key =>
    s.withNamed b (s.builders.get? b) fun t => s.answer (.settings none (t.get? key)) []
  | .build b name =>
    s.withNamed b (s.builders.get? b) fun t =>
      let (w, p) := s.world.newPolicy t
      { s.withWorld w with policies := s.policies.insert name p }.answerPolicy p none
  | .inspect (.policy name) key =>
    s.withNamed name (s.policies.get? name) fun p => s.answerPolicy p key
  | .inspect (.engine name) key =>
    s.withNamed name (s.engine? name) fun e => s.answerPolicy e.policy key
  | .inspect (.node name) key =>
    s.withNode name fun id =>
      s.withNamed name (s.world.nodes.get? id) fun n => s.answerPolicy n.policy key

def runTags (s : Session) : TagStep → Outcome
  | .newBridge name b =>
    let (w, id) := s.world.addBridge b
    { s.withWorld w with bridges := s.bridges.insert name id }.answer .nothing []
  | .current name =>
    s.withNamed name (s.bridges.get? name) fun b => s.answer (.tags (s.world.tags b)) []
  | .openScope name scope tags =>
    s.withNamed name (s.bridges.get? name) fun b =>
      let (w, opened, events) := s.world.openScope b tags
      { s.withWorld w with tagScopes := s.tagScopes.insert scope opened }.answer .nothing events
  | .closeScope scope =>
    s.withNamed scope (s.tagScopes.get? scope) fun opened =>
      let (w, events) := s.world.closeScope opened
      { s.withWorld w with tagScopes := s.tagScopes.erase scope }.answer .nothing events
  | .facility name =>
    s.withNamed name (s.bridges.get? name) fun b =>
      match s.world.bridge b with
      | .recording f => s.answer (.facility f) []
      | _ => ⟨.error (.unknown name), s, []⟩

/-- Reads a configuration document; without one everything keeps its default. -/
def withConfig (s : Session) (document : Option String) (next : Config → Outcome) : Outcome :=
  match document.elim (.ok Config.default) Config.read with
  | .ok c => next c
  | .error fault => ⟨.error (.document fault), s, []⟩

def runEngine (s : Session) (t : ThreadId) : EngineStep → Outcome
  | .newEngine name document bridge extractors =>
    s.withOptional bridge s.bridges.get? fun b =>
      s.withConfig document fun c =>
        let codec := extractors.foldl Codec.withExtractor Codec.standard
        let (w, id, events) := s.world.addEngine c b codec
        let w := match s.engines.get? name with
          | none => w
          | some old => w.dropEngine old
        { s.withWorld w with engines := s.engines.insert name id }.answer (.format w.traceFormat) events
  | .applyConfig name document =>
    s.withNamed name (s.engines.get? name) fun id =>
      s.withNamed name (s.world.engines.get? id) fun e =>
        s.withConfig document fun c =>
          let (w, events) := s.world.applyConfig id e c
          (s.withWorld w).answer (.format w.traceFormat) events
  | .setFormat f => (s.withWorld (s.world.withTraceFormat f)).answer (.format f) []
  | .headerNames name =>
    s.withNamed name (s.engine? name) fun e => s.answer (.names e.codec.declaredHeaderNames) []
  | .current name => s.withNamed name (s.engine? name) fun _ => s.answer (.node (s.world.current t)) []

def enterAs (s : Session) (name : String) (entered : World × NodeId) : Outcome :=
  (s.withWorld entered.1).holdAndTell name entered.2

def runContext (s : Session) (t : ThreadId) : ContextStep → Outcome
  | .enter name (.ambient engine) =>
    s.withNamed engine (s.engine? engine) fun e =>
      s.enterAs name (s.world.enterUnder t e (s.world.current t))
  | .enter name (.under engine parent) =>
    s.withNamed engine (s.engine? engine) fun e =>
      s.withOptional parent s.world.holders.get? fun id =>
        s.enterAs name (s.world.enterUnder t e id)
  | .enter name (.direct parent policy bridge) =>
    s.withOptional parent s.world.holders.get? fun id =>
      s.withOptional policy s.policies.get? fun p =>
        s.withOptional bridge s.bridges.get? fun b =>
          let (w, p) := match p with
            | some p => (s.world, p)
            | none => s.world.newPolicy Dict.empty
          s.enterAs name (w.enter t id p b)
  | .holdCurrent name =>
    match s.world.current t with
    | none => s.answer (.node none) []
    | some id => s.holdAndTell name id
  | .drop name => (s.withWorld (s.world.release name)).answer .nothing []
  | .info name => s.withNode name s.answerInfo
  | .makeActive name => s.withNode name fun id => s.ofReply (s.world.makeActive t id)
  | .beginExit name => s.withNode name fun id => s.ofReply (s.world.beginExit id)
  | .close name => s.withNode name fun id => s.ofReply (s.world.close t id)

def withCodec (s : Session) (engine : Option String) (next : Codec → Outcome) : Outcome :=
  s.withOptional engine s.engine? fun e => next ((e.map Engine.codec).getD .standard)

def runData (s : Session) : DataStep → Outcome
  | .get name key => s.withNode name fun id => s.ofRead (s.world.get id key) .value
  | .dump name keys =>
    s.withNode name fun id =>
      s.ofRead (keys.mapM fun k => (s.world.get id k).map fun v => (k, v)) .values
  | .set name key v => s.withNode name fun id => s.ofReply (s.world.set id key v)
  | .remoteParent name => s.withNode name fun id => s.ofRead (s.world.remoteParent id) .span
  | .downEntries name => s.withNode name fun id => s.ofRead (s.world.downEntries id) .entries
  | .upEntries name => s.withNode name fun id => s.ofRead (s.world.upEntries id) .entries
  | .downHeaders name span => s.withNode name fun id => s.ofRead (s.world.downHeaders id span) .headers
  | .upHeaders name => s.withNode name fun id => s.ofRead (s.world.upHeaders id) .headers
  | .readDown name engine headers =>
    s.withNode name fun id => s.withCodec engine fun c => s.ofReply (s.world.readDown id c headers)
  | .readUp name engine headers =>
    s.withNode name fun id => s.withCodec engine fun c => s.ofReply (s.world.readUp id c headers)

/-- Takes a scope of a thread, which then has no name any more. -/
def withScope (s : Session) (t : ThreadId) (scope : String) (next : Session → Token → Outcome) : Outcome :=
  s.withNamed scope (s.scopes.get? (t, scope)) fun token =>
    next { s with scopes := s.scopes.erase (t, scope) } token

def runStack (s : Session) (t : ThreadId) : StackStep → Outcome
  | .attach name token =>
    s.withNode name fun id =>
      let (w, attached) := s.world.attach t id
      { s.withWorld w with tokens := s.tokens.insert token attached }.answer (.node (some id)) []
  | .detach token =>
    s.withNamed token (s.tokens.get? token) fun attached =>
      { s with tokens := s.tokens.erase token }.ofReply (s.world.detach t attached)
  | .enterScope name scope =>
    s.withNode name fun id =>
      let (w, attached) := s.world.attach t id
      let (w, events) := match s.scopes.get? (t, scope) with
        | none => (w, [])
        | some old => w.dropScope t old
      { s.withWorld w with scopes := s.scopes.insert (t, scope) attached }.answer .nothing events
  | .exitScope scope => s.withScope t scope fun s token => s.ofReply (s.world.detach t token)
  | .dropScope scope =>
    s.withScope t scope fun s token =>
      let (w, events) := s.world.dropScope t token
      (s.withWorld w).answer .nothing events
  | .unwindScope name =>
    s.withNode name fun id =>
      let (w, inside, events) := s.world.unwindScope t id
      (s.withWorld w).answer (.node inside) events

def runParking (s : Session) (t : ThreadId) : ParkingStep → Outcome
  | .newTable name =>
    let (w, id) := s.world.addTable
    let w := match s.tables.get? name with
      | none => w
      | some old => w.dropTable old
    { s.withWorld w with tables := s.tables.insert name id }.answer .nothing []
  | .newHost name =>
    let (w, h) := s.world.addHost
    let w := match s.hosts.get? name with
      | none => w
      | some old => w.dropHost old
    { s.withWorld w with hosts := s.hosts.insert name h }.answer .nothing []
  | .dropHost name =>
    s.withNamed name (s.hosts.get? name) fun h =>
      { s.withWorld (s.world.dropHost h) with hosts := s.hosts.erase name }.answer .nothing []
  | .store place host name singleUse =>
    s.withParking place host fun table h =>
      s.withNode name fun id =>
        let (w, events) := s.world.store table h id singleUse
        (s.withWorld w).answer (.count (w.table table).size) events
  | .storeForPassing place name singleUse count =>
    s.withPlace place fun table =>
      s.withNode name fun id =>
        let (w, sizes, events) := s.world.storeForPassing table id singleUse count
        (s.withWorld w).answer (.counts sizes) events
  | .resume place host token =>
    s.withParking place host fun table h =>
      match s.world.resume t table h with
      | (w, none) => (s.withWorld w).answer (.node none) []
      | (w, some attached) =>
        { s.withWorld w with tokens := s.tokens.insert token attached }.answer
          (.node (some attached.node)) []
  | .race place host count =>
    s.withParking place host fun table h =>
      let (w, taken) := s.world.race table h count
      (s.withWorld w).answer (.count taken) []
  | .peek place host =>
    s.withParking place host fun table h => s.answer (.node (s.world.peek table h)) []
  | .clear place host =>
    s.withParking place host fun table h =>
      let (w, node) := s.world.clear table h
      (s.withWorld w).answer (.node node) []
  | .purge place =>
    s.withPlace place fun table =>
      let (w, removed, events) := s.world.purge table
      (s.withWorld w).answer (.count removed) events
  | .size place =>
    s.withPlace place fun table => s.answer (.size (s.world.table table).size) []

def runDiagnostic (s : Session) : Subject → Outcome
  | .engine name =>
    s.withNamed name (s.engine? name) fun e =>
      s.answer (.text (e.diagnostic (s.world.table e.table).size)) []
  | .table name =>
    s.withNamed name (s.tables.get? name) fun id => s.answer (.text (s.world.table id).diagnostic) []
  | .bridge name => s.withNamed name (s.bridges.get? name) fun _ => s.answer (.text "TagBridge") []
  | .token name => s.withNamed name (s.tokens.get? name) fun k => s.answer (.text k.diagnostic) []
  | .node name =>
    s.withNode name fun id =>
      s.withNamed name (s.world.nodes.get? id) fun n => s.answer (.text (n.diagnostic id)) []

def run (s : Session) (t : ThreadId) : Step → Outcome
  | .idle => s.answer .nothing []
  | .policy step => s.runPolicy step
  | .tags step => s.runTags step
  | .engine step => s.runEngine t step
  | .context step => s.runContext t step
  | .data step => s.runData step
  | .stack step => s.runStack t step
  | .parking step => s.runParking t step
  | .diagnostic subject => s.runDiagnostic subject

end Ambient.Session
