import Ambient.Json.Fault
import Ambient.World.Basic

/-
What a caller can do with a process, one step at a time, with names for what it
holds; and what each step answers.
-/

namespace Ambient.Session

/-- A policy that has a name, or that of an engine or of a node. -/
inductive PolicySource where
  | policy (name : String)
  | engine (name : String)
  | node (name : String)

/-- A table that has a name, or that of an engine. -/
inductive Place where
  | table (name : String)
  | engine (name : String)

/-- How a context is entered. -/
inductive Entrance where
  /-- Through an engine, beneath the ambient node. -/
  | ambient (engine : String)
  /-- Through an engine, beneath a node or as a root. -/
  | under (engine : String) (parent : Option String)
  /-- Beneath a node or as a root, with a policy and a bridge for a root. -/
  | direct (parent policy bridge : Option String)

/-- What can be shown for diagnostics. -/
inductive Subject where
  | engine (name : String)
  | table (name : String)
  | bridge (name : String)
  | token (name : String)
  | node (name : String)

/-- Steps on builders and policies. -/
inductive PolicyStep where
  | newBuilder (builder : String) (copied : Option String)
  | cloneBuilder (builder clone : String)
  | withTag (builder key : String) (isTag : Bool)
  | withDown (builder key : String) (mode : DownMode)
  | withUp (builder key : String) (mode : UpMode)
  | inferTag (builder key : String)
  | settings (builder key : String)
  | build (builder policy : String)
  | inspect (source : PolicySource) (key : Option String)

/-- Steps on bridges and their scopes. -/
inductive TagStep where
  | newBridge (name : String) (bridge : Bridge)
  | current (bridge : String)
  | openScope (bridge scope : String) (tags : Tags)
  | closeScope (scope : String)
  | facility (bridge : String)

/-- Steps on engines. -/
inductive EngineStep where
  | newEngine (engine : String) (document bridge : Option String) (extractors : List Extractor)
  | applyConfig (engine : String) (document : Option String)
  | setFormat (format : TraceFormat)
  | headerNames (engine : String)
  | current (engine : String)

/-- Steps that enter, hold and close contexts. -/
inductive ContextStep where
  | enter (node : String) (entrance : Entrance)
  | holdCurrent (node : String)
  | drop (node : String)
  | info (node : String)
  | makeActive (node : String)
  | beginExit (node : String)
  | close (node : String)

/-- Steps that read and write data. -/
inductive DataStep where
  | get (node key : String)
  | dump (node : String) (keys : List String)
  | set (node key : String) (value : Option Value)
  | remoteParent (node : String)
  | downEntries (node : String)
  | upEntries (node : String)
  | downHeaders (node : String) (span : Option SpanContext)
  | upHeaders (node : String)
  | readDown (node : String) (engine : Option String) (headers : Headers)
  | readUp (node : String) (engine : Option String) (headers : Headers)

/-- Steps on ambient stacks. -/
inductive StackStep where
  | attach (node token : String)
  | detach (token : String)
  | enterScope (node scope : String)
  | exitScope (scope : String)
  | dropScope (scope : String)
  | unwindScope (node : String)

/-- Steps on tables and hosts. -/
inductive ParkingStep where
  | newTable (table : String)
  | newHost (host : String)
  | dropHost (host : String)
  | store (place : Place) (host node : String) (singleUse : Bool)
  | storeForPassing (place : Place) (node : String) (singleUse : Bool) (count : Nat)
  | resume (place : Place) (host token : String)
  | race (place : Place) (host : String) (count : Nat)
  | peek (place : Place) (host : String)
  | clear (place : Place) (host : String)
  | purge (place : Place)
  | size (place : Place)

/-- A step. -/
inductive Step where
  | idle
  | policy (step : PolicyStep)
  | tags (step : TagStep)
  | engine (step : EngineStep)
  | context (step : ContextStep)
  | data (step : DataStep)
  | stack (step : StackStep)
  | parking (step : ParkingStep)
  | diagnostic (subject : Subject)

/-- What is told of a node; its policy by the number that its version has here. -/
structure Info where
  id : NodeId
  phase : Phase
  synchronous : Bool
  parent : Option NodeId
  policy : Nat

/-- The answer to a step. -/
inductive Answer where
  | nothing
  | settings (changed : Option Bool) (settings : Option KeyPolicy)
  | policy (version : Nat) (table : PolicyTable) (key : Option KeyPolicy)
  | tags (tags : Tags)
  | facility (facility : Facility)
  | format (format : TraceFormat)
  | names (names : List String)
  | node (id : Option NodeId)
  | info (info : Info)
  | value (value : Option Value)
  | values (values : List (String × Option Value))
  | span (span : Option SpanContext)
  | entries (entries : List (String × Value))
  | headers (headers : Headers)
  | count (n : Nat)
  | counts (ns : List Nat)
  | size (n : Nat)
  | text (s : String)

/-- Why a step has no answer. -/
inductive Refusal where
  | context (error : ContextError)
  | document (fault : Json.Fault)
  | unknown (name : String)

end Ambient.Session
