import Ambient.Policy

/-
Configured settings and the policy they make. Three sources have a say, the
weakest first: what is built in, the metric definitions, which make keys tags,
and the explicit settings of a key. A stronger source replaces a weaker one
field by field, and each value so replaced by another is a conflict to report.
-/

namespace Ambient

def serviceKey : String := "service"
def hostKey : String := "host"
def hostAddressKey : String := "host_address"

def identityKeys : List String := [serviceKey, hostKey, hostAddressKey]

/-- The fields of a key's settings. -/
inductive PolicyField where
  | down
  | up
  | tag
deriving DecidableEq

def PolicyField.name : PolicyField → String
  | down => "down_propagation"
  | up => "up_propagation"
  | tag => "is_tag"

/-- Where settings come from. What is built in is called a default where the
configuration overrides it, and built in where a metric definition does. -/
inductive SettingSource where
  | default
  | builtin
  | metricDefinition
  | configuration
deriving DecidableEq

def SettingSource.name : SettingSource → String
  | default => "default"
  | builtin => "builtin"
  | metricDefinition => "metric definition"
  | configuration => "configuration"

/-- A setting that a stronger source replaced by another. -/
structure Conflict where
  key : String
  field : PolicyField
  overridden : SettingSource
  winner : SettingSource
deriving DecidableEq

/-- The propagation part of a configuration. -/
structure Settings where
  /-- What is explicitly set for keys. -/
  data : Dict String KeyPolicy
  /-- The keys that metric definitions make tags; order and repetition do not matter. -/
  metricTags : List String
deriving DecidableEq

namespace Settings

def empty : Settings := ⟨Dict.empty, []⟩

/-- The metric tags in order, each once. -/
def sortedTags (s : Settings) : List String :=
  s.metricTags.eraseDups.mergeSort fun a b => decide (a ≤ b)

/-- What is built in: the identity keys are inherited tags. -/
def builtin : PolicyTable :=
  Dict.ofList (identityKeys.map fun k => (k, ⟨some .processLocal, none, some true⟩))

def defaults (s : Settings) : PolicyTable :=
  s.sortedTags.foldl (fun t key => t.withTag key true) builtin

/-- The conflicts of metric definitions with what is set before them. -/
def metricConflicts : PolicyTable → List String → List Conflict
  | _, [] => []
  | t, key :: keys =>
    (if (t.settings key).tag = some false then [⟨key, .tag, .builtin, .metricDefinition⟩] else []) ++
      metricConflicts (t.withTag key true) keys

/-- True if a field is explicitly set to another value than a weaker source gave it. -/
def overrides {α : Type} [DecidableEq α] (explicit existing : Option α) : Bool :=
  match explicit, existing with
  | some a, some b => a != b
  | _, _ => false

def conflictsOf (s : Settings) (key : String) (explicit existing : KeyPolicy) : List Conflict :=
  let loser := if s.metricTags.contains key then .metricDefinition else .default
  (if overrides explicit.down existing.down then [⟨key, .down, .default, .configuration⟩] else []) ++
    (if overrides explicit.up existing.up then [⟨key, .up, .default, .configuration⟩] else []) ++
    (if overrides explicit.tag existing.tag then [⟨key, .tag, loser, .configuration⟩] else [])

/-- Adds a key's explicit settings. Settings that set nothing add nothing. -/
def apply (t : PolicyTable) (e : String × KeyPolicy) : PolicyTable :=
  if e.2 = .unset then t else t.insert e.1 (e.2.or (t.settings e.1))

def resolve (s : Settings) : PolicyTable := s.data.sorted.foldl apply s.defaults

/-- The conflicts that resolving reports: those of the metric definitions, then those
of the explicit settings, each in the order of their keys. -/
def conflicts (s : Settings) : List Conflict :=
  metricConflicts builtin s.sortedTags ++
    s.data.sorted.flatMap fun e => s.conflictsOf e.1 e.2 (s.defaults.settings e.1)

end Settings

end Ambient
