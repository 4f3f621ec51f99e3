import Ambient.Dict

/-
Policies: how the data under each key flows. A value may flow down into the
contexts entered beneath, up into the parent when a context closes, and out as a
tag. A field that nobody set is kept apart from one that was set to its default,
so that a weaker source can still fill it. A policy is a table of such settings
with a version; deriving another one gives it a version of its own.
-/

namespace Ambient

/-- How a value flows into the contexts beneath. -/
inductive DownMode where
  | none
  | processLocal
deriving DecidableEq

namespace DownMode

def all : List DownMode := [none, processLocal]

def name : DownMode → String
  | none => "none"
  | processLocal => "process_local"

def isPropagated (m : DownMode) : Bool := m != none

end DownMode

/-- How a value flows back into the parent. -/
inductive UpMode where
  | none
  | processLocal
  | global
deriving DecidableEq

namespace UpMode

def all : List UpMode := [none, processLocal, global]

def name : UpMode → String
  | none => "none"
  | processLocal => "process_local"
  | global => "global"

def isPropagated (m : UpMode) : Bool := m != none

def isGlobal (m : UpMode) : Bool := m == global

end UpMode

/-- The settings of one key; a field is absent if nobody set it. -/
structure KeyPolicy where
  down : Option DownMode
  up : Option UpMode
  tag : Option Bool
deriving DecidableEq

namespace KeyPolicy

def unset : KeyPolicy := ⟨none, none, none⟩

def downMode (k : KeyPolicy) : DownMode := k.down.getD .none

def upMode (k : KeyPolicy) : UpMode := k.up.getD .none

def isTag (k : KeyPolicy) : Bool := k.tag.getD false

def or (a b : KeyPolicy) : KeyPolicy := ⟨a.down.or b.down, a.up.or b.up, a.tag.or b.tag⟩

def inferredTag : KeyPolicy := ⟨some .processLocal, none, some true⟩

end KeyPolicy

/-- The settings of keys. A key without settings is neither propagated nor a tag. -/
abbrev PolicyTable := Dict String KeyPolicy

namespace PolicyTable

/-- The settings of a key; nothing is set for a key that has none. -/
def settings (t : PolicyTable) (key : String) : KeyPolicy := (t.get? key).getD .unset

def withDown (t : PolicyTable) (key : String) (m : DownMode) : PolicyTable :=
  t.insert key { t.settings key with down := some m }

def withUp (t : PolicyTable) (key : String) (m : UpMode) : PolicyTable :=
  t.insert key { t.settings key with up := some m }

def withTag (t : PolicyTable) (key : String) (isTag : Bool) : PolicyTable :=
  t.insert key { t.settings key with tag := some isTag }

/-- Makes a key a tag that flows down, in the fields that are not set. -/
def inferTag (t : PolicyTable) (key : String) : PolicyTable :=
  t.insert key ((t.settings key).or .inferredTag)

def infersTag (t : PolicyTable) (key : String) : Bool :=
  (t.settings key).or .inferredTag != t.settings key

def inferTagIfOpen (t : PolicyTable) (key : String) : PolicyTable :=
  if t.infersTag key then t.inferTag key else t

def inferTags (t : PolicyTable) (keys : List String) : PolicyTable := keys.foldl inferTagIfOpen t

theorem settings_insert (t : PolicyTable) (key x : String) (k : KeyPolicy) :
    settings (t.insert key k) x = if key = x then k else t.settings x := by
  simp only [settings, Dict.get?_insert]
  split <;> rfl

end PolicyTable

/-- A policy: settings of keys, and a version that no other policy has. -/
structure Policy where
  version : Nat
  table : PolicyTable
deriving DecidableEq

namespace Policy

def downMode (p : Policy) (key : String) : DownMode := (p.table.settings key).downMode

def upMode (p : Policy) (key : String) : UpMode := (p.table.settings key).upMode

def isTag (p : Policy) (key : String) : Bool := (p.table.settings key).isTag

def flowsDown (p : Policy) (key : String) : Bool := (p.downMode key).isPropagated

def flowsUp (p : Policy) (key : String) : Bool := (p.upMode key).isPropagated

end Policy

end Ambient
