import Ambient.Proofs.Json.Reads
import Ambient.Proofs.Policy.Precedence

/-
The document of a configuration is read back as that configuration
(`Config.read_write`), in which keys and tags have been put in order. So it makes
the same policy.
-/

namespace Ambient.Config

open Json

/-! ## The settings of a key -/

theorem reads_downMode (m : DownMode) : Reads readDownMode (writeText m.name) m :=
  reads_choice (by cases m <;> rfl)

theorem reads_upMode (m : UpMode) : Reads readUpMode (writeText m.name) m :=
  reads_choice (by cases m <;> rfl)

theorem reads_traceFormat (f : TraceFormat) : Reads readTraceFormat (writeText f.name) f :=
  reads_choice (by cases f <;> rfl)

/-- The members that are written for the settings of a key. -/
def keyMembers (k : KeyPolicy) : List (String × List Char) :=
  writeOptional PolicyField.down.name (fun m => writeText m.name) k.down ++
    (writeOptional PolicyField.up.name (fun m => writeText m.name) k.up ++
      (writeOptional PolicyField.tag.name writeBool k.tag ++ []))

theorem writeKeyPolicy_eq (k : KeyPolicy) : writeKeyPolicy k = object (writeMembers (keyMembers k)) := by
  rcases k with ⟨_ | _, _ | _, _ | _⟩ <;> rfl

theorem filled_keyMembers (k : KeyPolicy) : Filled keyFields (keyMembers k) .unset k := by
  refine .optional reads_downMode (fun _ => opens_writeText _) rfl ?_
  refine .optional reads_upMode (fun _ => opens_writeText _) rfl ?_
  exact .optional reads_bool opens_writeBool rfl .nil

theorem reads_keyPolicy (k : KeyPolicy) : Reads readKeyPolicy (writeKeyPolicy k) k := by
  rw [writeKeyPolicy_eq]
  exact (filled_keyMembers k).reads (by decide)

/-! ## Settings -/

theorem members_data (es : List (String × KeyPolicy)) (d : Dict String KeyPolicy) :
    Members (fun key d text => do (readKeyPolicy (← readColon text)).map fun p => (d.insert key p.1, p.2))
      (es.map fun e => (e.1, writeKeyPolicy e.2)) d (d.insertAll es) := by
  induction es generalizing d with
  | nil => exact .nil
  | cons e es ih =>
    refine .cons (fun rest => ?_) (ih (d.insert e.1 e.2))
    show (readKeyPolicy (writeKeyPolicy e.2 ++ rest)).map _ = _
    rw [reads_keyPolicy e.2 rest]
    rfl

theorem elements_tags (ts tags : List String) :
    Elements (fun tags s => (readString s).map fun p => (tags ++ [p.1], p.2)) (ts.map writeText) tags (tags ++ ts) := by
  induction ts generalizing tags with
  | nil =>
    rw [List.append_nil]
    exact .nil
  | cons t ts ih =>
    have h := ih (tags ++ [t])
    rw [List.append_assoc, List.singleton_append] at h
    refine .cons (opens_writeText t) (fun rest => ?_) h
    show (readString (writeText t ++ rest)).map _ = _
    rw [reads_string t rest]
    rfl

def writeData (es : List (String × KeyPolicy)) : List Char :=
  object (writeMembers (es.map fun e => (e.1, writeKeyPolicy e.2)))

def writeTags (tags : List String) : List Char := bracketed '[' ']' (tags.map writeText)

theorem reads_data (es : List (String × KeyPolicy)) : Reads readData (writeData es) (Dict.ofList es) :=
  (members_data es Dict.empty).reads

theorem reads_tags (tags : List String) : Reads readTags (writeTags tags) tags :=
  (elements_tags tags []).reads

/-- The same settings with keys and tags in order. -/
def ordered (s : Settings) : Settings := ⟨Dict.ofList s.data.sorted, s.sortedTags⟩

/-- The members that are written for settings. -/
def settingsMembers (s : Settings) : List (String × List Char) :=
  writeListed "data" writeData s.data.sorted ++ (writeListed "metric_tags" writeTags s.sortedTags ++ [])

theorem writeSettings_eq (s : Settings) : writeSettings s = object (writeMembers (settingsMembers s)) := by
  simp only [writeSettings, settingsMembers, List.map_eq_nil_iff, writeListed, List.append_nil]
  by_cases hd : s.data.sorted = [] <;> by_cases ht : s.sortedTags = [] <;>
    simp [hd, ht, writeMembers, writeData, writeTags, List.map_map, Function.comp_def]

theorem filled_settingsMembers (s : Settings) :
    Filled settingsFields (settingsMembers s) Settings.empty (ordered s) := by
  refine .listed (g := Dict.ofList) (reads_data _) rfl ?_
  exact .listed (g := id) (reads_tags _) rfl .nil

theorem reads_settings (s : Settings) : Reads readSettings (writeSettings s) (ordered s) := by
  rw [writeSettings_eq]
  exact (filled_settingsMembers s).reads (by decide)

/-! ## Documents -/

/-- The same configuration with keys and tags in order. -/
def normal (c : Config) : Config := { c with settings := ordered c.settings }

/-- The members that are written for a configuration. -/
def members (c : Config) : List (String × List Char) :=
  ("propagation", writeSettings c.settings) :: ("trace_format", writeText c.traceFormat.name) ::
    (writeOptional serviceKey writeText c.service ++
      (writeOptional hostKey writeText c.host ++ (writeOptional hostAddressKey writeText c.hostAddress ++ [])))

theorem write_eq (c : Config) : c.write = String.ofList (object (writeMembers c.members)) := by
  rcases c with ⟨s, f, _ | _, _ | _, _ | _⟩ <;> rfl

theorem filled_members (c : Config) : Filled fields c.members default c.normal := by
  refine .always (reads_settings _) ?_
  refine .always (reads_traceFormat _) ?_
  refine .optional reads_string opens_writeText rfl ?_
  refine .optional reads_string opens_writeText rfl ?_
  exact .optional reads_string opens_writeText rfl .nil

/-- Two configurations that say the same. Keys and tags have no order. -/
structure Same (c d : Config) : Prop where
  data : ∀ k, c.settings.data.get? k = d.settings.data.get? k
  metricTags : ∀ k, k ∈ c.settings.metricTags ↔ k ∈ d.settings.metricTags
  traceFormat : c.traceFormat = d.traceFormat
  service : c.service = d.service
  host : c.host = d.host
  hostAddress : c.hostAddress = d.hostAddress

/-- Putting keys and tags in order changes nothing that a configuration says. -/
theorem normal_same (c : Config) : c.normal.Same c where
  data := fun k => by
    show (Dict.ofList c.settings.data.sorted).get? k = _
    rw [Dict.ofList, Dict.get?_insertAll (Dict.nodup_sorted _), Dict.lookupEntry_sorted, Dict.get?_empty, Option.or_none]
  metricTags := fun _ => c.settings.mem_sortedTags
  traceFormat := rfl
  service := rfl
  host := rfl
  hostAddress := rfl

/-- Configurations that say the same make the same policy. -/
theorem Same.resolve {c d : Config} (h : c.Same d) (k : String) :
    c.settings.resolve.get? k = d.settings.resolve.get? k := by
  have hrecord : ∀ source, c.settings.record k source = d.settings.record k source := by
    intro source
    cases source with
    | default => rfl
    | builtin => rfl
    | metricDefinition => simp only [Settings.record, h.metricTags]
    | configuration => simp only [Settings.record, h.data]
  rw [c.settings.tight_resolve, d.settings.tight_resolve, c.settings.settings_resolve, d.settings.settings_resolve,
    hrecord, hrecord, hrecord]

/-- **The document of a configuration is read back.** Whatever is set and whatever is
not, and whatever characters keys, tags and names are made of, what is read is the same
configuration; so its settings make the same policy. -/
theorem read_write (c : Config) : read c.write = .ok c.normal ∧ c.normal.Same c ∧
    ∀ k, c.normal.settings.resolve.get? k = c.settings.resolve.get? k := by
  refine ⟨?_, c.normal_same, c.normal_same.resolve⟩
  have hread := (filled_members c).reads (by decide) []
  rw [List.append_nil] at hread
  rw [read, write_eq, String.toList_ofList, readDocument, hread]
  rfl

end Ambient.Config
