import Ambient.Proofs.Dict
import Ambient.Settings
import Mathlib.Data.List.Nodup

/-
Which source decides what is set for a key (`Settings.effective`): the explicit
settings, then the metric definitions, then what was found in the tagging facility
when a root was entered, then what is built in, field by field. Resolving lets
stronger sources write over weaker ones, and entering a root fills what is still
open; both come to the same (`Settings.get?_resolve`, `Settings.get?_inferTags_resolve`).
-/

namespace Ambient

namespace KeyPolicy

@[simp] theorem unset_or (a : KeyPolicy) : unset.or a = a := rfl

@[simp] theorem or_unset (a : KeyPolicy) : a.or unset = a := by
  simp [or, unset]

theorem or_assoc (a b c : KeyPolicy) : (a.or b).or c = a.or (b.or c) := by
  simp [or, Option.or_assoc]

@[simp] theorem or_self (a : KeyPolicy) : a.or a = a := by
  simp [or]

/-- What is set stays set. -/
theorem or_ne_unset {a : KeyPolicy} (h : a ≠ unset) (b : KeyPolicy) : a.or b ≠ unset := by
  intro he
  refine h ?_
  obtain ⟨_ | d, _ | u, _ | g⟩ := a <;> simp_all [or, unset]

end KeyPolicy

namespace PolicyTable

variable {t : PolicyTable} {k x : String}

/-- What a table records for a key: settings that set nothing are not recorded. -/
def recorded (p : KeyPolicy) : Option KeyPolicy := if p = .unset then none else some p

/-- No key is recorded without settings. -/
def Tight (t : PolicyTable) : Prop := ∀ k, t.get? k = recorded (t.settings k)

namespace Tight

theorem empty : Tight Dict.empty := fun _ => rfl

theorem insert (h : Tight t) {p : KeyPolicy} (hp : p ≠ .unset) : Tight (t.insert k p) := by
  intro x
  rw [settings_insert, Dict.get?_insert]
  split
  · exact (if_neg hp).symm
  · exact h x

theorem withTag (h : Tight t) (b : Bool) : Tight (t.withTag k b) := h.insert (by simp [KeyPolicy.unset])

theorem apply (h : Tight t) (e : String × KeyPolicy) : Tight (Settings.apply t e) := by
  unfold Settings.apply
  split
  · exact h
  · rename_i he
    exact h.insert (KeyPolicy.or_ne_unset he _)

theorem inferTagIfOpen (h : Tight t) : Tight (t.inferTagIfOpen k) := by
  unfold PolicyTable.inferTagIfOpen
  split
  · refine h.insert fun he => ?_
    simp [KeyPolicy.or, KeyPolicy.inferredTag, KeyPolicy.unset] at he
  · exact h

/-- What each step of a fold keeps, the fold keeps. -/
theorem foldl {α : Type} {f : PolicyTable → α → PolicyTable} (step : ∀ t a, Tight t → Tight (f t a)) (h : Tight t)
    (as : List α) : Tight (as.foldl f t) := by
  induction as generalizing t with
  | nil => exact h
  | cons a as ih => exact ih (step t a h)

end Tight

/-! ## One setting after another -/

/-- Settings of keys that are changed one after another, in a way that is not repeated. -/
theorem settings_foldl {f : PolicyTable → String → PolicyTable} {g : KeyPolicy → KeyPolicy}
    (step : ∀ t k x, (f t k).settings x = if k = x then g (t.settings x) else t.settings x)
    (once : ∀ p, g (g p) = g p) (t : PolicyTable) (keys : List String) (x : String) :
    (keys.foldl f t).settings x = if x ∈ keys then g (t.settings x) else t.settings x := by
  induction keys generalizing t with
  | nil => rfl
  | cons k keys ih =>
    rw [List.foldl_cons, ih, step]
    by_cases hk : k = x
    · subst hk
      simp only [if_true, List.mem_cons, true_or, once, ite_self]
    · simp only [if_neg hk, List.mem_cons, Ne.symm hk, false_or]

theorem settings_withTag (t : PolicyTable) (k : String) (b : Bool) (x : String) :
    (t.withTag k b).settings x = if k = x then KeyPolicy.or ⟨none, none, some b⟩ (t.settings x) else t.settings x := by
  rw [withTag, settings_insert]
  split
  · rename_i hk
    rw [hk]
    simp [KeyPolicy.or]
  · rfl

theorem settings_inferTagIfOpen (t : PolicyTable) (k x : String) :
    (t.inferTagIfOpen k).settings x = if k = x then (t.settings x).or .inferredTag else t.settings x := by
  unfold inferTagIfOpen inferTag infersTag
  split
  · rw [settings_insert]
    split
    · rename_i hk
      rw [hk]
    · rfl
  · rename_i h
    split
    · rename_i hk
      subst hk
      simpa using Eq.symm (by simpa using h)
    · rfl

/-- However often a key was found, it is made a tag once. -/
theorem settings_inferTags (t : PolicyTable) (keys : List String) (x : String) :
    (t.inferTags keys).settings x = if x ∈ keys then (t.settings x).or .inferredTag else t.settings x :=
  settings_foldl (g := fun p => p.or .inferredTag) settings_inferTagIfOpen
    (fun p => by rw [KeyPolicy.or_assoc, KeyPolicy.or_self]) t keys x

theorem any_infersTag_eq_false {keys : List String} (h : keys.any t.infersTag = false) (x : String) :
    (t.inferTags keys).settings x = t.settings x := by
  rw [settings_inferTags]
  split
  · rename_i hx
    simpa [infersTag] using List.any_eq_false.1 h x hx
  · rfl

theorem settings_apply (t : PolicyTable) (e : String × KeyPolicy) (x : String) :
    (Settings.apply t e).settings x = if e.1 = x then e.2.or (t.settings x) else t.settings x := by
  unfold Settings.apply
  split
  · rename_i he
    rw [he, KeyPolicy.unset_or, ite_self]
  · rw [settings_insert]
    split
    · rename_i hk
      rw [hk]
    · rfl

theorem settings_foldl_apply {es : List (String × KeyPolicy)} (hes : (es.map Prod.fst).Nodup) (t : PolicyTable)
    (x : String) : (es.foldl Settings.apply t).settings x = ((lookupEntry x es).getD .unset).or (t.settings x) := by
  induction es generalizing t with
  | nil => rfl
  | cons e es ih =>
    obtain ⟨k, p⟩ := e
    rw [List.map_cons, List.nodup_cons] at hes
    rw [List.foldl_cons, ih hes.2, settings_apply]
    by_cases hk : k = x
    · subst hk
      have hn : lookupEntry k es = none := lookupEntry_eq_none.2 hes.1
      simp [hn, lookupEntry]
    · simp [hk, lookupEntry]

end PolicyTable

namespace Settings

open PolicyTable

/-- What a source records for a key. -/
def record (s : Settings) (k : String) : SettingSource → KeyPolicy
  | .default | .builtin => if k ∈ identityKeys then .inferredTag else .unset
  | .metricDefinition => if k ∈ s.metricTags then ⟨none, none, some true⟩ else .unset
  | .configuration => (s.data.get? k).getD .unset

/-- What is set for a key because it was found among the ambient tags. -/
def ambient (found : List String) (k : String) : KeyPolicy := if k ∈ found then .inferredTag else .unset

/-- What is set for a key, field by field: what the strongest source has set. -/
def effective (s : Settings) (found : List String) (k : String) : KeyPolicy :=
  (s.record k .configuration).or <| (s.record k .metricDefinition).or <|
    (ambient found k).or <| s.record k .builtin

variable (s : Settings) (k : String)

theorem mem_sortedTags {k : String} : k ∈ s.sortedTags ↔ k ∈ s.metricTags := by
  rw [sortedTags, List.mem_mergeSort, List.mem_eraseDups]

theorem get?_builtin (k : String) : builtin.get? k = recorded (s.record k .builtin) := by
  have he : builtin = ((Dict.empty.insert serviceKey KeyPolicy.inferredTag).insert hostKey .inferredTag).insert
      hostAddressKey .inferredTag := rfl
  rw [he]
  simp only [Dict.get?_insert, Dict.get?_empty, record, identityKeys, List.mem_cons, List.not_mem_nil, or_false]
  by_cases h : k = serviceKey ∨ k = hostKey ∨ k = hostAddressKey
  · rw [if_pos h]
    rcases h with rfl | rfl | rfl <;> rfl
  · simp only [not_or] at h
    simp [Ne.symm h.1, Ne.symm h.2.1, Ne.symm h.2.2, h, recorded]

theorem settings_builtin (k : String) : builtin.settings k = s.record k .builtin := by
  rw [settings, get?_builtin s, recorded]
  split
  · rename_i h
    exact h.symm
  · rfl

theorem tight_resolve : Tight s.resolve := by
  have hbuiltin : Tight builtin := fun k => by rw [get?_builtin s, settings_builtin s]
  exact .foldl (fun _ e h => h.apply e) (.foldl (fun _ k h => h.withTag true) hbuiltin _) _

theorem settings_defaults (k : String) :
    s.defaults.settings k = (s.record k .metricDefinition).or (s.record k .builtin) := by
  unfold defaults
  rw [settings_foldl (g := KeyPolicy.or ⟨none, none, some true⟩) (fun t k x => settings_withTag t k true x)
    (fun p => by rw [← KeyPolicy.or_assoc, KeyPolicy.or_self]), settings_builtin s]
  have hm : s.record k .metricDefinition = if k ∈ s.metricTags then ⟨none, none, some true⟩ else .unset := rfl
  by_cases h : k ∈ s.metricTags
  · rw [if_pos (s.mem_sortedTags.2 h), hm, if_pos h]
  · rw [if_neg (mt s.mem_sortedTags.1 h), hm, if_neg h, KeyPolicy.unset_or]

theorem settings_resolve (k : String) : s.resolve.settings k =
    (s.record k .configuration).or ((s.record k .metricDefinition).or (s.record k .builtin)) := by
  rw [resolve, settings_foldl_apply s.data.nodup_sorted, settings_defaults, Dict.lookupEntry_sorted]
  rfl

/-- What is inferred and what is built in is the same, so it does not matter which of
them is filled in first. -/
theorem record_or_ambient (found : List String) (k : String) :
    (s.record k .builtin).or (ambient found k) = (ambient found k).or (s.record k .builtin) := by
  simp only [record, ambient]
  split <;> split <;> simp

/-- **Resolving and entering a root come to one formula**: the settings that have been
resolved, with tags inferred for what was found. -/
theorem settings_inferTags_resolve (found : List String) (k : String) :
    (s.resolve.inferTags found).settings k = s.effective found k := by
  have h : (s.resolve.inferTags found).settings k = (s.resolve.settings k).or (ambient found k) := by
    rw [settings_inferTags, ambient]
    split
    · rfl
    · rw [KeyPolicy.or_unset]
  rw [h, settings_resolve, KeyPolicy.or_assoc, KeyPolicy.or_assoc, record_or_ambient, effective]

/-- An explicit mode stands, and so does what is built in for the other field. -/
example : effective ⟨Dict.ofList [("service", ⟨some .none, none, none⟩)], ["tenant"]⟩ ["tenant"] "service" =
    ⟨some .none, none, some true⟩ := by decide

theorem tight_inferTags_resolve (found : List String) : Tight (s.resolve.inferTags found) :=
  .foldl (fun _ _ h => h.inferTagIfOpen) s.tight_resolve _

end Settings

end Ambient
