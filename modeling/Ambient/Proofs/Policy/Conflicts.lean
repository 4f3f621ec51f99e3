import Ambient.Proofs.Policy.Precedence

/-
The conflicts that resolving reports (`Settings.conflicts_exact`): one for each
explicitly set field that a weaker source has set to something else. That metric
definitions could conflict with what is built in is looked for and never happens
(`Settings.metricConflicts_eq_nil`).
-/

namespace Ambient.Settings

open PolicyTable

variable (s : Settings)

/-- True if an explicit setting of a field is another than a weaker source has. -/
def replaces (explicit weaker : KeyPolicy) : PolicyField → Bool
  | .down => overrides explicit.down weaker.down
  | .up => overrides explicit.up weaker.up
  | .tag => overrides explicit.tag weaker.tag

/-- The source that a conflict names as overridden. -/
def loser (s : Settings) (key : String) (f : PolicyField) : SettingSource :=
  if f = .tag ∧ key ∈ s.metricTags then .metricDefinition else .default

theorem mem_conflictsOf {key : String} {explicit existing : KeyPolicy} {x : Conflict} :
    x ∈ s.conflictsOf key explicit existing ↔
      replaces explicit existing x.field = true ∧ x = ⟨key, x.field, s.loser key x.field, .configuration⟩ := by
  obtain ⟨k, f, o, v⟩ := x
  cases f <;> simp [conflictsOf, replaces, loser]

theorem nodup_conflictsOf (key : String) (explicit existing : KeyPolicy) :
    ((s.conflictsOf key explicit existing).map fun x => (x.key, x.field)).Nodup := by
  unfold conflictsOf
  cases overrides explicit.down existing.down <;> cases overrides explicit.up existing.up <;>
    cases overrides explicit.tag existing.tag <;> simp

/-- Metric definitions never conflict: nothing before them says that a key is no tag. -/
theorem metricConflicts_eq_nil {t : PolicyTable} (h : ∀ k, (t.settings k).tag ≠ some false) (keys : List String) :
    metricConflicts t keys = [] := by
  induction keys generalizing t with
  | nil => rfl
  | cons key keys ih =>
    rw [metricConflicts, if_neg (h key), List.nil_append]
    refine ih fun k => ?_
    rw [settings_withTag]
    split
    · simp [KeyPolicy.or]
    · exact h k

theorem tag_builtin (s : Settings) (k : String) : (builtin.settings k).tag ≠ some false := by
  rw [settings_builtin s, record]
  split <;> simp [KeyPolicy.inferredTag, KeyPolicy.unset]

theorem conflicts_eq : s.conflicts =
    s.data.sorted.flatMap fun e => s.conflictsOf e.1 e.2 (s.defaults.settings e.1) := by
  rw [conflicts, metricConflicts_eq_nil s.tag_builtin, List.nil_append]

theorem nodup_conflicts : (s.conflicts.map fun x => (x.key, x.field)).Nodup := by
  rw [conflicts_eq, List.map_flatMap, List.nodup_flatMap]
  refine ⟨fun e _ => s.nodup_conflictsOf .., (List.pairwise_map.1 s.data.nodup_sorted).imp fun hne => ?_⟩
  -- Conflicts of different keys are different.
  rintro ⟨k, f⟩ hx hy
  obtain ⟨x, hx, hxk⟩ := List.mem_map.1 hx
  obtain ⟨y, hy, hyk⟩ := List.mem_map.1 hy
  obtain ⟨hxk, -⟩ := Prod.mk.inj hxk
  obtain ⟨hyk, -⟩ := Prod.mk.inj hyk
  have hx := congrArg Conflict.key (s.mem_conflictsOf.1 hx).2
  have hy := congrArg Conflict.key (s.mem_conflictsOf.1 hy).2
  exact hne (hx.symm.trans (hxk.trans (hyk.symm.trans hy)))

theorem mem_conflicts {x : Conflict} : x ∈ s.conflicts ↔
    replaces (s.record x.key .configuration) (s.defaults.settings x.key) x.field = true ∧
      x = ⟨x.key, x.field, s.loser x.key x.field, .configuration⟩ := by
  rw [conflicts_eq, List.mem_flatMap]
  constructor
  · rintro ⟨⟨k, explicit⟩, hmem, hx⟩
    obtain ⟨hreplaces, he⟩ := s.mem_conflictsOf.1 hx
    have hk : x.key = k := congrArg Conflict.key he
    subst hk
    have hget : s.data.get? x.key = some explicit := Dict.mem_sorted.1 hmem
    refine ⟨?_, he⟩
    rw [record, hget]
    exact hreplaces
  · rintro ⟨hreplaces, he⟩
    cases hget : s.data.get? x.key with
    | none =>
      rw [record, hget] at hreplaces
      generalize x.field = f at hreplaces
      cases f <;> cases hreplaces
    | some explicit =>
      rw [record, hget] at hreplaces
      exact ⟨(x.key, explicit), Dict.mem_sorted.2 hget, s.mem_conflictsOf.2 ⟨hreplaces, he⟩⟩

/-- The source that a conflict names is a weaker one that has the field otherwise. -/
theorem replaces_loser {explicit : KeyPolicy} {k : String} {f : PolicyField}
    (h : replaces explicit (s.defaults.settings k) f = true) :
    s.loser k f ≠ .configuration ∧ replaces explicit (s.record k (s.loser k f)) f = true := by
  rw [settings_defaults] at h
  by_cases hm : k ∈ s.metricTags <;> cases f <;>
    simpa [loser, record, hm, replaces, KeyPolicy.or, KeyPolicy.inferredTag, KeyPolicy.unset] using h

/-- What weaker sources come to has each field as each of them that sets it. -/
theorem replaces_of_record {explicit : KeyPolicy} {k : String} {f : PolicyField} {source : SettingSource}
    (hs : source ≠ .configuration) (h : replaces explicit (s.record k source) f = true) :
    replaces explicit (s.defaults.settings k) f = true := by
  rw [settings_defaults]
  by_cases hm : k ∈ s.metricTags <;> by_cases hb : k ∈ identityKeys <;> cases source <;> cases f <;>
    simp_all [record, replaces, overrides, KeyPolicy.or, KeyPolicy.inferredTag, KeyPolicy.unset]

/-- **Conflicts**: one for each explicitly set field that a weaker source has set
otherwise, and no other. It names such a source. -/
theorem conflicts_exact : (s.conflicts.map fun x => (x.key, x.field)).Nodup ∧
    (∀ k f, (∃ x ∈ s.conflicts, x.key = k ∧ x.field = f) ↔
      ∃ source, source ≠ .configuration ∧ replaces (s.record k .configuration) (s.record k source) f = true) ∧
    ∀ x ∈ s.conflicts, x.winner = .configuration ∧ x.overridden ≠ .configuration ∧
      replaces (s.record x.key .configuration) (s.record x.key x.overridden) x.field = true := by
  refine ⟨s.nodup_conflicts, fun k f => ⟨?_, ?_⟩, fun x hx => ?_⟩
  · rintro ⟨x, hx, rfl, rfl⟩
    exact ⟨_, s.replaces_loser (s.mem_conflicts.1 hx).1⟩
  · rintro ⟨source, hs, h⟩
    exact ⟨⟨k, f, s.loser k f, .configuration⟩, s.mem_conflicts.2 ⟨s.replaces_of_record hs h, rfl⟩, rfl, rfl⟩
  · obtain ⟨h, he⟩ := s.mem_conflicts.1 hx
    obtain ⟨hs, h⟩ := s.replaces_loser h
    rw [he]
    exact ⟨rfl, hs, h⟩

end Ambient.Settings
