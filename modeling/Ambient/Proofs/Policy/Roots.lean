import Ambient.Proofs.Policy.Conflicts
import Ambient.Proofs.Tags.Scopes

/-
Roots and the policies they get (`World.policy_precedence`). A policy is made of
settings once; entering a root under it fills in what was found in the tagging
facility. If that changes nothing the root shares the policy, and else it has one of
its own, under a version that nobody had before.
-/

namespace Ambient

namespace World

variable {w : World}

/-! ## Versions -/

theorem lastVersion_race (w : World) (table : TableId) (h : Host) (n : Nat) :
    (w.race table h n).1.lastVersion = w.lastVersion := by
  induction n generalizing w with
  | zero => rfl
  | succ n ih => exact ih _

theorem lastVersion_storeForPassing (w : World) (table : TableId) (id : NodeId) (singleUse : Bool) (n : Nat) :
    (w.storeForPassing table id singleUse n).1.lastVersion = w.lastVersion := by
  induction n generalizing w with
  | zero => rfl
  | succ n ih => exact ih _

/-- Versions of policies are only ever given out. -/
theorem lastVersion_le_perform (w : World) (t : ThreadId) (a : Action) :
    w.lastVersion ≤ (w.perform t a).lastVersion := by
  have same : ∀ {v : World}, v.lastVersion = w.lastVersion → w.lastVersion ≤ v.lastVersion :=
    fun h => Nat.le_of_eq h.symm
  have change : ∀ id f, (w.change id f).world.lastVersion = w.lastVersion := by
    intro id f
    obtain ⟨nodes, h⟩ := change_nodes w id f
    rw [h]
  have detach : ∀ (v : World) token, (v.detach t token).world.lastVersion = v.lastVersion := by
    intro v token
    unfold World.detach
    split <;> rfl
  have root : ∀ p b, w.lastVersion ≤ (w.enterRoot t p b).1.lastVersion := by
    intro p b
    obtain ⟨found, he⟩ := enterRoot_eq w t p b
    rw [he, rootPolicy]
    split
    · exact Nat.le_succ _
    · exact Nat.le_refl _
  have enter : ∀ parent p b, w.lastVersion ≤ (w.enter t parent p b).1.lastVersion := by
    intro parent p b
    unfold World.enter
    split
    · exact root p b
    split
    · exact root p b
    · exact Nat.le_refl _
  cases a with
  | buildPolicy table => exact Nat.le_succ _
  | addEngine c b codec => exact Nat.le_add_right _ 2
  | applyConfig id c =>
    simp only [perform]
    split
    · exact Nat.le_refl _
    · exact Nat.le_succ _
  | dropEngine id =>
    simp only [perform, dropEngine]
    split <;> exact Nat.le_refl _
  | enter name p q b => exact enter p q b
  | enterUnder name engine p =>
    simp only [perform]
    split
    · exact Nat.le_refl _
    · rename_i e _
      refine Nat.le_trans (enter p e.policy e.bridge) (Nat.le_of_eq ?_)
      show _ = (w.enterUnder t e p).1.lastVersion
      unfold World.enterUnder World.seed
      dsimp only
      split
      · split <;> rfl
      · rfl
  | makeActive id =>
    refine same ?_
    show (w.makeActive t id).world.lastVersion = _
    unfold makeActive publish
    split
    · rfl
    · dsimp only
      split <;> rfl
  | beginExit id => exact same (change id _)
  | close id =>
    refine same ?_
    show (w.close t id).world.lastVersion = _
    unfold close
    split
    · rfl
    · rename_i n _
      have hclosing : (w.closing t id n).lastVersion = w.lastVersion := by
        unfold closing closeScope? detach?
        cases n.scope <;> cases n.token <;> first | rfl | exact detach ..
      obtain ⟨nodes, h⟩ := flowUp_nodes (w.closing t id n) t id n
      rw [closeOpen_world, h]
      exact hclosing
  | set id key v => exact same (change id _)
  | readDown id c h =>
    obtain ⟨nodes, lastObject, hw⟩ := readDown_nodes w id c h
    have kept : (w.readDown id c h).world.lastVersion = w.lastVersion := by rw [hw]
    exact same kept
  | readUp id c h =>
    obtain ⟨nodes, hw⟩ := setAll_nodes w id (c.decode h).entries.entries
    have kept : (w.readUp id c h).world.lastVersion = w.lastVersion := by
      show (w.setAll id (c.decode h).entries.entries).world.lastVersion = _
      rw [hw]
    exact same kept
  | detach token => exact same (detach w token)
  | dropScope token => exact same (detach w token)
  | unwindScope id => exact same (detach (w.attach t id).1 _)
  | resume table h =>
    simp only [perform, resume]
    split <;> rename_i hr
    · exact Nat.le_of_eq (congrArg (fun r => r.1.lastVersion) hr)
    · exact Nat.le_of_eq (congrArg (fun r => r.1.lastVersion) hr)
  | race table h n => exact same (lastVersion_race w table h n)
  | storeForPassing table id singleUse n => exact same (lastVersion_storeForPassing w table id singleUse n)
  | _ => exact Nat.le_refl _

theorem lastVersion_le_run (w : World) (as : List (ThreadId × Action)) : w.lastVersion ≤ (w.run as).lastVersion := by
  induction as generalizing w with
  | nil => exact Nat.le_refl _
  | cons a as ih => exact Nat.le_trans (lastVersion_le_perform w a.1 a.2) (ih _)

/-! ## Roots -/

/-- What a root has that was entered under a policy made of settings, while tags were
found in the facility. -/
structure RootOf (v : World) (s : Settings) (p : Policy) (found : Tags) (entered : World × NodeId) : Prop where
  policy : ∃ n, entered.1.nodes.get? entered.2 = some n ∧
    (∀ k, n.policy.table.get? k = PolicyTable.recorded (s.effective (found.map Prod.fst) k)) ∧
    (n.policy.version = p.version ↔ ∀ k, s.effective (found.map Prod.fst) k = s.effective [] k) ∧
    (n.policy.version = p.version → n.policy = p)
  engines : entered.1.engines = v.engines

variable {v : World} {s : Settings} {p : Policy}

/-- A policy that is made for a root says the same as one that it shares. -/
theorem settings_rootPolicy (hp : p.table = s.resolve) (found : Tags) (k : String) :
    (v.rootPolicy p found).2.table.settings k = s.effective (found.map Prod.fst) k := by
  rw [← s.settings_inferTags_resolve]
  unfold rootPolicy
  dsimp only
  split
  · rw [newPolicy, hp]
  · rename_i h
    rw [hp] at h ⊢
    exact (PolicyTable.any_infersTag_eq_false (Bool.eq_false_iff.2 h) k).symm

theorem tight_rootPolicy (hp : p.table = s.resolve) (found : Tags) : (v.rootPolicy p found).2.table.Tight := by
  unfold rootPolicy
  dsimp only
  split
  · rw [newPolicy, hp]
    exact s.tight_inferTags_resolve _
  · rw [hp]
    exact s.tight_resolve

/-- A root shares its policy if the tags that were found change nothing. -/
theorem rootPolicy_cases (hv : p.version ≤ v.lastVersion) (found : Tags) :
    (v.rootPolicy p found).2 = p ∧ (found.map Prod.fst).any p.table.infersTag = false ∨
      (v.rootPolicy p found).2.version ≠ p.version ∧ (found.map Prod.fst).any p.table.infersTag = true := by
  unfold rootPolicy
  dsimp only
  split
  · rename_i h
    exact .inr ⟨Nat.ne_of_gt (Nat.lt_succ_of_le hv), h⟩
  · rename_i h
    exact .inl ⟨rfl, Bool.eq_false_iff.2 h⟩

theorem version_rootPolicy (hp : p.table = s.resolve) (hv : p.version ≤ v.lastVersion) (found : Tags) :
    ((v.rootPolicy p found).2.version = p.version ↔
      ∀ k, s.effective (found.map Prod.fst) k = s.effective [] k) ∧
    ((v.rootPolicy p found).2.version = p.version → (v.rootPolicy p found).2 = p) := by
  have resolved : ∀ k, s.effective [] k = s.resolve.settings k := fun k =>
    (s.settings_inferTags_resolve [] k).symm
  rcases v.rootPolicy_cases hv found with ⟨he, hany⟩ | ⟨hne, hany⟩
  · refine ⟨iff_of_true (by rw [he]) fun k => ?_, fun _ => he⟩
    rw [← settings_rootPolicy (v := v) hp, he, hp, resolved]
  · refine ⟨iff_of_false hne fun hsame => ?_, fun h => absurd h hne⟩
    -- A key that is made a tag has other settings afterwards.
    obtain ⟨k, hk, hinfers⟩ := List.any_eq_true.1 hany
    have hset := hsame k
    rw [resolved, ← s.settings_inferTags_resolve, PolicyTable.settings_inferTags, if_pos hk, ← hp] at hset
    simp [PolicyTable.infersTag, hset] at hinfers

theorem rootOf_enter (hp : p.table = s.resolve) (hv : p.version ≤ v.lastVersion) (t : ThreadId) (b : BridgeId) :
    RootOf v s p (v.tags b) (v.enter t none p (some b)) := by
  refine ⟨⟨_, get?_withNode_self .., fun k => ?_, ?_⟩, (sameBridges_enter v t none p (some b)).engines⟩
  · show (v.rootPolicy p (v.tags b)).2.table.get? k = _
    rw [tight_rootPolicy hp, settings_rootPolicy hp]
  · exact version_rootPolicy hp hv (v.tags b)

/-- An engine adds its identity to the data of a root, and nothing else. -/
theorem RootOf.seed {found : Tags} {entered : World × NodeId} (h : RootOf v s p found entered)
    (es : List (String × Value)) : RootOf v s p found (entered.1.seed entered.2 es, entered.2) := by
  obtain ⟨n, hn, hpolicy⟩ := h.policy
  have hseed : (n.seed es).policy = n.policy := by
    unfold Node.seed
    split <;> rfl
  refine ⟨⟨n.seed es, ?_, by rwa [hseed]⟩, ?_⟩
  · simp only [World.seed, hn]
    rw [get?_withNode_self]
  · simp only [World.seed, hn]
    exact h.engines

/-- **Precedence of settings**, from a configuration to the roots. A root that is
entered, however much later, under the policy made of the settings has for each key
what the strongest source says, field by field; directly and through an engine that
still has this policy. Engines stay as they are, and the root shares the policy just if
the tags that were found change nothing. What is reported for the settings is one
conflict for each explicit setting that a weaker source has otherwise. -/
theorem policy_precedence (w : World) (c : Config) (as : List (ThreadId × Action)) :
    (let made := w.newPolicy c.settings.resolve
      let v := made.1.run as
      ∀ t b, RootOf v c.settings made.2 (v.tags b) (v.enter t none made.2 (some b))) ∧
    (∀ id e, let v := (w.applyConfig id e c).1.run as
      ∀ x e' b, v.engines.get? x = some e' → e'.policy = (w.resolve c).2.1 → e'.bridge = some b →
        ∀ t, RootOf v c.settings e'.policy (v.tags b) (v.enterUnder t e' none)) ∧
    (∀ id e, (w.applyConfig id e c).2 = c.settings.conflicts.map Event.conflict ++
      [.configured c.settings.resolve.size c.traceFormat]) ∧
    (c.settings.conflicts.map fun x => (x.key, x.field)).Nodup ∧
    (∀ k f, (∃ x ∈ c.settings.conflicts, x.key = k ∧ x.field = f) ↔ ∃ source, source ≠ .configuration ∧
      Settings.replaces (c.settings.record k .configuration) (c.settings.record k source) f = true) ∧
    ∀ x ∈ c.settings.conflicts, x.winner = .configuration ∧ x.overridden ≠ .configuration ∧
      Settings.replaces (c.settings.record x.key .configuration) (c.settings.record x.key x.overridden) x.field =
        true := by
  refine ⟨?_, fun id e => ?_, fun _ _ => rfl, c.settings.conflicts_exact⟩
  · intro made v t b
    exact rootOf_enter rfl (lastVersion_le_run made.1 as) t b
  · intro v x e' b _ hpolicy hbridge t
    have hversion : e'.policy.version ≤ v.lastVersion := by
      rw [hpolicy]
      exact lastVersion_le_run (w.applyConfig id e c).1 as
    have hroot := rootOf_enter (s := c.settings) (by rw [hpolicy]; rfl) hversion t b
    rw [← hbridge] at hroot
    exact hroot.seed e'.seedData

end World

end Ambient
