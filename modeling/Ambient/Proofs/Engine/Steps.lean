import Ambient.Proofs.Engine.Locks

/-
What a step of a call on an engine does, and what holds between any two steps, whatever
their order (`Configuring.Scene.Sound`): the engine has the policy and the identity that
were written last, and a root has what it read, on a node of its own.
-/

namespace Ambient

/-- What a root is seeded with. -/
def Config.seedData (c : Config) : List (String × Value) := c.identity.map fun i => (i.1, .text i.2)

/-- A root that is entered where there is no bridge. -/
def Node.bare (p : Policy) (t : ThreadId) : Node := Node.fresh p t false none none Dict.empty

namespace Configuring

namespace Stage

/-- The policy that a call has made, with the configuration that it is taking over. -/
def made? : Stage → Option (Config × Policy)
  | writePolicy c p | writeIdentity c p | readFormat c p | writeFormat c p | applied c p => some (c, p)
  | _ => none

theorem config?_of_made? {k : Stage} {c : Config} {p : Policy} (h : k.made? = some (c, p)) : k.config? = some c := by
  cases k with
  | writePolicy | writeIdentity | readFormat | writeFormat | applied =>
    cases h
    rfl
  | _ => cases h

/-- The node that a call has added. -/
def node? : Stage → Option NodeId
  | readIdentity id | seed id _ | entered id => some id
  | _ => none

/-- The locks that a call has taken. -/
def taken : Stage → List Lock
  | resolve _ | writePolicy _ _ | readPolicy _ => []
  | writeIdentity _ _ | addNode _ _ | readIdentity _ => [.policy]
  | readFormat _ _ | writeFormat _ _ | applied _ _ | seed _ _ | entered _ => [.policy, .identity]

/-- The steps that are left of entering a root. -/
def stepsLeft : Stage → Nat
  | readPolicy _ => 4
  | addNode _ _ => 3
  | readIdentity _ => 2
  | seed _ _ => 1
  | _ => 0

/-- What the next step leaves of the engine. -/
def written (e : Engine) : Stage → Engine
  | writePolicy _ p => e.withPolicy p
  | writeIdentity c _ => e.withIdentity c.identity
  | _ => e

variable {w : World} {x : EngineId} {e : Engine} {k : Stage} {c : Config} {p : Policy} {id : NodeId}

theorem config?_next (w : World) (x : EngineId) (e : Engine) (k : Stage) : (k.next w x e).2.1.config? = k.config? := by
  cases k with
  | readFormat c p =>
    dsimp only [next]
    split <;> rfl
  | _ => rfl

theorem taken_next (w : World) (x : EngineId) (e : Engine) (k : Stage) :
    (k.next w x e).2.1.taken = k.taken ++ k.lock?.toList := by
  cases k with
  | readFormat c p =>
    dsimp only [next]
    split <;> rfl
  | _ => rfl

theorem stepsLeft_next (hk : ¬ k.config?.isSome = true) : (k.next w x e).2.1.stepsLeft = k.stepsLeft - 1 := by
  cases k with
  | readPolicy | addNode | readIdentity | seed | entered => rfl
  | _ => exact absurd rfl hk

theorem entered_of_stepsLeft (hk : ¬ k.config?.isSome = true) (hl : k.stepsLeft = 0) : ∃ id, k = .entered id := by
  cases k with
  | entered id => exact ⟨id, rfl⟩
  | readPolicy | addNode | readIdentity | seed => cases hl
  | _ => exact absurd rfl hk

/-- A call makes a policy once. -/
theorem made?_next_iff : (k.next w x e).2.1.made? = some (c, p) ↔
    k.made? = some (c, p) ∨ k = .resolve c ∧ p = (w.resolve c).2.1 := by
  cases k with
  | resolve c' =>
    constructor
    · intro h
      cases h
      exact .inr ⟨rfl, rfl⟩
    · rintro (h | ⟨h, rfl⟩)
      · cases h
      · cases h
        rfl
  | readFormat c' q =>
    dsimp only [next]
    split <;> simp [made?]
  | _ => simp [next, made?]

/-- A node that a call gets is new. -/
theorem node?_next_cases (h : (k.next w x e).2.1.node? = some id) :
    k.node? = some id ∨ id = w.lastNode + 1 ∧ (k.next w x e).1.lastNode = w.lastNode + 1 := by
  cases k with
  | addNode t p =>
    obtain ⟨hid, p', es, hadds⟩ := w.enterRoot_adds t p e.bridge
    cases h
    exact .inr ⟨hid, hadds.lastNode⟩
  | readFormat c p =>
    dsimp only [next] at h
    split at h <;> cases h
  | readIdentity | seed | entered => exact .inl h
  | _ => cases h

theorem engine_next (he : w.engines.get? x = some e) (k : Stage) :
    (k.next w x e).1.engines.get? x = some (k.written e) := by
  cases k with
  | writePolicy | writeIdentity => exact (Dict.get?_insert ..).trans (if_pos rfl)
  | addNode t p => exact (congrArg (·.get? x) (w.sameBridges_enter t none p e.bridge).engines).trans he
  | seed id data =>
    dsimp only [next, World.seed]
    split <;> exact he
  | _ => exact he

theorem lastNode_next (w : World) (x : EngineId) (e : Engine) (k : Stage) : w.lastNode ≤ (k.next w x e).1.lastNode := by
  cases k with
  | addNode t p =>
    obtain ⟨-, p', es, hadds⟩ := w.enterRoot_adds t p e.bridge
    exact hadds.lastNode ▸ Nat.le_succ _
  | seed id data =>
    dsimp only [next, World.seed]
    split <;> exact Nat.le_refl _
  | _ => exact Nat.le_refl _

/-- The next step touches no node but the call's own. -/
theorem nodes_next (hid : id ≤ w.lastNode) (hk : k.node? ≠ some id) :
    (k.next w x e).1.nodes.get? id = w.nodes.get? id := by
  cases k with
  | addNode t p =>
    obtain ⟨-, p', es, hadds⟩ := w.enterRoot_adds t p e.bridge
    exact (hadds.nodes id).trans (if_neg (Nat.ne_of_gt (Nat.lt_succ_of_le hid)))
  | seed own data =>
    dsimp only [next, World.seed]
    split
    · rfl
    · rw [World.get?_withNode, if_neg fun h => hk (congrArg some h)]
  | _ => rfl

end Stage

namespace Scene

/-! ## What calls come by -/

/-- The policy that a root has read is one that was made of a configuration. -/
def HasPolicy (s : Scene) (r : Nat) (p : Policy) : Prop :=
  ∃ a c, s.ReadsFrom .policy r a ∧ (s.stages a).made? = some (c, p)

/-- The identity that a root has read is that of a configuration. -/
def HasIdentity (s : Scene) (r : Nat) (data : List (String × Value)) : Prop :=
  ∃ b d, s.ReadsFrom .identity r b ∧ (s.stages b).config? = some d ∧ data = d.seedData

/-- What a root has by the time it has come to a stage. -/
def Reached (s : Scene) (r : Nat) : Stage → Prop
  | .addNode _ p => s.HasPolicy r p
  | .readIdentity id => ∃ p t, s.HasPolicy r p ∧ s.world.nodes.get? id = some (Node.bare p t)
  | .seed id data => ∃ p t, s.HasPolicy r p ∧ s.HasIdentity r data ∧ s.world.nodes.get? id = some (Node.bare p t)
  | .entered id => ∃ p t data, s.HasPolicy r p ∧ s.HasIdentity r data ∧
      s.world.nodes.get? id = some ((Node.bare p t).seed data)
  | _ => True

/-- An engine without a bridge has the policy and the identity that were written last. -/
structure Configured (s : Scene) (e : Engine) : Prop where
  bridge : e.bridge = none
  policy : ∃ a c, s.Latest .policy a ∧ (s.stages a).made? = some (c, e.policy)
  identity : ∃ b d, s.Latest .identity b ∧ (s.stages b).config? = some d ∧ e.identity = d.identity

/-- What holds between any two steps. -/
structure Sound (s : Scene) : Prop where
  engine : ∃ e, s.world.engines.get? s.engine = some e ∧ s.Configured e
  made : ∀ n c p, (s.stages n).made? = some (c, p) → p.table = c.settings.resolve
  log : ∀ l n, (l, n) ∈ s.log ↔ l ∈ (s.stages n).taken
  reached : ∀ n, s.Reached n (s.stages n)
  /-- Every root has a node of its own. -/
  own : ∀ m n id, (s.stages m).node? = some id → (s.stages n).node? = some id → m = n
  node : ∀ n id, (s.stages n).node? = some id → id ≤ s.world.lastNode

variable {s : Scene} {e : Engine} {l : Lock} {a m n r : Nat} {c : Config} {p : Policy} {id : NodeId}
  {data : List (String × Value)}

/-! ## One step -/

section Step

variable (he : s.world.engines.get? s.engine = some e)

include he

theorem world_step (n : Nat) : (s.step n).world = ((s.stages n).next s.world s.engine e).1 := by
  rw [step_eq he rfl]

theorem engine_step (n : Nat) : (s.step n).engine = s.engine := by
  rw [step_eq he rfl]

theorem log_step (n : Nat) : (s.step n).log = s.log ++ ((s.stages n).lock?.map fun l => (l, n)).toList := by
  rw [step_eq he rfl]

theorem stages_step_self (n : Nat) : (s.step n).stages n = ((s.stages n).next s.world s.engine e).2.1 := by
  rw [step_eq he rfl]
  exact Function.update_self ..

theorem stages_step_of_ne (h : m ≠ n) : (s.step n).stages m = s.stages m := by
  rw [step_eq he rfl]
  exact Function.update_of_ne h ..

theorem extends_step (n : Nat) : Extends s (s.step n) := by
  refine ⟨log_step he n ▸ List.prefix_append .., fun m => ?_⟩
  by_cases hm : m = n
  · rw [hm, stages_step_self he, Stage.config?_next]
  · rw [stages_step_of_ne he hm]

theorem made?_step (h : (s.stages a).made? = some (c, p)) (n : Nat) : ((s.step n).stages a).made? = some (c, p) := by
  by_cases ha : a = n
  · subst ha
    rw [stages_step_self he]
    exact Stage.made?_next_iff.2 (.inl h)
  · rwa [stages_step_of_ne he ha]

/-- A node that a call has after a step it had before, or nobody had it. -/
theorem node?_step_cases (hm : ((s.step n).stages m).node? = some id) :
    (s.stages m).node? = some id ∨
      m = n ∧ id = s.world.lastNode + 1 ∧ (s.step n).world.lastNode = s.world.lastNode + 1 := by
  rw [world_step he]
  by_cases hn : m = n
  · subst hn
    rw [stages_step_self he] at hm
    exact (Stage.node?_next_cases hm).imp_right fun hnew => ⟨rfl, hnew⟩
  · rw [stages_step_of_ne he hn] at hm
    exact .inl hm

theorem HasPolicy.step (h : s.HasPolicy r p) (n : Nat) : (s.step n).HasPolicy r p := by
  obtain ⟨a, c, ha, hc⟩ := h
  exact ⟨a, c, ha.extends (extends_step he n), made?_step he hc n⟩

theorem HasIdentity.step (h : s.HasIdentity r data) (n : Nat) : (s.step n).HasIdentity r data := by
  obtain ⟨b, d, hb, hd, hdata⟩ := h
  exact ⟨b, d, hb.extends (extends_step he n), ((extends_step he n).config b).trans hd, hdata⟩

theorem Latest.step (h : s.Latest l a) (hn : ¬ ((s.stages n).lock? = some l ∧ s.Writes n)) : (s.step n).Latest l a := by
  refine h.extends (extends_step he n) fun b hb hmem => ?_
  rw [log_step he, List.mem_append] at hmem
  refine hmem.resolve_right fun hown => ?_
  obtain ⟨l', hl', heq⟩ : ∃ l', (s.stages n).lock? = some l' ∧ (l', n) = (l, b) := by simpa using hown
  cases heq
  exact hn ⟨hl', ((extends_step he n).writes_iff n).1 hb⟩

end Step

/-- A call takes each lock once. -/
theorem Sound.notMem_log (h : s.Sound) (hl : (s.stages n).lock? = some l) : (l, n) ∉ s.log := by
  rw [h.log]
  cases hk : s.stages n <;> rw [hk] at hl <;> cases hl <;> simp [Stage.taken]

section Kept

variable (h : s.Sound) (he : s.world.engines.get? s.engine = some e)

include h he

theorem Sound.latest_step (hl : (s.stages n).lock? = some l) (hw : s.Writes n) : (s.step n).Latest l n :=
  latest_of_writes (extends_step he n) (by rw [log_step he, hl]; rfl) (h.notMem_log hl) hw

theorem Sound.readsFrom_step (hl : (s.stages n).lock? = some l) (hw : ¬ s.Writes n) (ha : s.Latest l a) :
    (s.step n).ReadsFrom l n a :=
  ha.readsFrom (extends_step he n) (by rw [log_step he, hl]; rfl) (h.notMem_log hl) hw

theorem Sound.configured_step (hc : s.Configured e) (n : Nat) : (s.step n).Configured ((s.stages n).written e) := by
  have policy (hn : ¬ ((s.stages n).lock? = some .policy ∧ s.Writes n)) :
      ∃ a c, (s.step n).Latest .policy a ∧ ((s.step n).stages a).made? = some (c, e.policy) := by
    obtain ⟨a, c, ha, hmade⟩ := hc.policy
    exact ⟨a, c, ha.step he hn, made?_step he hmade n⟩
  have identity (hn : ¬ ((s.stages n).lock? = some .identity ∧ s.Writes n)) :
      ∃ b d, (s.step n).Latest .identity b ∧ ((s.step n).stages b).config? = some d ∧ e.identity = d.identity := by
    obtain ⟨b, d, hb, hd, hi⟩ := hc.identity
    exact ⟨b, d, hb.step he hn, ((extends_step he n).config b).trans hd, hi⟩
  -- A write leaves what is behind the other lock as it was.
  cases hk : s.stages n with
  | writePolicy c p =>
    have hw : s.Writes n := by rw [Writes, hk]; rfl
    refine ⟨hc.bridge, ⟨n, c, h.latest_step he (by rw [hk]; rfl) hw, ?_⟩, identity (by simp [hk, Stage.lock?])⟩
    rw [stages_step_self he, hk]
    rfl
  | writeIdentity c p =>
    have hw : s.Writes n := by rw [Writes, hk]; rfl
    refine ⟨hc.bridge, policy (by simp [hk, Stage.lock?]), ⟨n, c, h.latest_step he (by rw [hk]; rfl) hw, ?_, rfl⟩⟩
    rw [stages_step_self he, hk]
    rfl
  | _ => exact ⟨hc.bridge, policy (by simp [hk, Stage.lock?, Writes, Stage.config?]),
      identity (by simp [hk, Stage.lock?, Writes, Stage.config?])⟩

/-- A step of another call takes nothing from a root. -/
theorem Sound.reached_step_of_ne (hr : r ≠ n) : (s.step n).Reached r ((s.step n).stages r) := by
  have hreached := h.reached r
  -- Its node is its own, so the step is not one that seeds it.
  have same : ∀ id, (s.stages r).node? = some id → (s.step n).world.nodes.get? id = s.world.nodes.get? id := by
    intro id hid
    rw [world_step he]
    exact Stage.nodes_next (h.node r id hid) fun hn => hr (h.own r n id hid hn)
  rw [stages_step_of_ne he hr]
  cases hk : s.stages r <;> rw [hk] at hreached same <;> try exact trivial
  case addNode => exact hreached.step he n
  case readIdentity id =>
    obtain ⟨p, t, hp, hn⟩ := hreached
    exact ⟨p, t, hp.step he n, (same id rfl).trans hn⟩
  case seed id data =>
    obtain ⟨p, t, hp, hd, hn⟩ := hreached
    exact ⟨p, t, hp.step he n, hd.step he n, (same id rfl).trans hn⟩
  case entered id =>
    obtain ⟨p, t, data, hp, hd, hn⟩ := hreached
    exact ⟨p, t, data, hp.step he n, hd.step he n, (same id rfl).trans hn⟩

/-- What a root comes by with its own step. -/
theorem Sound.reached_step_self (hc : s.Configured e) (n : Nat) : (s.step n).Reached n ((s.step n).stages n) := by
  have hreached := h.reached n
  rw [stages_step_self he]
  cases hk : s.stages n <;> rw [hk] at hreached <;> try exact trivial
  case readFormat c p =>
    dsimp only [Stage.next]
    split <;> exact trivial
  case readPolicy t =>
    obtain ⟨a, c, ha, hmade⟩ := hc.policy
    have hw : ¬ s.Writes n := by simp [Writes, hk, Stage.config?]
    exact ⟨a, c, h.readsFrom_step he (by rw [hk]; rfl) hw ha, made?_step he hmade n⟩
  case addNode t p =>
    refine ⟨p, t, HasPolicy.step he hreached n, ?_⟩
    rw [world_step he, hk, Stage.next, hc.bridge]
    exact World.get?_withNode_self ..
  case readIdentity id =>
    obtain ⟨p, t, hp, hn⟩ := hreached
    obtain ⟨b, d, hb, hd, hi⟩ := hc.identity
    have hw : ¬ s.Writes n := by simp [Writes, hk, Stage.config?]
    refine ⟨p, t, hp.step he n, ⟨b, d, h.readsFrom_step he (by rw [hk]; rfl) hw hb,
      ((extends_step he n).config b).trans hd, congrArg _ hi⟩, ?_⟩
    rw [world_step he, hk]
    exact hn
  case seed id data =>
    obtain ⟨p, t, hp, hd, hn⟩ := hreached
    refine ⟨p, t, data, hp.step he n, hd.step he n, ?_⟩
    rw [world_step he, hk]
    simp only [Stage.next, World.seed, hn]
    exact World.get?_withNode_self ..
  case entered id =>
    obtain ⟨p, t, data, hp, hd, hn⟩ := hreached
    refine ⟨p, t, data, hp.step he n, hd.step he n, ?_⟩
    rw [world_step he, hk]
    exact hn

theorem Sound.log_step_iff (n : Nat) (l : Lock) (m : Nat) :
    (l, m) ∈ (s.step n).log ↔ l ∈ ((s.step n).stages m).taken := by
  rw [log_step he, List.mem_append, h.log]
  by_cases hm : m = n
  · rw [hm, stages_step_self he, Stage.taken_next, List.mem_append]
    simp
  · rw [stages_step_of_ne he hm]
    simp [Ne.symm hm]

theorem Sound.made_step (hm : ((s.step n).stages m).made? = some (c, p)) : p.table = c.settings.resolve := by
  by_cases hn : m = n
  · rw [hn, stages_step_self he] at hm
    rcases Stage.made?_next_iff.1 hm with hold | ⟨-, rfl⟩
    · exact h.made n c p hold
    · rfl
  · rw [stages_step_of_ne he hn] at hm
    exact h.made m c p hm

end Kept

theorem Sound.step (h : s.Sound) (n : Nat) : (s.step n).Sound := by
  obtain ⟨e, he, hc⟩ := h.engine
  refine ⟨⟨_, ?engine, h.configured_step he hc n⟩, fun m c p => h.made_step he, fun l m => h.log_step_iff he n l m,
    fun m => ?reached, fun m m' id hm hm' => ?own, fun m id hm => ?node⟩
  case engine =>
    rw [world_step he, engine_step he]
    exact Stage.engine_next he _
  case reached =>
    by_cases hm : m = n
    · exact hm ▸ h.reached_step_self he hc n
    · exact h.reached_step_of_ne he hm
  case own =>
    -- A node that is new has a number that none had before.
    rcases node?_step_cases he hm with hold | ⟨rfl, rfl, -⟩ <;>
      rcases node?_step_cases he hm' with hold' | ⟨rfl, hnew, -⟩
    · exact h.own m m' id hold hold'
    · exact absurd (hnew ▸ h.node m id hold) (Nat.not_succ_le_self _)
    · exact absurd (h.node m' _ hold') (Nat.not_succ_le_self _)
    · rfl
  case node =>
    rcases node?_step_cases he hm with hold | ⟨-, rfl, hlast⟩
    · exact Nat.le_trans (h.node m id hold) (world_step he n ▸ Stage.lastNode_next ..)
    · exact Nat.le_of_eq hlast.symm

/-! ## Any number of steps -/

theorem Sound.run (h : s.Sound) (ns : List Nat) : (s.run ns).Sound := by
  induction ns generalizing s with
  | nil => exact h
  | cons n ns ih => exact ih (h.step n)

theorem Sound.extends_run (h : s.Sound) (ns : List Nat) : Extends s (s.run ns) := by
  induction ns generalizing s with
  | nil => exact ⟨List.prefix_rfl, fun _ => rfl⟩
  | cons n ns ih =>
    obtain ⟨e, he, -⟩ := h.engine
    exact (extends_step he n).trans (ih (h.step n))

/-- A root has fewer steps left with each that it makes. -/
theorem Sound.stepsLeft_run (h : s.Sound) (hr : ¬ s.Writes r) (ns : List Nat) :
    ((s.run ns).stages r).stepsLeft = (s.stages r).stepsLeft - ns.count r := by
  induction ns generalizing s with
  | nil => rfl
  | cons n ns ih =>
    obtain ⟨e, he, -⟩ := h.engine
    have rest := ih (h.step n) (((extends_step he n).writes_iff r).not.2 hr)
    refine rest.trans ?_
    by_cases hn : r = n
    · subst hn
      rw [stages_step_self he, Stage.stepsLeft_next hr, List.count_cons_self]
      omega
    · rw [stages_step_of_ne he hn, List.count_cons_of_ne (Ne.symm hn)]

end Scene

end Configuring

end Ambient
