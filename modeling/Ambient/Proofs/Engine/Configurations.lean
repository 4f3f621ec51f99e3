import Ambient.Proofs.Engine.Steps
import Ambient.Proofs.Policy.Precedence

/-
Which configurations a root has its policy and its identity from, when configurations are
taken over while it is entered: each is that of one configuration, and both are of the
same one unless a call has overtaken another (`Configuring.roots_configured`). It can
happen that they are not (`Configuring.not_one_configuration`).
-/

namespace Ambient

/-- The process identity in a configuration, key by key. -/
def Config.identityOf (c : Config) (key : String) : Option String :=
  if key = serviceKey then c.service
  else if key = hostKey then c.host
  else if key = hostAddressKey then c.hostAddress
  else none

theorem Config.lookupEntry_identity (c : Config) (key : String) : lookupEntry key c.identity = c.identityOf key := by
  have distinct : serviceKey ≠ hostKey ∧ serviceKey ≠ hostAddressKey ∧ hostKey ≠ hostAddressKey := by decide
  obtain ⟨settings, format, service, host, hostAddress⟩ := c
  cases service <;> cases host <;> cases hostAddress <;>
    simp only [identity, identityOf, List.filterMap, Option.map, id, lookupEntry] <;> grind

theorem Config.nodup_identity (c : Config) : (c.identity.map Prod.fst).Nodup := by
  have distinct : serviceKey ≠ hostKey ∧ serviceKey ≠ hostAddressKey ∧ hostKey ≠ hostAddressKey := by decide
  obtain ⟨settings, format, service, host, hostAddress⟩ := c
  cases service <;> cases host <;> cases hostAddress <;> simp [identity, distinct]

/-- What a root shows that was seeded with the identity in a configuration. -/
theorem Node.value_seed_bare (p : Policy) (t : ThreadId) (c : Config) (key : String) :
    ((Node.bare p t).seed c.seedData).value key = (c.identityOf key).map .text := by
  have seeded : c.seedData.map (fun e => (e.1, some e.2)) = c.identity.map fun i => (i.1, some (.text i.2)) := by
    simp [Config.seedData]
  have nodup : ((c.identity.map fun i => (i.1, some (Value.text i.2))).map Prod.fst).Nodup := by
    simpa [List.map_map, Function.comp_def] using c.nodup_identity
  have written : ((Node.bare p t).seed c.seedData).writes.get? key = (c.identityOf key).map fun v => some (.text v) := by
    show ((Dict.empty : Dict String (Option Value)).insertAll (c.seedData.map fun e => (e.1, some e.2))).get? key = _
    rw [seeded, Dict.get?_insertAll nodup, lookupEntry_map (fun _ v => some (Value.text v)), c.lookupEntry_identity]
    exact Option.or_none
  rw [value_eq, written]
  cases c.identityOf key <;> rfl

namespace Configuring

theorem config?_begin {call : Call} {c : Config} (h : call.begin.config? = some c) : call = .apply c := by
  cases call with
  | apply c' => rw [Option.some.inj h]
  | enter t => cases h

namespace Scene

variable {s : Scene} {r : Nat}

/-- A root has its policy from one call and its identity from one call. -/
structure Rooted (s : Scene) (calls : Nat → Call) (r a b : Nat) (n : Node) : Prop where
  root : n.parent = none
  policyRead : s.ReadsFrom .policy r a
  /-- The policy is the one that the call made of its configuration. -/
  policy : ∃ c, calls a = .apply c ∧ (s.stages a).made? = some (c, n.policy) ∧ n.policy.table = c.settings.resolve
  identityRead : s.ReadsFrom .identity r b
  /-- The node shows the identity in the configuration of the call, and nothing else. -/
  identity : ∃ d, calls b = .apply d ∧ ∀ key, n.value key = (d.identityOf key).map .text

/-! ## From the making of an engine on -/

section Opened

variable (w : World) (c : Config) (codec : Codec) (later : Nat → Call)

theorem stages_opened (n : Nat) : (opened w c codec later).stages n =
    if n = 0 then .applied c (firstPolicy w c) else (numbered c later n).begin := by
  rw [opened_eq]
  exact Function.update_apply (fun n => (numbered c later n).begin) 0 _ n

theorem log_opened : (opened w c codec later).log = [(.policy, 0), (.identity, 0)] := by
  rw [opened_eq]

theorem engines_opened : (opened w c codec later).world.engines.get? (opened w c codec later).engine =
    some ⟨firstPolicy w c, c.identity, none, codec, w.lastNumber + 1⟩ := by
  rw [opened_eq]
  exact get?_addEngine w c codec

theorem config?_opened (n : Nat) :
    ((opened w c codec later).stages n).config? = (numbered c later n).begin.config? := by
  rw [stages_opened]
  split
  · rename_i hn
    rw [hn]
    rfl
  · rfl

theorem latest_opened (l : Lock) : (opened w c codec later).Latest l 0 := by
  refine ⟨?_, by rw [Writes, stages_opened]; rfl, fun b _ hb => ?_⟩
  · rw [log_opened]
    cases l <;> simp
  · rw [log_opened] at hb
    obtain rfl : b = 0 := by cases l <;> simpa using hb
    exact Nat.le_refl _

/-- Of the calls that are to come none has made a step. -/
theorem stages_opened_cases (n : Nat) :
    n = 0 ∧ (opened w c codec later).stages n = .applied c (firstPolicy w c) ∨
      n ≠ 0 ∧ ((∃ c', (opened w c codec later).stages n = .resolve c') ∨
        ∃ t, (opened w c codec later).stages n = .readPolicy t) := by
  rw [stages_opened]
  by_cases hn : n = 0
  · exact .inl ⟨hn, if_pos hn⟩
  · rw [if_neg hn]
    cases numbered c later n with
    | apply c' => exact .inr ⟨hn, .inl ⟨c', rfl⟩⟩
    | enter t => exact .inr ⟨hn, .inr ⟨t, rfl⟩⟩

theorem sound_opened : (opened w c codec later).Sound := by
  have begun := stages_opened_cases w c codec later
  have noNode : ∀ n id, ((opened w c codec later).stages n).node? ≠ some id := by
    intro n id
    rcases begun n with ⟨-, hn⟩ | ⟨-, ⟨c', hn⟩ | ⟨t, hn⟩⟩ <;> rw [hn] <;> nofun
  refine ⟨⟨_, engines_opened w c codec later, rfl, ?policy, ?identity⟩, fun n c' p hm => ?made, fun l n => ?log,
    fun n => ?reached, fun m n id hm => absurd hm (noNode m id), fun n id hn => absurd hn (noNode n id)⟩
  case policy => exact ⟨0, c, latest_opened w c codec later .policy, by rw [stages_opened]; rfl⟩
  case identity => exact ⟨0, c, latest_opened w c codec later .identity, by rw [stages_opened]; rfl, rfl⟩
  case made =>
    rcases begun n with ⟨-, hn⟩ | ⟨-, ⟨c', hn⟩ | ⟨t, hn⟩⟩ <;> rw [hn] at hm <;> cases hm
    rfl
  case log =>
    rw [log_opened]
    rcases begun n with ⟨h0, hn⟩ | ⟨h0, ⟨c', hn⟩ | ⟨t, hn⟩⟩ <;> rw [hn] <;> cases l <;>
      simp [Stage.taken, h0]
  case reached =>
    rcases begun n with ⟨-, hn⟩ | ⟨-, ⟨c', hn⟩ | ⟨t, hn⟩⟩ <;> rw [hn] <;> exact trivial

end Opened

/-- What a root has that has been entered. -/
theorem Sound.rooted {calls : Nat → Call} {id : NodeId} (h : s.Sound)
    (hcalls : ∀ n, (s.stages n).config? = (calls n).begin.config?) (hr : s.stages r = .entered id) :
    ∃ n a b, s.world.nodes.get? id = some n ∧ s.Rooted calls r a b n := by
  have hreached := h.reached r
  rw [hr] at hreached
  obtain ⟨p, t, data, ⟨a, c, ha, hmade⟩, ⟨b, d, hb, hd, rfl⟩, hn⟩ := hreached
  have applied : calls a = .apply c := config?_begin ((hcalls a).symm.trans (Stage.config?_of_made? hmade))
  exact ⟨_, a, b, hn, rfl, ha, ⟨c, applied, hmade, h.made a c p hmade⟩, hb,
    d, config?_begin ((hcalls b).symm.trans hd), Node.value_seed_bare p t d⟩

end Scene

/-- **Where roots have their policy and their identity from.** However the steps of calls
that take configurations over and of calls that enter roots follow upon one another, a
root gets the policy of one configuration and the identity of one: those that were written
last when it read them. They are of one call, unless a call has overtaken another between
the two locks: the root the writer of its policy, or the writer of its identity the root,
or the one writer the other. -/
theorem roots_configured (w : World) (c : Config) (codec : Codec) (later : Nat → Call) (ns : List Nat) {r : Nat}
    {t : ThreadId} (hr : numbered c later r = .enter t) (hns : 4 ≤ ns.count r) :
    let s := (Scene.opened w c codec later).run ns
    ∃ id n a b, s.stages r = .entered id ∧ s.world.nodes.get? id = some n ∧ s.Rooted (numbered c later) r a b n ∧
      (a = b ↔ ¬ (s.Overtakes r a ∨ s.Overtakes b r ∨ s.Overtakes a b)) := by
  intro s
  have start := Scene.sound_opened w c codec later
  have extended := start.extends_run ns
  have hcalls : ∀ n, (s.stages n).config? = (numbered c later n).begin.config? :=
    fun n => (extended.config n).trans (Scene.config?_opened w c codec later n)
  have hread : ¬ s.Writes r := by
    rw [Scene.Writes, hcalls, hr]
    exact Bool.false_ne_true
  have left : (s.stages r).stepsLeft = 0 := by
    have begun : (Scene.opened w c codec later).stages r = .readPolicy t := by
      rw [Scene.stages_opened, hr, if_neg (by rintro rfl; cases hr)]
      rfl
    rw [start.stepsLeft_run ((extended.writes_iff r).not.1 hread), begun]
    exact Nat.sub_eq_zero_of_le hns
  obtain ⟨id, entered⟩ := Stage.entered_of_stepsLeft hread left
  obtain ⟨n, a, b, hn, rooted⟩ := (start.run ns).rooted hcalls entered
  exact ⟨id, n, a, b, entered, hn, rooted,
    (not_iff_comm.1 (Scene.ne_iff_overtakes rooted.policyRead rooted.identityRead hread)).symm⟩

/-- What an engine is made with. -/
def plainConfig : Config := { Config.default with service := some "a" }

/-- What it takes over while a root is entered. -/
def taggedConfig : Config := { Config.default with settings := ⟨Dict.empty, ["team"]⟩, service := some "b" }

def configuredWhileEntered : Nat → Call
  | 0 => .apply taggedConfig
  | _ => .enter 0

/-- A root that reads each between two steps of the call, the policy before its identity
is written, and the identity after. -/
theorem root_configured_between : numbered plainConfig configuredWhileEntered 2 = .enter 0 ∧
    4 ≤ [1, 1, 2, 2, 1, 2, 2].count 2 ∧
    let s := (Scene.opened (.start 0) plainConfig .standard configuredWhileEntered).run [1, 1, 2, 2, 1, 2, 2]
    ∃ id n a b, s.stages 2 = .entered id ∧ s.world.nodes.get? id = some n ∧
      s.Rooted (numbered plainConfig configuredWhileEntered) 2 a b n ∧
      (a = b ↔ ¬ (s.Overtakes 2 a ∨ s.Overtakes b 2 ∨ s.Overtakes a b)) :=
  ⟨rfl, by decide, roots_configured (.start 0) plainConfig .standard configuredWhileEntered _ rfl (by decide)⟩

/-- A root that comes between the two writes of a call has the policy that the call made and
the identity that was there before. -/
theorem not_one_configuration :
    ¬ ∀ (w : World) (c : Config) (codec : Codec) (later : Nat → Call) (ns : List Nat) (r : Nat) (id : NodeId)
      (n : Node), ((Scene.opened w c codec later).run ns).stages r = .entered id →
      ((Scene.opened w c codec later).run ns).world.nodes.get? id = some n →
        ∃ a c', numbered c later a = .apply c' ∧ n.policy.table = c'.settings.resolve ∧
          ∀ key ∈ identityKeys, n.value key = (c'.identityOf key).map .text := by
  intro one
  obtain ⟨a, c, applied, table, identity⟩ := one (.start 0) plainConfig .standard configuredWhileEntered
    [1, 1, 2, 2, 2, 2] 2 1 ((Node.bare ⟨3, taggedConfig.settings.resolve⟩ 0).seed plainConfig.seedData) rfl rfl
  -- Neither of the two configurations goes with both.
  rcases a with _ | _ | a
  · cases applied
    have team : taggedConfig.settings.resolve.settings "team" = plainConfig.settings.resolve.settings "team" :=
      congrArg (PolicyTable.settings · "team") table
    rw [Settings.settings_resolve, Settings.settings_resolve] at team
    revert team
    decide
  · cases applied
    have service := identity serviceKey (by decide)
    rw [Node.value_seed_bare] at service
    revert service
    decide
  · cases applied

end Configuring

end Ambient
