import Ambient.Proofs.Lifecycle.Steps
import Ambient.Proofs.Stack.Discipline
import Mathlib.Logic.Relation

/-
Who was entered beneath whom. A node forgets its parent when it is closed, so the
family of a run is read off its actions (`World.family`): each node of the process
is in it once, a node has the parent of the family until it is closed, and it has
the policy of whoever is above it, at any moment of the run
(`World.policy_above`).
-/

namespace Ambient

namespace World

variable {w w' : World} {t : ThreadId} {a : Action} {id : NodeId} {n : Node}

/-- The node that an action enters, and the node beneath which it does so; a node that
is not there is nobody's parent. -/
def entered (w : World) : Action → List (NodeId × Option NodeId)
  | .enter _ parent _ _ => [(w.lastNode + 1, parent.filter fun p => (w.nodes.get? p).isSome)]
  | .enterUnder _ engine parent =>
    if (w.engines.get? engine).isSome then
      [(w.lastNode + 1, parent.filter fun p => (w.nodes.get? p).isSome)]
    else []
  | _ => []

/-- The nodes that a run enters, each with the node beneath which it was entered. -/
def family (w : World) : List (ThreadId × Action) → List (NodeId × Option NodeId)
  | [] => []
  | (t, a) :: as => w.entered a ++ (w.perform t a).family as

theorem family_concat (w : World) (as : List (ThreadId × Action)) (t : ThreadId) (a : Action) :
    w.family (as ++ [(t, a)]) = w.family as ++ (w.run as).entered a := by
  induction as generalizing w with
  | nil => simp [family]
  | cons x as ih =>
    rw [List.cons_append, family, family, ih, List.append_assoc]
    rfl

/-- Whoever is to be entered beneath nobody that is there becomes a root. -/
example : (World.start 0).family [(0, .enter "a" none bothWays none), (1, .enter "b" (some 1) bothWays none),
    (0, .makeActive 2), (0, .enter "c" (some 9) bothWays none)] = [(1, none), (2, some 1), (3, none)] := rfl

/-! ## One step -/

/-- A process after a node was entered, beneath a parent or as a root. -/
inductive Enters (w : World) (t : ThreadId) : Option NodeId → World → Prop
  | root {v} (p : Policy) (b : Option BridgeId) (es : List (String × Value)) :
      Adds w ((Node.fresh p t false b none Dict.empty).seed es) v → Enters w t none v
  | child {v pid} {m : Node} : w.nodes.get? pid = some m →
      Adds (w.withNode pid (m.remember t)) (m.child pid t) v → Enters w t (some pid) v

theorem enter_enters (w : World) (t : ThreadId) (parent : Option NodeId) (p : Policy) (b : Option BridgeId) :
    Enters w t (parent.filter fun x => (w.nodes.get? x).isSome) (w.enter t parent p b).1 := by
  obtain ⟨-, p', es, hroot⟩ := enterRoot_adds w t p b
  cases parent with
  | none => exact .root p' b es hroot
  | some pid =>
    cases hn : w.nodes.get? pid with
    | none =>
      rw [Option.filter_some, hn]
      simp only [World.enter, hn]
      exact .root p' b es hroot
    | some n =>
      rw [Option.filter_some, hn]
      simp only [World.enter, hn]
      exact .child hn (enterChild_adds w t pid n)

theorem enterUnder_enters (w : World) (t : ThreadId) (e : Engine) (parent : Option NodeId) :
    Enters w t (parent.filter fun x => (w.nodes.get? x).isSome) (w.enterUnder t e parent).1 := by
  cases parent with
  | some pid => exact enter_enters w t (some pid) e.policy e.bridge
  | none =>
    obtain ⟨hid, p', es, hadds⟩ := enterRoot_adds w t e.policy e.bridge
    rw [enterUnder_none, hid]
    exact .root p' e.bridge (es ++ e.seedData) (seed_seed _ es e.seedData ▸ seed_adds hadds)

theorem Enters.congr {parent : Option NodeId} {w₁ w₂ : World} (h : Enters w t parent w₁) (hs : SameNodes w₁ w₂) :
    Enters w t parent w₂ := by
  have adds : ∀ {v : World} {n}, Adds v n w₁ → Adds v n w₂ := by
    intro v n h
    exact ⟨fun x => by rw [hs.nodes, h.nodes], hs.lastNode.trans h.lastNode⟩
  cases h with
  | root p b es h => exact .root p b es (adds h)
  | child hn h => exact .child hn (adds h)

theorem nodup_entered (w : World) (a : Action) : ((w.entered a).map Prod.fst).Nodup := by
  cases a with
  | enter => simp [entered]
  | enterUnder name engine p =>
    simp only [entered]
    split <;> simp
  | _ => exact List.nodup_nil

/-- What an action enters is there afterwards, under the next number. -/
theorem enters_of_mem {parent : Option NodeId} (h : (id, parent) ∈ w.entered a) (t : ThreadId) :
    id = w.lastNode + 1 ∧ Enters w t parent (w.perform t a) := by
  cases a with
  | enter name p q b =>
    obtain ⟨rfl, rfl⟩ := Prod.mk.inj (List.mem_singleton.1 h)
    exact ⟨rfl, (enter_enters w t p q b).congr ⟨rfl, rfl⟩⟩
  | enterUnder name engine p =>
    simp only [entered] at h
    cases he : w.engines.get? engine with
    | none => simp [he] at h
    | some e =>
      rw [he] at h
      obtain ⟨rfl, rfl⟩ := Prod.mk.inj (List.mem_singleton.1 h)
      refine ⟨rfl, ?_⟩
      simp only [perform, he]
      exact (enterUnder_enters w t e p).congr ⟨rfl, rfl⟩
  | _ => cases h

/-- An action that enters nothing gives no number out. -/
theorem lastNode_perform (he : w.entered a = []) (t : ThreadId) : (w.perform t a).lastNode = w.lastNode := by
  have change : ∀ id f, (w.change id f).world.lastNode = w.lastNode := by
    intro id f
    obtain ⟨nodes, h⟩ := change_nodes w id f
    rw [h]
  cases a with
  | enter name p q b => cases he
  | enterUnder name engine p =>
    cases hg : w.engines.get? engine with
    | none => simp only [perform, hg]
    | some e => simp [entered, hg] at he
  | makeActive id =>
    cases ha : w.ask id Node.activate with
    | error e => simp only [perform, makeActive, ha]
    | ok n' =>
      obtain ⟨n, hn, hf⟩ := ask_eq_ok.1 ha
      obtain ⟨scope, hw⟩ := makeActive_puts t hn (Node.activate_eq_ok.1 hf).1
      exact hw.lastNode
  | beginExit id => exact change id _
  | close id => exact lastNode_close w t id
  | set id key v => exact change id _
  | readDown id c h =>
    obtain ⟨nodes, lastObject, hw⟩ := readDown_nodes w id c h
    rw [perform, hw]
  | readUp id c h =>
    obtain ⟨nodes, hw⟩ := setAll_nodes w id (c.decode h).entries.entries
    show (w.setAll id (c.decode h).entries.entries).world.lastNode = _
    rw [hw]
  | applyConfig id c =>
    simp only [perform]
    split <;> rfl
  | dropEngine id => exact (sameNodes_dropEngine w id).lastNode
  | detach token => exact (sameNodes_detach w t token).lastNode
  | dropScope token => exact (sameNodes_detach w t token).lastNode
  | unwindScope id => exact (sameNodes_detach (w.attach t id).1 t _).lastNode
  | resume table h => exact (sameNodes_resume w t table h).lastNode
  | race table h n => exact (sameNodes_race w table h n).lastNode
  | storeForPassing table id singleUse n => exact (sameNodes_storeForPassing w table id singleUse n).lastNode
  | _ => rfl

/-- A node that is there after an action was there before it, or got the next number. -/
theorem Effect.old_or_next (he : Effect w t a w') (hn : w'.nodes.get? id = some n) :
    (∃ m, w.nodes.get? id = some m) ∨ id = w.lastNode + 1 ∧ w'.lastNode = w.lastNode + 1 := by
  have puts : ∀ {v : World} {x m m'}, v.nodes.get? x = some m → Puts v x m' w' → ∃ m, v.nodes.get? id = some m := by
    intro v x m m' hm hw
    rw [hw.nodes] at hn
    split at hn
    · rename_i hid
      exact ⟨m, hid ▸ hm⟩
    · exact ⟨n, hn⟩
  have withNode : ∀ {x m m'}, w.nodes.get? x = some m → (∃ k, (w.withNode x m').nodes.get? id = some k) →
      ∃ k, w.nodes.get? id = some k := by
    rintro x m m' hm ⟨k, hk⟩
    rw [get?_withNode] at hk
    split at hk
    · rename_i hid
      exact ⟨m, hid ▸ hm⟩
    · exact ⟨k, hk⟩
  cases he with
  | none hs => exact .inl ⟨n, hs.nodes ▸ hn⟩
  | written es _ hm _ hw => exact .inl (puts hm hw)
  | activated _ _ hm _ hw => exact .inl (puts hm hw)
  | exiting hm _ hw => exact .inl (puts hm hw)
  | root p b es hw =>
    rw [hw.nodes] at hn
    split at hn
    · rename_i hid
      exact .inr ⟨hid.symm, hw.lastNode⟩
    · exact .inl ⟨n, hn⟩
  | child hm hw =>
    rw [hw.nodes] at hn
    split at hn
    · rename_i hid
      exact .inr ⟨hid.symm, hw.lastNode⟩
    · exact .inl (withNode hm ⟨n, hn⟩)
  | closed hm _ hw => exact .inl (puts hm hw)
  | flowed hm ho hne hq hj ha hw =>
    exact .inl (withNode hm (puts (by rw [get?_withNode, if_neg hne.symm, hq]) hw))

/-- A node that is there after an action was there before it, or was entered by it. -/
theorem old_or_entered (hn : (w.perform t a).nodes.get? id = some n) :
    (∃ m, w.nodes.get? id = some m) ∨ ∃ origin, (id, origin) ∈ w.entered a := by
  refine (perform_effect w t a).old_or_next hn |>.imp_right fun ⟨hid, hl⟩ => ?_
  cases he : w.entered a with
  | nil =>
    rw [lastNode_perform he] at hl
    omega
  | cons x xs =>
    obtain ⟨y, origin⟩ := x
    have hx : (y, origin) ∈ w.entered a := he ▸ List.mem_cons_self
    obtain ⟨rfl, -⟩ := enters_of_mem hx t
    exact ⟨origin, hid ▸ List.mem_cons_self⟩

/-! ## One node along a run -/

/-- A node that was entered beneath another one, or as a root. -/
structure Descends (w : World) (id : NodeId) (n : Node) (origin : Option NodeId) : Prop where
  tidy : n.Tidy
  parent : n.parent = if n.phase = .closed then none else origin
  policy : ∀ pid, origin = some pid → pid < id ∧ ∃ p, w.nodes.get? pid = some p ∧ p.policy = n.policy

theorem Descends.perform {origin : Option NodeId} (h : Descends w id n origin) (hs : w.Sound)
    (hn : w.nodes.get? id = some n) (t : ThreadId) (a : Action) :
    ∃ n', (w.perform t a).nodes.get? id = some n' ∧ Descends (w.perform t a) id n' origin := by
  obtain ⟨n', hn', hstep⟩ := perform_steps hs hn t a
  have evolves : ∀ {x m}, w.nodes.get? x = some m →
      ∃ m', (w.perform t a).nodes.get? x = some m' ∧ m'.policy = m.policy := by
    intro x m hm
    obtain ⟨m', hm', he⟩ := (perform_effect w t a).evolves hs hm
    exact ⟨m', hm', he.policy⟩
  refine ⟨n', hn', h.tidy.steps hstep, hstep.parent h.parent, fun pid ho => ?_⟩
  obtain ⟨hlt, p, hp, hpolicy⟩ := h.policy pid ho
  obtain ⟨p', hp', hpp⟩ := evolves hp
  obtain ⟨m, hm, hmp⟩ := evolves hn
  obtain rfl := Option.some.inj (hn'.symm.trans hm)
  exact ⟨hlt, p', hp', by rw [hpp, hpolicy, hmp]⟩

theorem Enters.descends {parent : Option NodeId} (h : Enters w t parent w') (hs : w.Sound) :
    ∃ n, w'.nodes.get? (w.lastNode + 1) = some n ∧ n.phase = .entry ∧ Descends w' (w.lastNode + 1) n parent := by
  cases h with
  | root p b es hw =>
    refine ⟨_, (hw.nodes _).trans (if_pos rfl), rfl, Node.Tidy.seed (.fresh ..) es, rfl, nofun⟩
  | child hm hw =>
    rename_i pid m
    refine ⟨m.child pid t, (hw.nodes _).trans (if_pos rfl), rfl, .fresh .., rfl, fun q hq => ?_⟩
    cases hq
    refine ⟨Nat.lt_succ_of_le (hs.fresh hm), m.remember t, ?_, (Node.Evolves.remember t).policy⟩
    have hl : (w.withNode pid (m.remember t)).lastNode = w.lastNode := rfl
    rw [hw.nodes, hl, if_neg (hs.next_ne hm), get?_withNode_self]

/-! ## Runs -/

section Runs

variable (lastObject : Nat) (as : List (ThreadId × Action))

theorem sound_run : ((World.start lastObject).run as).Sound := ((Reachable.start lastObject).run as).sound

/-- Who is in the family of a run is a node of the process. -/
theorem descends_of_mem_family {origin : Option NodeId} (h : (id, origin) ∈ (World.start lastObject).family as) :
    ∃ n, ((World.start lastObject).run as).nodes.get? id = some n ∧
      Descends ((World.start lastObject).run as) id n origin := by
  induction as using List.reverseRecOn with
  | nil => cases h
  | append_singleton as a ih =>
    rw [run_concat]
    rcases List.mem_append.1 (family_concat .. ▸ h) with h | h
    · obtain ⟨n, hn, hd⟩ := ih h
      exact hd.perform (sound_run lastObject as) hn a.1 a.2
    · obtain ⟨rfl, he⟩ := enters_of_mem h a.1
      obtain ⟨n, hn, -, hd⟩ := he.descends (sound_run lastObject as)
      exact ⟨n, hn, hd⟩

/-- Every node of the process is in the family. -/
theorem exists_mem_family (hn : ((World.start lastObject).run as).nodes.get? id = some n) :
    ∃ origin, (id, origin) ∈ (World.start lastObject).family as := by
  induction as using List.reverseRecOn generalizing n with
  | nil => cases hn
  | append_singleton as a ih =>
    rw [run_concat] at hn
    rw [family_concat]
    rcases old_or_entered hn with ⟨m, hm⟩ | ⟨origin, h⟩
    · obtain ⟨origin, h⟩ := ih hm
      exact ⟨origin, List.mem_append_left _ h⟩
    · exact ⟨origin, List.mem_append_right _ h⟩

/-- Nobody is in the family twice. -/
theorem nodup_family : (((World.start lastObject).family as).map Prod.fst).Nodup := by
  induction as using List.reverseRecOn with
  | nil => exact List.nodup_nil
  | append_singleton as a ih =>
    rw [family_concat, List.map_append, List.nodup_append]
    refine ⟨ih, nodup_entered _ _, fun x hx y hy => ?_⟩
    obtain ⟨⟨x, origin⟩, hm, rfl⟩ := List.mem_map.1 hx
    obtain ⟨⟨y, other⟩, hm', rfl⟩ := List.mem_map.1 hy
    rintro rfl
    obtain ⟨n, hn, -⟩ := descends_of_mem_family lastObject as hm
    exact (sound_run lastObject as).next_ne hn (enters_of_mem hm' a.1).1.symm

/-- A node has one parent in the family, or none. -/
theorem family_unique {o o' : Option NodeId} (h : (id, o) ∈ (World.start lastObject).family as)
    (h' : (id, o') ∈ (World.start lastObject).family as) : o = o' := by
  have hl := lookupEntry_of_mem (nodup_family lastObject as) h
  rw [lookupEntry_of_mem (nodup_family lastObject as) h'] at hl
  exact (Option.some.inj hl).symm

/-- One node was entered beneath another, in the course of a run. -/
def Beneath (id pid : NodeId) : Prop := (id, some pid) ∈ (World.start lastObject).family as

/-- **A node has the policy of everyone above it**, whenever that one is looked at. -/
theorem policy_above {as₁ as₂ : List (ThreadId × Action)} {pid : NodeId} {p : Node}
    (h : Relation.ReflTransGen (Beneath lastObject (as₁ ++ as₂)) id pid)
    (hn : ((World.start lastObject).run (as₁ ++ as₂)).nodes.get? id = some n)
    (hp : ((World.start lastObject).run as₁).nodes.get? pid = some p) : p.policy = n.policy := by
  have now : ∀ {x m}, ((World.start lastObject).run (as₁ ++ as₂)).nodes.get? x = some m →
      Relation.ReflTransGen (Beneath lastObject (as₁ ++ as₂)) x pid →
      ∃ q, ((World.start lastObject).run (as₁ ++ as₂)).nodes.get? pid = some q ∧ q.policy = m.policy := by
    intro x m hm hx
    induction hx using Relation.ReflTransGen.head_induction_on generalizing m with
    | refl => exact ⟨m, hm, rfl⟩
    | head hstep _ ih =>
      obtain ⟨m', hm', hd⟩ := descends_of_mem_family lastObject _ hstep
      obtain rfl := Option.some.inj (hm.symm.trans hm')
      obtain ⟨-, q, hq, hqp⟩ := hd.policy _ rfl
      obtain ⟨r, hr, hrp⟩ := ih hq
      exact ⟨r, hr, hrp.trans hqp⟩
  obtain ⟨q, hq, hqp⟩ := now hn h
  obtain ⟨q', hq', he⟩ := (sound_run lastObject as₁).evolves as₂ hp
  rw [← run_append, hq] at hq'
  cases hq'
  rw [← hqp, he.policy]

end Runs

end World

end Ambient
