import Ambient.Proofs.Confinement.Step
import Ambient.Wire.Codec
import Mathlib.Data.List.Forall2

/-
What a node holds under a key that its policy keeps stays with the node
(`Reachable.confinement`): two runs that differ only in what they write there
cannot be told apart anywhere else, at no point, and everything that they report
is the same.
-/

namespace Ambient

open World (Alike DiffersAt)

namespace World

variable {w w' : World} {N : NodeId} {k : String}

/-- Two processes that show the same, but for what node `N` answers under a key. -/
structure Indistinguishable (N : NodeId) (k : String) (w w' : World) : Prop where
  get : ∀ id x, id ≠ N ∨ x ≠ k → w.get id x = w'.get id x
  remoteParent : ∀ id, w.remoteParent id = w'.remoteParent id
  downEntries : ∀ id, w.downEntries id = w'.downEntries id
  upEntries : ∀ id, w.upEntries id = w'.upEntries id
  downHeaders : ∀ id span, w.downHeaders id span = w'.downHeaders id span
  upHeaders : ∀ id, w.upHeaders id = w'.upHeaders id
  /-- The tag scopes that nodes hold, and their phases. -/
  nodes : ∀ id, (w.nodes.get? id).map (fun n => (n.phase, n.scope)) = (w'.nodes.get? id).map fun n => (n.phase, n.scope)
  /-- The facilities behind the bridges, with every scope opened and closed there. -/
  bridges : w.bridges = w'.bridges
  ambient : w.ambient = w'.ambient

/-- What does not see the veil is answered alike. -/
theorem Alike.ask {α : Type} {f : Node → Except WrongPhase α} (h : Alike N k w w') (hk : w.Keeps N k)
    (id : NodeId) (hf : id = N → ∀ n : Node, n.policy.Keeps k → f (n.veil k) = f n) :
    w.ask id f = w'.ask id f := by
  unfold World.ask
  rcases h.cases id with ⟨hn, hm⟩ | ⟨n, m, hn, hm, hv⟩
  · rw [hn, hm]
  · have same : f n = f m := by
      refine Node.eq_of_veilAt_eq hv ?_
      rintro rfl
      exact ⟨hf rfl n (hk n hn), hf rfl m (h.keeps hk m hm)⟩
    simp only [hn, hm, same]

theorem Alike.indistinguishable (h : Alike N k w w') (hk : w.Keeps N k) (hr : k ≠ remoteParentKey) :
    Indistinguishable N k w w' := by
  have format : w'.traceFormat = w.traceFormat := by rw [h.eq]; rfl
  have remote : ∀ id, w.remoteParent id = w'.remoteParent id := fun id =>
    h.ask hk id fun _ _ _ => Node.remoteParent_veil hr
  have down : ∀ id, w.downEntries id = w'.downEntries id := fun id =>
    h.ask hk id fun _ _ hn => Node.downEntries_veil hn
  have up : ∀ id, w.upEntries id = w'.upEntries id := fun id => h.ask hk id fun _ _ hn => Node.upEntries_veil hn
  refine ⟨fun id x hx => ?_, remote, down, up, fun id span => ?_, fun id => ?_, fun id => ?_, ?_, ?_⟩
  · refine h.ask hk id fun hid _ _ => Node.get_veil ?_
    exact hx.resolve_left (not_not_intro hid)
  · unfold downHeaders
    rw [down, remote, format]
  · unfold upHeaders
    rw [up, format]
  · have seen : ∀ w : World, (w.nodes.get? id).map (fun n => (n.phase, n.scope)) =
        ((w.nodes.get? id).map (Node.veilAt N k id)).map fun n => (n.phase, n.scope) := by
      intro w
      rw [Option.map_map]
      congr 1
      funext n
      simp only [Function.comp_def, Node.veilAt]
      split <;> rfl
    rw [seen, seen, h.get?]
  · rw [h.eq]; rfl
  · rw [h.eq]; rfl

/-- The policy of a node never changes. -/
theorem Sound.keeps_of_run (hs : w.Sound) {as : List (ThreadId × Action)} (hk : (w.run as).Keeps N k) :
    w.Keeps N k := by
  intro n hn
  obtain ⟨n', hn', he⟩ := hs.evolves as hn
  exact he.policy ▸ hk n' hn'

/-- Runs that differ at most in the values written in one place. -/
def RunsDifferAt (N : NodeId) (k : String) : List (ThreadId × Action) → List (ThreadId × Action) → Prop :=
  List.Forall₂ fun a b => a.1 = b.1 ∧ DiffersAt N k a.2 b.2

theorem Alike.run {as bs : List (ThreadId × Action)} (hd : RunsDifferAt N k as bs) (h : Alike N k w w')
    (hs : w.Sound) (hk : (w.run as).Keeps N k) :
    w.reports as = w'.reports bs ∧ Alike N k (w.run as) (w'.run bs) := by
  induction hd generalizing w w' with
  | nil => exact ⟨rfl, h⟩
  | @cons a b as bs hab _ ih =>
    obtain ⟨t, a⟩ := a
    obtain ⟨u, b⟩ := b
    obtain ⟨ht, hab⟩ := hab
    cases (show t = u from ht)
    have hs' : (w.perform t a).Sound := (perform_effect w t a).sound hs
    have hk₀ : w.Keeps N k := hs.keeps_of_run (show (w.run ((t, a) :: as)).Keeps N k from hk)
    obtain ⟨hw, hr⟩ := h.step hs hk₀ t hab
    obtain ⟨hrs, hws⟩ := ih hw hs' hk
    exact ⟨List.cons_eq_cons.2 ⟨hr, hrs⟩, hws⟩

end World

open World (RunsDifferAt Indistinguishable)

/-- **Confinement.** If the policy of a node lets a key flow neither down nor up, two runs
that differ only in the values (or tombstones) that are set under that key of the node
report the same, action by action, and at every point the two processes show the same
but for that key of that node. -/
theorem Reachable.confinement {w : World} (h : Reachable w) {N : NodeId} {k : String}
    (hr : k ≠ remoteParentKey) {as bs : List (ThreadId × Action)} (hd : RunsDifferAt N k as bs)
    (hk : ∀ n, (w.run as).nodes.get? N = some n → n.policy.flowsDown k = false ∧ n.policy.flowsUp k = false) :
    w.reports as = w.reports bs ∧
      ∀ i, Indistinguishable N k (w.run (as.take i)) (w.run (bs.take i)) := by
  have keeps : (w.run as).Keeps N k := fun n hn => ⟨(hk n hn).1, (hk n hn).2⟩
  refine ⟨(Alike.run hd (.refl w) h.sound keeps).1, fun i => ?_⟩
  have split : w.run as = (w.run (as.take i)).run (as.drop i) := by
    unfold World.run
    rw [← List.foldl_append, List.take_append_drop]
  have hki : (w.run (as.take i)).Keeps N k := (h.run _).sound.keeps_of_run (split ▸ keeps)
  exact ((Alike.run (List.forall₂_take i hd) (.refl w) h.sound hki).2).indistinguishable hki hr

/-! ## A value that stays -/

/-- A node is given a value, or a tombstone, under a key that its policy keeps, and
another value under one that flows both ways; then a child writes that one. -/
def keptRun (v : Option Value) : List (ThreadId × Action) :=
  [.enter "parent" none bothWays none, .set 1 "kept" v, .set 1 "k" (some (.text "shared")), .makeActive 1,
    .enter "child" (some 1) bothWays none, .makeActive 2, .set 2 "k" (some (.flag true)), .close 2].map fun a => (0, a)

/-- The node answers as it was told, and nothing else tells. -/
theorem confinement_kept :
    let w := (World.start 0).run (keptRun (some (.text "here")))
    let w' := (World.start 0).run (keptRun none)
    w.get 1 "kept" = .ok (some (.text "here")) ∧ w'.get 1 "kept" = .ok none ∧
      (World.start 0).reports (keptRun (some (.text "here"))) = (World.start 0).reports (keptRun none) ∧
      Indistinguishable 1 "kept" w w' := by
  have hd : RunsDifferAt 1 "kept" (keptRun (some (.text "here"))) (keptRun none) :=
    .cons ⟨rfl, .same _⟩ (.cons ⟨rfl, .set _ _⟩ (List.forall₂_same.2 fun a _ => ⟨rfl, .same a.2⟩))
  obtain ⟨hr, hi⟩ := (Reachable.start 0).confinement (by decide) hd fun n hn => by
    cases hn
    exact ⟨rfl, rfl⟩
  exact ⟨rfl, rfl, hr, hi 8⟩

end Ambient
