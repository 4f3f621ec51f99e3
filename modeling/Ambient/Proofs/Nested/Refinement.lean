import Ambient.Proofs.Nested.Simulation

/-
Properly nested programs do what they mean (`Call.start_refines`): run from any
reachable process, every operation succeeds, every open node reads as its frame
does at every moment, and every close leaves the ambient stack as it was before
the node became active. By induction on the program, with the simulation of
`Sim` between the operations.
-/

namespace Ambient.Nested

open World

variable {w : World} {t : ThreadId} {id : NodeId} {link : Option NodeId} {f g : Frame} {l : Level}
  {path : List Level} {fs : List Frame} {base : List Attachment} {s : Trace} {ms : List (List Frame)}

/-- The last operation succeeded, and the open nodes read as frames do. -/
def Moment.Shows (m : Moment) (fs : List Frame) : Prop :=
  m.result = .ok () ∧ List.Forall₂ (Reads m.world) m.path fs

/-- What a run has recorded so far is what it should. -/
structure Faithful (t : ThreadId) (s : Trace) (ms : List (List Frame)) : Prop where
  moments : List.Forall₂ Moment.Shows s.moments ms
  brackets : ∀ b ∈ s.brackets, (b.2.stack t).entries = (b.1.stack t).entries

theorem Faithful.op (h : Faithful t s ms) {r : Reply Unit} {ids : List NodeId} (hok : r.result = .ok ())
    (hr : List.Forall₂ (Reads r.world) ids fs) : Faithful t (s.op ids r) (ms ++ [fs]) :=
  ⟨List.rel_append h.moments (.cons ⟨hok, hr⟩ .nil), h.brackets⟩

/-! ## A call -/

theorem Sim.enter (h : Sim w t path fs base) (c : Call) :
    Entered ((w.enter t (c.parent (path.map Level.node)) c.policy none).1.hold c.name (w.lastNode + 1)) t
      (w.lastNode + 1) (c.parent (path.map Level.node)) (c.frame fs) path fs base := by
  by_cases hc : c.root = true
  · have hp : c.parent (path.map Level.node) = none := if_pos hc
    have hf : c.frame fs = .root c.policy := by simp [Call.frame, hc]
    rw [hp, hf]
    exact h.enter_root c.name c.policy
  · cases path with
    | nil =>
      obtain rfl := List.forall₂_nil_left_iff.1 h.stands
      have hp : c.parent ([].map Level.node) = none := if_neg hc
      have hf : c.frame [] = .root c.policy := by simp [Call.frame]
      rw [hp, hf]
      exact h.enter_root c.name c.policy
    | cons q path =>
      obtain ⟨f, fs, -, -, rfl⟩ := List.forall₂_cons_left_iff.1 h.stands
      have hp : c.parent ((q :: path).map Level.node) = some q.node := if_neg hc
      have hf : c.frame (f :: fs) = f.child := by simp [Call.frame, hc]
      rw [hp, hf]
      exact h.enter_child c.name c.policy

/-- A close hands the last frame of the node back to the one below. -/
theorem Sim.close (h : Sim w t (l :: path) (g :: fs) base) {c : Call}
    (hl : l.link = c.parent (path.map Level.node)) :
    (w.close t l.node).result = .ok () ∧
      Sim (w.close t l.node).world t path (fs.modifyHead (c.back g)) base := by
  by_cases hc : c.root = true
  · have hb : c.back g = id := funext fun f => if_pos hc
    rw [hb, List.modifyHead_id]
    exact h.close_root (hl.trans (if_pos hc))
  · cases path with
    | nil =>
      obtain rfl := List.forall₂_nil_left_iff.1 (List.forall₂_cons.1 h.stands).2
      exact h.close_root (hl.trans (if_neg hc))
    | cons q path =>
      obtain ⟨f, fs, -, -, rfl⟩ := List.forall₂_cons_left_iff.1 (List.forall₂_cons.1 h.stands).2
      have hb : c.back g f = f.merge g := if_neg hc
      rw [List.modifyHead_cons, hb]
      exact h.close_child (hl.trans (if_neg hc))

theorem runEntry_sim (es : List (String × Option Value))
    (h : Entered s.world t id link f path fs base) (hs : Faithful t s (ms ++ [f :: fs])) :
    Entered (runEntry id (path.map Level.node) es s).world t id link
        (es.foldl (fun f e => f.write e.1 e.2) f) path fs base ∧
      Faithful t (runEntry id (path.map Level.node) es s)
        (ms ++ (es.scanl (fun f e => f.write e.1 e.2) f).map (· :: fs)) := by
  induction es generalizing s f ms with
  | nil => exact ⟨h, by simpa [runEntry] using hs⟩
  | cons e es ih =>
    obtain ⟨hok, hset⟩ := h.set e.1 e.2
    obtain ⟨hent, hfaith⟩ := ih (s := s.op (id :: path.map Level.node) (s.world.set id e.1 e.2)) hset
      (hs.op hok hset.reads)
    exact ⟨hent, by simpa [runEntry] using hfaith⟩

theorem Call.enter_sim (c : Call) (h : Sim s.world t path fs base) (hs : Faithful t s ms) :
    Entered (c.enter t (path.map Level.node) s).1.world t (c.enter t (path.map Level.node) s).2
        (c.parent (path.map Level.node)) (c.frame fs) path fs base ∧
      Faithful t (c.enter t (path.map Level.node) s).1 (ms ++ [c.frame fs :: fs]) := by
  have hid := (enter_cases s.world t (c.parent (path.map Level.node)) c.policy none).1
  have entered := h.enter c
  rw [← hid] at entered
  exact ⟨entered, hs.op rfl entered.reads⟩

/-- A call is simulated if its body is. -/
theorem Call.run_sim (c : Call) (body : NodeId → Trace → Trace) (meaning : Frame → List (List Frame) × Frame)
    (h : Sim s.world t path fs base) (hs : Faithful t s ms)
    (hbody : ∀ l f s ms, Sim s.world t (l :: path) (f :: fs) base → l.phase = .active → Faithful t s ms →
      Faithful t (body l.node s) (ms ++ (meaning f).1) ∧
        ∃ phase, Sim (body l.node s).world t ({ l with phase } :: path) ((meaning f).2 :: fs) base) :
    Sim (c.run t (path.map Level.node) body s).world t path
        (fs.modifyHead (c.back (c.eval fs meaning).2)) base ∧
      Faithful t (c.run t (path.map Level.node) body s)
        (ms ++ (c.eval fs meaning).1 ++ [fs.modifyHead (c.back (c.eval fs meaning).2)]) := by
  obtain ⟨entered, hentered⟩ := c.enter_sim h hs
  unfold Call.run
  generalize c.enter t (path.map Level.node) s = r at entered hentered ⊢
  obtain ⟨s₁, id⟩ := r
  dsimp only at entered hentered ⊢
  obtain ⟨ready, hready⟩ := runEntry_sim c.entry entered hentered
  obtain ⟨hok, active⟩ := ready.makeActive
  obtain ⟨hinner, phase, inner⟩ := hbody _ _ _ _ active rfl (hready.op hok active.reads)
  obtain ⟨hclose, closed⟩ := inner.close rfl
  have hclosed := hinner.op hclose closed.reads
  refine ⟨closed, ?_, ?_⟩
  · simpa [Call.eval] using hclosed.moments
  · intro b hb
    rcases List.mem_append.1 hb with hb | hb
    · exact hclosed.brackets b hb
    · -- Before and after, the stack is what lies below the node.
      obtain rfl := List.mem_singleton.1 hb
      exact closed.stack.trans ready.sim.stack.symm

/-! ## A body -/

/-- A body is simulated, in the phase in which it begins. -/
theorem Body.run_sim {e : Bool} (b : Body e) (h : Sim s.world t (l :: path) (f :: fs) base)
    (hl : l.phase = if e then .exit else .active) (hs : Faithful t s ms) :
    Faithful t (b.run t l.node (path.map Level.node) s) (ms ++ (b.eval fs f).1) ∧
      ∃ phase, Sim (b.run t l.node (path.map Level.node) s).world t ({ l with phase } :: path)
        ((b.eval fs f).2 :: fs) base := by
  induction b generalizing l path f fs s ms with
  | done => exact ⟨by simpa [Body.run, Body.eval] using hs, l.phase, h⟩
  | write key v rest ih =>
    obtain ⟨hok, written⟩ := h.set key v
    have := ih (s := s.op _ (s.world.set l.node key v)) written hl (hs.op hok written.reads)
    simpa [Body.run, Body.eval] using this
  | beginExit rest ih =>
    obtain ⟨hok, exiting⟩ := h.beginExit hl
    have := ih (s := s.op _ (s.world.beginExit l.node)) exiting rfl (hs.op hok exiting.reads)
    simpa [Body.run, Body.eval] using this
  | call c body rest ihb ihr =>
    obtain ⟨inner, hinner⟩ := c.run_sim (fun child => body.run t child (l.node :: path.map Level.node))
      (body.eval (f :: fs)) h hs fun _ _ _ _ h hl hs => ihb h hl hs
    have := ihr inner hl hinner
    simpa [Body.run, Body.eval] using this

/-- **Properly nested programs do what they mean.** A root is entered in any reachable
process, on any thread and under any policy, and used by any program: nested to any
depth, with any writes on entry and later. Every operation succeeds; at every moment
every open node reads, under every key, what its frame shows; and every close leaves
the ambient stack as it was before the node became active. -/
theorem Call.start_refines (h : Reachable w) (t : ThreadId) (c : Call) (body : Body false) :
    List.Forall₂ Moment.Shows (c.start t body w).moments (c.meaning body) ∧
      ∀ b ∈ (c.start t body w).brackets, (b.2.stack t).entries = (b.1.stack t).entries := by
  have nothing : Faithful t ⟨w, [], []⟩ [] := ⟨.nil, nofun⟩
  have hs : Sim (⟨w, [], []⟩ : Trace).world t [] [] (w.stack t).entries := .start h t
  obtain ⟨-, hrun⟩ := c.run_sim (fun id => body.run t id []) (body.eval []) hs nothing
    fun _ _ _ _ h hl hs => Body.run_sim body h hl hs
  exact ⟨hrun.moments, hrun.brackets⟩

/-! ## A child that removes its parent's value -/

/-- A child is entered beneath a root that has a value, and writes a tombstone. -/
def removal : Call × Body false :=
  (⟨"root", true, bothWays, [("k", some (.flag true))]⟩,
    .call ⟨"child", false, bothWays, []⟩ (.write "k" none .done) .done)

/-- Once the child is closed, the root has no value. -/
theorem start_refines_removal :
    ∃ m, (removal.1.start 0 removal.2 (World.start 0)).moments[6]? = some m ∧ m.result = .ok () ∧
      m.path = [1] ∧ m.world.get 1 "k" = .ok none := by
  obtain ⟨hm, -⟩ := Call.start_refines (.start 0) 0 removal.1 removal.2
  have shows := hm.get (i := 6) (by decide) (by decide)
  have hpath : ((removal.1.start 0 removal.2 (World.start 0)).moments.get ⟨6, by decide⟩).path = [1] := rfl
  have hview : (((removal.1.meaning removal.2).get ⟨6, by decide⟩).head?.map fun f => f.view "k") = some none :=
    rfl
  refine ⟨_, List.getElem?_eq_getElem (by decide), shows.1, hpath, ?_⟩
  have reads := shows.2
  rw [hpath] at reads
  obtain ⟨f, _, hf, -, hfs⟩ := List.forall₂_cons_left_iff.1 reads
  rw [hfs] at hview
  obtain ⟨v, hv, ha⟩ := hf "k"
  have hnone : f.view "k" = none := Option.some.inj hview
  rw [hnone, Agrees.none_iff] at ha
  exact ha ▸ hv

end Ambient.Nested
