import Ambient.Proofs.Parking.Table
import Mathlib.Data.List.Basic

/-
How often a context parked for single use is handed out when threads store, resume
and clear against one host at once. A call is made of accesses to the table, each of
which is one step; accesses of different calls come in any order. Resuming accesses
the table twice: it takes what is for single use, and where there is no such entry it
looks at the entry, whatever it is by then. A context that is stored between the two is
seen by the look and stays: it is handed out once to each resume caught there, and
once more (`Scene.handedOut_store`).
-/

namespace Ambient.Parking

/-- An access to a table, as calls against one host make them. A resume is known by its
number from its first access to its last. -/
inductive Access where
  | store (node : NodeId) (singleUse : Bool)
  | sweep
  | clear
  /-- The first access of a resume: removes what is for single use. -/
  | take (call : Nat)
  /-- The second one, where nothing was taken. -/
  | look (call : Nat)
  /-- The last one, where the look came upon a dropped host: removes such an entry. -/
  | discard (call : Nat)
deriving DecidableEq

def Access.isStore : Access → Bool
  | .store _ _ => true
  | _ => false

/-- A table, the resumes that are to look next, and those that are to discard next. -/
structure Scene where
  table : ContinuationTable
  looking : List Nat
  discarding : List Nat

namespace Scene

/-- One access, and the node that its call hands out. -/
def step (alive : Nat → Bool) (h : Host) (s : Scene) : Access → Scene × Option NodeId
  | .store node singleUse => ({ s with table := s.table.park h node singleUse }, none)
  | .sweep => ({ s with table := s.table.purge alive }, none)
  | .clear =>
    let (table, node) := s.table.clear h
    ({ s with table }, node)
  | .take c =>
    match s.table.takeIf h Parked.singleUse with
    | (table, some p) => ({ s with table }, ContinuationTable.living alive p)
    | (table, none) => ({ s with table, looking := c :: s.looking }, none)
  | .look c =>
    if c ∈ s.looking then
      let s := { s with looking := s.looking.erase c }
      match s.table.entryAt h with
      | some p => if alive p.host then (s, some p.node) else ({ s with discarding := c :: s.discarding }, none)
      | none => (s, none)
    else (s, none)
  | .discard c =>
    if c ∈ s.discarding then
      ({ s with table := (s.table.takeIf h fun p => !alive p.host).1, discarding := s.discarding.erase c }, none)
    else (s, none)

def run (alive : Nat → Bool) (h : Host) (s : Scene) (as : List Access) : Scene :=
  as.foldl (fun s a => (s.step alive h a).1) s

/-- The nodes that a sequence of accesses hands out. -/
def handedOut (alive : Nat → Bool) (h : Host) : Scene → List Access → List NodeId
  | _, [] => []
  | s, a :: as => (s.step alive h a).2.toList ++ (s.step alive h a).1.handedOut alive h as

variable {alive : Nat → Bool} {h : Host} {s : Scene} {n : NodeId} {a : Access}

/-! ## Calls that are left alone -/

/-- A resume whose accesses follow upon one another does what resuming does. -/
theorem take_look_discard {c : Nat} (hl : c ∉ s.looking) (hd : c ∉ s.discarding) :
    s.run alive h [.take c, .look c, .discard c] = { s with table := (s.table.take alive h).1 } ∧
      s.handedOut alive h [.take c, .look c, .discard c] = (s.table.take alive h).2.toList := by
  rcases hf : s.table.takeIf h Parked.singleUse with ⟨t, _ | p⟩
  · rcases he : t.entryAt h with _ | p
    · simp [run, handedOut, step, ContinuationTable.take, ContinuationTable.peek, hf, he, hd,
        ContinuationTable.takeIf_none he]
    · cases hp : alive p.host <;>
        simp [run, handedOut, step, ContinuationTable.take, ContinuationTable.peek, ContinuationTable.living, hf, he, hp, hd]
  · simp [run, handedOut, step, ContinuationTable.take, hf, hl, hd]

/-- A store is an access, and a sweep where one is due. -/
theorem store_sweep (singleUse : Bool) :
    (s.run alive h (.store n singleUse :: if (s.table.park h n singleUse).purgeIsDue then [.sweep] else [])).table =
      s.table.store alive h n singleUse := by
  unfold ContinuationTable.store
  dsimp only
  split <;> rfl

/-! ## After a store -/

/-- Where nothing is parked, nothing is handed out until the next store. -/
theorem step_of_none (he : s.table.entryAt h = none) (ha : a.isStore = false) :
    (s.step alive h a).1.table.entryAt h = none ∧ (s.step alive h a).2 = none := by
  have taken := ContinuationTable.takeIf_none he
  cases a with
  | store => simp [Access.isStore] at ha
  | sweep => simp [step, ContinuationTable.entryAt_purge, he]
  | clear => simp [step, ContinuationTable.clear, ContinuationTable.entryAt_removeAt, he]
  | take c => simp [step, taken, he]
  | look c => by_cases hc : c ∈ s.looking <;> simp [step, hc, he]
  | discard c => by_cases hc : c ∈ s.discarding <;> simp [step, hc, he, taken]

theorem handedOut_of_none (he : s.table.entryAt h = none) {as : List Access} (ha : ∀ a ∈ as, a.isStore = false) :
    s.handedOut alive h as = [] := by
  induction as generalizing s with
  | nil => rfl
  | cons a as ih =>
    obtain ⟨still, nothing⟩ := @step_of_none alive h s a he (ha a (by simp))
    rw [handedOut, nothing, ih still fun x hx => ha x (by simp [hx])]
    rfl

/-- A look leaves a single-use entry where it is: that costs one of the resumes that were
to look. Any other access that hands the entry out removes it. -/
theorem step_of_singleUse (hh : alive h.serial = true) (he : s.table.entryAt h = some (.of h (n, true)))
    (ha : a.isStore = false) :
    (s.step alive h a).2 = some n ∧ (s.step alive h a).1.table.entryAt h = none ∨
    (s.step alive h a).2 = some n ∧ (s.step alive h a).1.table.entryAt h = s.table.entryAt h ∧
      (s.step alive h a).1.looking.length + 1 = s.looking.length ∨
    (s.step alive h a).2 = none ∧ (s.step alive h a).1.table.entryAt h = s.table.entryAt h ∧
      (s.step alive h a).1.looking.length = s.looking.length := by
  have own : s.table.entryAt h = (some (n, true)).map (.of h) := he
  cases a with
  | store => simp [Access.isStore] at ha
  | sweep => exact .inr (.inr ⟨rfl, ContinuationTable.entryAt_purge_of_own hh own, rfl⟩)
  | clear =>
    refine .inl ⟨ContinuationTable.clear_of_own own, ?_⟩
    simp [step, ContinuationTable.clear, ContinuationTable.entryAt_removeAt]
  | take c =>
    exact .inl (by simp [step, ContinuationTable.takeIf_of_singleUse he, ContinuationTable.living_of hh,
      ContinuationTable.entryAt_removeAt])
  | look c =>
    by_cases hc : c ∈ s.looking
    · refine .inr (.inl ?_)
      have fewer : (s.looking.erase c).length + 1 = s.looking.length := by
        rw [List.length_erase_of_mem hc]
        exact Nat.succ_pred_eq_of_pos (List.length_pos_of_mem hc)
      simpa [step, hc, he, Parked.of, hh, -List.length_erase_of_mem] using fewer
    · exact .inr (.inr (by simp [step, hc]))
  | discard c =>
    have kept : s.table.takeIf h (fun p => !alive p.host) = (s.table, none) := by
      rw [ContinuationTable.takeIf_some he, if_neg (by simp [Parked.of, hh])]
    refine .inr (.inr ?_)
    by_cases hc : c ∈ s.discarding <;> simp [step, hc, kept]

theorem handedOut_of_singleUse (hh : alive h.serial = true) (he : s.table.entryAt h = some (.of h (n, true)))
    {as : List Access} (ha : ∀ a ∈ as, a.isStore = false) :
    ∃ k ≤ s.looking.length + 1, s.handedOut alive h as = List.replicate k n := by
  induction as generalizing s with
  | nil => exact ⟨0, Nat.zero_le _, rfl⟩
  | cons a as ih =>
    have rest : ∀ x ∈ as, x.isStore = false := fun x hx => ha x (by simp [hx])
    rcases step_of_singleUse hh he (ha a (by simp)) with ⟨node, gone⟩ | ⟨node, still, fewer⟩ | ⟨node, still, same⟩
    · exact ⟨1, by omega, by rw [handedOut, node, handedOut_of_none gone rest]; rfl⟩
    · obtain ⟨k, hk, rest⟩ := ih (still.trans he) rest
      exact ⟨k + 1, by omega, by rw [handedOut, node, rest]; rfl⟩
    · obtain ⟨k, hk, rest⟩ := ih (still.trans he) rest
      exact ⟨k, by omega, by rw [handedOut, node, rest]; rfl⟩

/-- Every resume that is to look is handed what is parked for single use, and so is one that comes after. -/
theorem handedOut_looks (hh : alive h.serial = true) (he : s.table.entryAt h = some (.of h (n, true))) (c : Nat) :
    s.handedOut alive h (s.looking.map .look ++ [.take c]) = List.replicate (s.looking.length + 1) n := by
  obtain ⟨table, looking, discarding⟩ := s
  induction looking with
  | nil => simp [handedOut, step, ContinuationTable.takeIf_of_singleUse he, ContinuationTable.living_of hh]
  | cons d looking ih =>
    have first : step alive h ⟨table, d :: looking, discarding⟩ (.look d) = (⟨table, looking, discarding⟩, some n) := by
      have entry : table.entryAt h = some (.of h (n, true)) := he
      simp [step, entry, Parked.of, hh]
    simp only [List.map_cons, List.cons_append, handedOut, first, ih he, List.length_cons]
    rfl

/-- **How often a context parked for single use is handed out.** Whatever went before the
store, until the next store it is the stored node that is handed out, at most once
more than there were resumes between their two accesses when it was stored; and that
often it can be. So where no resume was caught there, it is handed out at most once. -/
theorem handedOut_store (hh : alive h.serial = true) (s : Scene) (n : NodeId) :
    (∀ later : List Access, (∀ a ∈ later, a.isStore = false) →
      ∃ k ≤ s.looking.length + 1, s.handedOut alive h (.store n true :: later) = List.replicate k n) ∧
    ∃ later : List Access, (∀ a ∈ later, a.isStore = false) ∧
      s.handedOut alive h (.store n true :: later) = List.replicate (s.looking.length + 1) n := by
  have parked : (s.step alive h (.store n true)).1.table.entryAt h = some (.of h (n, true)) :=
    (ContinuationTable.entryAt_park ..).trans (if_pos rfl)
  refine ⟨fun later hl => handedOut_of_singleUse hh parked hl, s.looking.map Access.look ++ [Access.take 0], ?_,
    handedOut_looks hh parked 0⟩
  intro a ha
  rcases List.mem_append.1 ha with ha | ha
  · obtain ⟨c, -, rfl⟩ := List.mem_map.1 ha
    rfl
  · rw [List.mem_singleton.1 ha]
    rfl

/-! ## A resume that is caught -/

/-- A resume finds nothing to take. Before it looks, a context is parked for single use:
that can be handed out twice. -/
theorem handedOut_store_caught :
    let s := run (fun _ => true) ⟨1, 7⟩ ⟨.empty, [], []⟩ [.take 0]
    s.looking = [0] ∧ ∃ later : List Access, (∀ a ∈ later, a.isStore = false) ∧
      s.handedOut (fun _ => true) ⟨1, 7⟩ (.store 5 true :: later) = [5, 5] := by
  obtain ⟨-, often⟩ := @handedOut_store (fun _ => true) ⟨1, 7⟩ rfl
    (run (fun _ => true) ⟨1, 7⟩ ⟨.empty, [], []⟩ [.take 0]) 5
  exact ⟨rfl, often⟩

/-- A context parked for single use need not be handed out at most once: the resume that was
caught is given it, and so is the next one. -/
theorem not_handedOut_once :
    ¬ ∀ (alive : Nat → Bool) (h : Host), alive h.serial = true → ∀ (before later : List Access) (n : NodeId),
      (∀ a ∈ later, a.isStore = false) →
        ((run alive h ⟨.empty, [], []⟩ before).handedOut alive h (.store n true :: later)).length ≤ 1 := by
  intro once
  have twice := once (fun _ => true) ⟨1, 7⟩ rfl [.take 0] [.look 0, .take 1] 5 (by decide)
  revert twice
  decide

end Scene

end Ambient.Parking
