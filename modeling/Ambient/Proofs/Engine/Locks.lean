import Ambient.Proofs.Engine.Calls
import Mathlib.Data.List.Basic

/-
The order in which calls take the locks of an engine. What a call reads behind a lock is
what the last writer before it left there. A call that reads behind both locks may so
read from two writers. That is so just if a call has overtaken another between the two
locks: the reader the writer of the policy, or the writer of the identity the reader, or
the one writer the other (`Scene.ne_iff_overtakes`).
-/

namespace Ambient.Configuring

/-- The configuration of a call that takes one over. -/
def Stage.config? : Stage → Option Config
  | resolve c | writePolicy c _ | writeIdentity c _ | readFormat c _ | writeFormat c _ | applied c _ => some c
  | _ => none

namespace Scene

/-- What a call takes its locks for: to write, if it takes a configuration over, and else to read. -/
def Writes (s : Scene) (n : Nat) : Prop := (s.stages n).config?.isSome = true

/-- When a call took a lock: its place in the order, behind all others if that is still to come. -/
def place (s : Scene) (l : Lock) (n : Nat) : Nat := s.log.idxOf (l, n)

/-- What a call reads behind a lock was written by another, and by no one since. -/
structure ReadsFrom (s : Scene) (l : Lock) (r a : Nat) : Prop where
  taken : (l, r) ∈ s.log
  writes : s.Writes a
  before : s.place l a < s.place l r
  last : ∀ b, s.Writes b → s.place l b < s.place l r → s.place l b ≤ s.place l a

/-- The last call that wrote behind a lock. -/
structure Latest (s : Scene) (l : Lock) (a : Nat) : Prop where
  taken : (l, a) ∈ s.log
  writes : s.Writes a
  last : ∀ b, s.Writes b → (l, b) ∈ s.log → s.place l b ≤ s.place l a

/-- A call comes to the policy after another, and to the identity before it. -/
def Overtakes (s : Scene) (m n : Nat) : Prop :=
  s.place .policy n < s.place .policy m ∧ s.place .identity m < s.place .identity n

variable {s s' : Scene} {l : Lock} {a b m n r : Nat}

theorem eq_of_place_eq (h : (l, m) ∈ s.log) (he : s.place l m = s.place l n) : m = n :=
  congrArg Prod.snd ((List.idxOf_inj h).1 he)

theorem ReadsFrom.source_taken (h : s.ReadsFrom l r a) : (l, a) ∈ s.log :=
  List.idxOf_lt_length_iff.1 (Nat.lt_of_lt_of_le h.before List.idxOf_le_length)

/-- **When a reader has two writers.** -/
theorem ne_iff_overtakes (ha : s.ReadsFrom .policy r a) (hb : s.ReadsFrom .identity r b) (hr : ¬ s.Writes r) :
    a ≠ b ↔ s.Overtakes r a ∨ s.Overtakes b r ∨ s.Overtakes a b := by
  constructor
  · intro hne
    rcases Nat.lt_trichotomy (s.place .identity a) (s.place .identity r) with hlt | heq | hgt
    · -- The writer of the policy had written its identity, and another came after it.
      have hab : s.place .identity a < s.place .identity b := by
        refine Nat.lt_of_le_of_ne (hb.last a ha.writes hlt) fun heq => hne ?_
        exact (eq_of_place_eq hb.source_taken heq.symm).symm
      rcases Nat.lt_trichotomy (s.place .policy b) (s.place .policy r) with hlt | heq | hgt
      · have hba : s.place .policy b < s.place .policy a := by
          refine Nat.lt_of_le_of_ne (ha.last b hb.writes hlt) fun heq => hne ?_
          exact eq_of_place_eq ha.source_taken heq.symm
        exact .inr (.inr ⟨hba, hab⟩)
      · exact absurd (eq_of_place_eq ha.taken heq.symm ▸ hb.writes) hr
      · exact .inr (.inl ⟨hgt, hb.before⟩)
    · exact absurd (eq_of_place_eq hb.taken heq.symm ▸ ha.writes) hr
    · exact .inl ⟨ha.before, hgt⟩
  · rintro (⟨-, h⟩ | ⟨h, -⟩ | ⟨h, -⟩) rfl
    · exact Nat.lt_asymm h hb.before
    · exact Nat.lt_asymm h ha.before
    · exact Nat.lt_irrefl _ h

/-! ## As calls go on -/

/-- A scene with more steps behind it. -/
structure Extends (s s' : Scene) : Prop where
  log : s.log <+: s'.log
  config : ∀ n, (s'.stages n).config? = (s.stages n).config?

theorem Extends.trans {s'' : Scene} (h : Extends s s') (h' : Extends s' s'') : Extends s s'' :=
  ⟨h.log.trans h'.log, fun n => (h'.config n).trans (h.config n)⟩

theorem Extends.writes_iff (h : Extends s s') (n : Nat) : s'.Writes n ↔ s.Writes n := by
  rw [Writes, Writes, h.config]

theorem Extends.place_eq (h : Extends s s') (hn : (l, n) ∈ s.log) : s'.place l n = s.place l n := by
  obtain ⟨more, hmore⟩ := h.log
  rw [place, place, ← hmore, List.idxOf_append_of_mem hn]

/-- What comes before a place that is taken already was there already. -/
theorem Extends.mem_of_place_lt (h : Extends s s') (hn : (l, n) ∈ s.log) (hlt : s'.place l m < s'.place l n) :
    (l, m) ∈ s.log := by
  rw [h.place_eq hn] at hlt
  by_contra hm
  obtain ⟨more, hmore⟩ := h.log
  have hbound : s.place l n < s.log.length := List.idxOf_lt_length_iff.2 hn
  rw [place, ← hmore, List.idxOf_append_of_notMem hm] at hlt
  omega

theorem ReadsFrom.extends (h : s.ReadsFrom l r a) (he : Extends s s') : s'.ReadsFrom l r a := by
  refine ⟨he.log.subset h.taken, (he.writes_iff a).2 h.writes, ?_, fun b hb hlt => ?_⟩
  · rw [he.place_eq h.taken, he.place_eq h.source_taken]
    exact h.before
  · have hmem := he.mem_of_place_lt h.taken hlt
    rw [he.place_eq hmem, he.place_eq h.taken] at hlt
    rw [he.place_eq hmem, he.place_eq h.source_taken]
    exact h.last b ((he.writes_iff b).1 hb) hlt

theorem Latest.extends (h : s.Latest l a) (he : Extends s s')
    (hold : ∀ b, s'.Writes b → (l, b) ∈ s'.log → (l, b) ∈ s.log) : s'.Latest l a := by
  refine ⟨he.log.subset h.taken, (he.writes_iff a).2 h.writes, fun b hb hmem => ?_⟩
  have hmem := hold b hb hmem
  rw [he.place_eq hmem, he.place_eq h.taken]
  exact h.last b ((he.writes_iff b).1 hb) hmem

/-- The place of a lock that has just been taken. -/
theorem place_concat (hlog : s'.log = s.log ++ [(l, n)]) (hn : (l, n) ∉ s.log) : s'.place l n = s.log.length := by
  rw [place, hlog, List.idxOf_append_of_notMem hn, List.idxOf_cons_self, Nat.add_zero]

/-- A reader that takes a lock reads from the last writer. -/
theorem Latest.readsFrom (h : s.Latest l a) (he : Extends s s') (hlog : s'.log = s.log ++ [(l, r)])
    (hr : (l, r) ∉ s.log) (hw : ¬ s.Writes r) : s'.ReadsFrom l r a := by
  have hplace := place_concat hlog hr
  refine ⟨by simp [hlog], (he.writes_iff a).2 h.writes, ?_, fun b hb hlt => ?_⟩
  · rw [he.place_eq h.taken, hplace]
    exact List.idxOf_lt_length_iff.2 h.taken
  · have hb := (he.writes_iff b).1 hb
    have hne : b ≠ r := fun heq => hw (heq ▸ hb)
    have hmem' : (l, b) ∈ s'.log := List.idxOf_lt_length_iff.1 (Nat.lt_of_lt_of_le hlt List.idxOf_le_length)
    have hmem : (l, b) ∈ s.log := by simpa [hlog, hne] using hmem'
    rw [he.place_eq hmem, he.place_eq h.taken]
    exact h.last b hb hmem

/-- A writer that takes a lock is the last one then. -/
theorem latest_of_writes (he : Extends s s') (hlog : s'.log = s.log ++ [(l, n)]) (hn : (l, n) ∉ s.log)
    (hw : s.Writes n) : s'.Latest l n := by
  have hplace := place_concat hlog hn
  refine ⟨by simp [hlog], (he.writes_iff n).2 hw, fun b hb hmem => ?_⟩
  have hbound : s'.place l b < s'.log.length := List.idxOf_lt_length_iff.2 hmem
  rw [hlog, List.length_append, List.length_singleton] at hbound
  omega

end Scene

end Ambient.Configuring
