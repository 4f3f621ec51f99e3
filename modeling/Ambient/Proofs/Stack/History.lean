import Ambient.Stack
import Mathlib.Data.List.TakeWhile

/-
What becomes of a stack while attachments come and go. Whatever is undone and in
whatever order, what is left of an earlier state is a bottom part of it, and all
that lies above came later and has greater numbers (`Stack.Later`). So as long as
an attachment is on the stack, so is exactly what was there when it came
(`Stack.Later.above`), and once it is gone it never comes back
(`Stack.Later.gone`).
-/

namespace Ambient

namespace Stack

variable {s s' s'' : Stack} {seq : Nat} {node : NodeId}

/-- An attachment with a number is on the stack. -/
def Attached (s : Stack) (seq : Nat) : Prop := ∃ a ∈ s.entries, a.seq = seq

/-- The number of the topmost attachment. -/
def topSeq? (s : Stack) : Option Nat := s.entries.head?.map Attachment.seq

/-- A later state of a stack. -/
structure Later (s s' : Stack) : Prop where
  last : s.last ≤ s'.last
  entries : ∃ above kept, s'.entries = above ++ kept ∧ kept <:+ s.entries ∧
    ∀ a ∈ above, s.last < a.seq ∧ a.seq ≤ s'.last

/-! ## What detaching does -/

theorem fromSeq_append {above below : List Attachment} (h : ∀ a ∈ above, a.seq ≠ seq)
    (hs : s.entries = above ++ ⟨seq, node⟩ :: below) : s.fromSeq seq = ⟨seq, node⟩ :: below := by
  have hp : ∀ a ∈ above, (a.seq != seq) = true := fun a ha => bne_iff_ne.2 (h a ha)
  rw [fromSeq, hs, List.dropWhile_append_of_pos hp]
  simp

theorem fromSeq_eq_nil (h : ¬ s.Attached seq) : s.fromSeq seq = [] := by
  rw [fromSeq, List.dropWhile_eq_nil_iff]
  intro a ha
  exact bne_iff_ne.2 fun he => h ⟨a, ha, he⟩

/-- Detaching what is not there changes nothing, and is in order. -/
theorem detach_of_gone (h : ¬ s.Attached seq) : s.detach seq = s := by
  simp only [detach, fromSeq_eq_nil h]

theorem check_of_gone {token : Token} (h : ¬ s.Attached token.seq) : s.check token = .ok () :=
  if_pos (.inl (fromSeq_eq_nil h))

/-- Detaching takes an attachment off with all that lies above it. -/
theorem detach_append {above below : List Attachment} (h : ∀ a ∈ above, a.seq ≠ seq)
    (hs : s.entries = above ++ ⟨seq, node⟩ :: below) : s.detach seq = ⟨below, s.last⟩ := by
  simp only [detach, fromSeq_append h hs]

/-- It is in order if nothing lies above. -/
theorem check_append {token : Token} {above below : List Attachment} (h : ∀ a ∈ above, a.seq ≠ token.seq)
    (hs : s.entries = above ++ ⟨token.seq, node⟩ :: below) :
    s.check token = if s.topSeq? = some token.seq then .ok () else .error (.detachMismatch token.node s.top?) := by
  have hf := fromSeq_append h hs
  unfold check
  rw [hf, hs]
  cases above with
  | nil => simp [topSeq?, hs]
  | cons b above =>
    have hb : b.seq ≠ token.seq := h b (by simp)
    have hne : ¬ (⟨token.seq, node⟩ :: below = [] ∨
        ⟨token.seq, node⟩ :: below = b :: above ++ ⟨token.seq, node⟩ :: below) := by
      rintro (he | he)
      · cases he
      · exact hb (congrArg Attachment.seq (List.cons.inj he).1).symm
    rw [if_neg hne, if_neg (by simp [topSeq?, hs, hb])]

theorem suffix_detach (s : Stack) (seq : Nat) : (s.detach seq).entries <:+ s.entries := by
  unfold detach
  split
  · exact List.suffix_refl _
  · rename_i a below hb
    exact (List.suffix_cons a below).trans (hb ▸ List.dropWhile_suffix _)

@[simp] theorem last_detach (s : Stack) (seq : Nat) : (s.detach seq).last = s.last := by
  unfold detach
  split <;> rfl

/-! ## Later states -/

namespace Later

@[refl] theorem refl (s : Stack) : s.Later s :=
  ⟨Nat.le_refl _, [], s.entries, rfl, List.suffix_refl _, by simp⟩

theorem trans (h : s.Later s') (h' : s'.Later s'') : s.Later s'' := by
  obtain ⟨hl, above, kept, he, hk, ha⟩ := h
  obtain ⟨hl', above', kept', he', hk', ha'⟩ := h'
  refine ⟨Nat.le_trans hl hl', ?_⟩
  have late : ∀ a ∈ above', s.last < a.seq ∧ a.seq ≤ s''.last := fun a hm =>
    ⟨Nat.lt_of_le_of_lt hl (ha' a hm).1, (ha' a hm).2⟩
  rw [he] at hk'
  -- What the second state left of the first one ends within or above what the first one kept.
  rcases List.suffix_or_suffix_of_suffix hk' (List.suffix_append above kept) with hs | ⟨mid, rfl⟩
  · exact ⟨above', kept', he', hs.trans hk, late⟩
  · refine ⟨above' ++ mid, kept, by rw [he', List.append_assoc], hk, fun a hm => ?_⟩
    rcases List.mem_append.1 hm with hm | hm
    · exact late a hm
    · obtain ⟨gone, hgone⟩ := hk'
      rw [← List.append_assoc] at hgone
      have := ha a (List.append_cancel_right hgone ▸ List.mem_append_right gone hm)
      exact ⟨this.1, Nat.le_trans this.2 hl'⟩

theorem attach (s : Stack) (node : NodeId) : s.Later (s.attach node) :=
  ⟨Nat.le_succ _, [⟨s.last + 1, node⟩], s.entries, rfl, List.suffix_refl _, by simp [Stack.attach]⟩

theorem detach (s : Stack) (seq : Nat) : s.Later (s.detach seq) :=
  ⟨by simp, [], _, rfl, s.suffix_detach seq, by simp⟩

/-- No attachment has a greater number than the last one. -/
theorem le_last (h : Stack.empty.Later s) : ∀ a ∈ s.entries, a.seq ≤ s.last := by
  obtain ⟨-, above, kept, he, hk, ha⟩ := h
  obtain rfl : kept = [] := List.suffix_nil.1 hk
  intro a hm
  rw [he, List.append_nil] at hm
  exact (ha a hm).2

/-- What is gone never comes back: its number is not given out again. -/
theorem gone (h : s.Later s') (hl : seq ≤ s.last) (hn : ¬ s.Attached seq) : ¬ s'.Attached seq := by
  obtain ⟨-, above, kept, he, hk, ha⟩ := h
  rintro ⟨a, hm, rfl⟩
  rw [he] at hm
  rcases List.mem_append.1 hm with hm | hm
  · exact Nat.not_le_of_lt (ha a hm).1 hl
  · exact hn ⟨a, hk.subset hm, rfl⟩

/-- As long as an attachment is on the stack, so is what was there when it came. -/
theorem above (h : (s.attach node).Later s') (hs : ∀ a ∈ s.entries, a.seq ≤ s.last)
    (ha : s'.Attached (s.last + 1)) :
    ∃ above, s'.entries = above ++ ⟨s.last + 1, node⟩ :: s.entries ∧ ∀ a ∈ above, a.seq ≠ s.last + 1 := by
  obtain ⟨-, above, kept, he, hk, hlate⟩ := h
  have hne : ∀ a ∈ above, a.seq ≠ s.last + 1 := fun a hm => Nat.ne_of_gt (hlate a hm).1
  refine ⟨above, ?_, hne⟩
  rcases List.suffix_cons_iff.1 hk with rfl | hk
  · exact he
  · -- Otherwise only smaller numbers were left of what was there.
    obtain ⟨a, hm, ha⟩ := ha
    rw [he] at hm
    rcases List.mem_append.1 hm with hm | hm
    · exact absurd ha (hne a hm)
    · have := hs a (hk.subset hm)
      omega

end Later

end Stack

end Ambient
