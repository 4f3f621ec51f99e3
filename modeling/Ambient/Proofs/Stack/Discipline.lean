import Ambient.Proofs.Stack.Turns
import Mathlib.Data.List.Induction

/-
The discipline of ambient stacks (`ambient_discipline`). However an attachment is
undone, by its token, by its scope, or by the close of the node that keeps the
token, the stacks change as the token says and the same is reported
(`World.Undoes.stack`, `World.Undoes.verdict`). What was beneath an attachment is
known from the moment it was made, so undoing it restores that moment, whatever
was undone in between.
-/

namespace Ambient

namespace World

variable {w : World} {t u : ThreadId} {a b : Action} {k : Token}

/-- The actions that undo an attachment by its token: detaching it, dropping its scope,
and closing the node that keeps it. -/
inductive Undoes (w : World) (k : Token) : Action → Prop
  | detach : Undoes w k (.detach k)
  | dropScope : Undoes w k (.dropScope k)
  | close {id : NodeId} {n : Node} : w.nodes.get? id = some n → n.phase.isOpen = true → n.token = some k →
    Undoes w k (.close id)

/-- What an action reports of an attachment that it undoes; a dropped scope only logs it. -/
def verdict (w : World) (t : ThreadId) : Action → Except ContextError Unit
  | .detach k => (w.detach t k).result
  | .dropScope k =>
    match (w.dropScope t k).2 with
    | [.scopeOutOfOrder e] => .error e
    | _ => .ok ()
  | .close id => (w.close t id).result
  | _ => .ok ()

/-! ## Undoing an attachment -/

/-- However an attachment is undone, the stacks change as its token says. -/
theorem Undoes.stack (h : w.Undoes k b) (t u : ThreadId) :
    (w.perform t b).stack u = if k.thread = t ∧ t = u then (w.stack t).detach k.seq else w.stack u := by
  cases h with
  | detach => exact stack_detach w t u k
  | dropScope => exact stack_detach w t u k
  | close hn ho hk =>
    show (w.close t _).world.stack u = _
    rw [close_eq hn ho, stack_closeOpen, hk]
    exact stack_detach w t u k

theorem Undoes.verdict (h : w.Undoes k b) (t : ThreadId) :
    w.verdict t b = if k.thread = t then (w.stack t).check k else .error .wrongThread := by
  rw [← result_detach]
  cases h with
  | detach => rfl
  | dropScope =>
    simp only [World.verdict, World.dropScope]
    cases (w.detach t k).result <;> rfl
  | close hn ho hk =>
    show (w.close t _).result = _
    rw [close_eq hn ho, result_closeOpen, hk]
    rfl

/-- On another thread nothing is undone. -/
theorem Undoes.other_thread (h : w.Undoes k b) (hu : u ≠ k.thread) :
    (∀ v, (w.perform u b).stack v = w.stack v) ∧ w.verdict u b = .error .wrongThread :=
  ⟨fun v => (h.stack u v).trans (if_neg fun he => hu he.1.symm), (h.verdict u).trans (if_neg hu.symm)⟩

/-- Nothing is undone once the attachment is gone. -/
theorem Undoes.gone (h : w.Undoes k b) (hg : ¬ (w.stack k.thread).Attached k.seq) :
    (∀ u, (w.perform k.thread b).stack u = w.stack u) ∧ w.verdict k.thread b = .ok () := by
  refine ⟨fun u => ?_, ?_⟩
  · rw [h.stack, Stack.detach_of_gone hg]
    split
    · rename_i he
      rw [he.2]
    · rfl
  · rw [h.verdict, if_pos rfl, Stack.check_of_gone hg]

/-- A token that is only detached, or dropped with its scope, touches nothing but stacks. -/
theorem Undoes.ambient (h : w.Undoes k b) (hb : ∀ id, b ≠ .close id) (t : ThreadId) :
    ∃ ambient, w.perform t b = { w with ambient } := by
  have detached : ∃ ambient, (w.detach t k).world = { w with ambient } := by
    unfold World.detach
    split
    · exact ⟨_, rfl⟩
    · exact ⟨w.ambient, rfl⟩
  cases h with
  | detach => exact detached
  | dropScope => exact detached
  | close hn ho hk => exact absurd rfl (hb _)

/-! ## Runs -/

theorem later_run (w : World) (as : List (ThreadId × Action)) (t : ThreadId) :
    (w.stack t).Later ((w.run as).stack t) := by
  induction as generalizing w with
  | nil => exact .refl _
  | cons x as ih =>
    have turns := perform_turns w x.1 x.2
    refine Stack.Later.trans ?_ (ih (w.perform x.1 x.2))
    by_cases hx : t = x.1
    · subst hx
      exact turns.own.later
    · rw [turns.others t hx]

theorem run_append (w : World) (as bs : List (ThreadId × Action)) : w.run (as ++ bs) = (w.run as).run bs := by
  simp [run]

theorem le_last_run (lastObject : Nat) (as : List (ThreadId × Action)) (t : ThreadId) :
    ∀ a ∈ (((World.start lastObject).run as).stack t).entries,
      a.seq ≤ (((World.start lastObject).run as).stack t).last :=
  (later_run (World.start lastObject) as t).le_last

/-- What happens to an attachment between its making and any later moment: it is still
there, above what was there before, or its number never comes back. -/
theorem issued_later (h : w.issued t a = some k) (as : List (ThreadId × Action)) :
    ((w.stack t).attach k.node).Later (((w.run ((t, a) :: as)).stack t)) := by
  rw [← (issued_eq h).2.2]
  exact later_run (w.perform t a) as t

/-- Undoing an attachment that is still there restores what was there before it. -/
theorem Undoes.restores {before : World} (hk : before.issued t a = some k)
    (hs : ∀ x ∈ (before.stack t).entries, x.seq ≤ (before.stack t).last) (as : List (ThreadId × Action))
    (hw : w = before.run ((t, a) :: as)) (h : w.Undoes k b) (ha : (w.stack t).Attached k.seq) :
    ((w.perform t b).stack t).entries = (before.stack t).entries ∧
      w.verdict t b = if (w.stack t).topSeq? = some k.seq then .ok ()
        else .error (.detachMismatch k.node (w.current t)) := by
  obtain ⟨ht, hseq, -⟩ := issued_eq hk
  have later := issued_later hk as
  rw [← hw] at later
  rw [hseq] at ha
  obtain ⟨above, he, hne⟩ := later.above hs ha
  rw [← hseq] at he hne
  refine ⟨?_, ?_⟩
  · rw [h.stack, if_pos ⟨ht, rfl⟩, Stack.detach_append hne he]
  · rw [h.verdict, if_pos ht, Stack.check_append hne he]
    rfl

/-- Once undone, an attachment is gone for good. -/
theorem Undoes.gone_run {before : World} (hk : before.issued t a = some k)
    (hs : ∀ x ∈ (before.stack t).entries, x.seq ≤ (before.stack t).last) (as cs : List (ThreadId × Action))
    (hw : w = before.run ((t, a) :: as)) (h : w.Undoes k b) :
    ¬ (((w.perform t b).run cs).stack t).Attached k.seq := by
  obtain ⟨ht, hseq, -⟩ := issued_eq hk
  have hlast : k.seq ≤ ((w.perform t b).stack t).last := by
    have later := issued_later hk (as ++ [(t, b)])
    rw [← List.cons_append, run_append, ← hw] at later
    rw [hseq]
    exact later.last
  refine (later_run (w.perform t b) cs t).gone hlast ?_
  by_cases ha : (w.stack t).Attached k.seq
  · rintro ⟨x, hx, he⟩
    rw [(h.restores hk hs as hw ha).1] at hx
    have := hs x hx
    omega
  · rw [← ht] at ha ⊢
    rw [(h.gone ha).1]
    exact ha

/-- Every token that a run hands out on a thread is undone there later on. -/
def AllUndone (w : World) (as : List (ThreadId × Action)) (t : ThreadId) : Prop :=
  ∀ as₁ a as₂ k, as = as₁ ++ (t, a) :: as₂ → (w.run as₁).issued t a = some k →
    ∃ bs b cs, as₂ = bs ++ (t, b) :: cs ∧ (w.run (as₁ ++ (t, a) :: bs)).Undoes k b

theorem AllUndone.nil (w : World) (t : ThreadId) : w.AllUndone [] t := by
  intro as₁ a as₂ k h
  simp at h

/-- A step whose token, if it hands out one, is undone among the steps that follow. -/
theorem AllUndone.cons {as : List (ThreadId × Action)}
    (h : ∀ k, w.issued t a = some k → ∃ bs b cs, as = bs ++ (t, b) :: cs ∧ ((w.perform t a).run bs).Undoes k b)
    (hs : (w.perform t a).AllUndone as t) : w.AllUndone ((t, a) :: as) t := by
  intro as₁ a' as₂ k has hk
  cases as₁ with
  | nil =>
    obtain ⟨ha, rfl⟩ := List.cons.inj has
    obtain ⟨-, rfl⟩ := Prod.mk.inj ha
    exact h k hk
  | cons x as₁ =>
    obtain ⟨rfl, rfl⟩ := List.cons.inj has
    exact hs as₁ a' as₂ k rfl hk

/-- A step of a run hands out the token with a number on a thread. -/
def HandsOut (w : World) (as : List (ThreadId × Action)) (t : ThreadId) (seq : Nat) : Prop :=
  ∃ as₁ a as₂ k, as = as₁ ++ (t, a) :: as₂ ∧ (w.run as₁).issued t a = some k ∧ k.seq = seq

theorem HandsOut.concat {as : List (ThreadId × Action)} {seq : Nat} (h : w.HandsOut as t seq)
    (y : ThreadId × Action) : w.HandsOut (as ++ [y]) t seq := by
  obtain ⟨as₁, a, as₂, k, rfl, hk⟩ := h
  exact ⟨as₁, a, as₂ ++ [y], k, by simp, hk⟩

/-- Whatever is on a stack after a run was put there by a step of the run. -/
theorem handsOut_of_mem (lastObject : Nat) (as : List (ThreadId × Action)) (t : ThreadId) {x : Attachment}
    (hx : x ∈ (((World.start lastObject).run as).stack t).entries) :
    (World.start lastObject).HandsOut as t x.seq := by
  induction as using List.reverseRecOn with
  | nil => cases hx
  | append_singleton as y ih =>
    obtain ⟨u, b⟩ := y
    rw [run_concat] at hx
    have turns := perform_turns ((World.start lastObject).run as) u b
    by_cases hu : t = u
    · subst hu
      rcases turns.own.mem hx with hx | hk
      · exact (ih hx).concat (t, b)
      · exact ⟨as, b, [], _, rfl, hk, rfl⟩
    · rw [turns.others t hu] at hx
      exact (ih hx).concat (u, b)

/-- A stack is empty once everything that was attached has been undone. -/
theorem AllUndone.entries_eq_nil {lastObject : Nat} {as : List (ThreadId × Action)}
    (h : (World.start lastObject).AllUndone as t) : (((World.start lastObject).run as).stack t).entries = [] := by
  rw [List.eq_nil_iff_forall_not_mem]
  intro x hx
  obtain ⟨as₁, a, as₂, k, rfl, hk, hseq⟩ := handsOut_of_mem lastObject as t hx
  obtain ⟨bs, b, cs, rfl, hb⟩ := h as₁ a as₂ k rfl hk
  rw [run_append] at hb
  refine hb.gone_run hk (le_last_run lastObject as₁ t) bs cs rfl ⟨x, ?_, hseq.symm⟩
  simpa [run] using hx

end World

open World in
/-- **Ambient stack discipline.** In every run from the start, of any actions on any
threads: let a step attach a node and hand out a token, by whatever action, and let the
token be undone at any later moment, by whatever action.

* On its own thread, and as long as the attachment is on the stack, undoing it leaves
  the stack as it was right before the attaching step. The report is in order just if
  the attachment was topmost; otherwise it names the node of the token and the node on
  top.
* If the attachment was gone at any moment since, undoing it on its own thread leaves
  every stack as it is, and the report is in order, whatever lies on the stack now.
  Unless a node is closed by it, nothing else changes either.
* On another thread, no stack changes and the report is that it is the wrong one.

No action on a thread changes the stack of another one. So once every token handed out
on a thread has been undone there, in whatever order, the stack of the thread is empty. -/
theorem ambient_discipline (lastObject : Nat) :
    (∀ as₁ t a k, ((World.start lastObject).run as₁).issued t a = some k → ∀ as₂ b,
      let before := (World.start lastObject).run as₁
      let w := before.run ((t, a) :: as₂)
      w.Undoes k b →
        ((w.stack t).Attached k.seq →
          ((w.perform t b).stack t).entries = (before.stack t).entries ∧
          w.verdict t b = if (w.stack t).topSeq? = some k.seq then .ok ()
            else .error (.detachMismatch k.node (w.current t))) ∧
        ((∃ bs cs, as₂ = bs ++ cs ∧ ¬ ((before.run ((t, a) :: bs)).stack t).Attached k.seq) →
          (∀ u, (w.perform t b).stack u = w.stack u) ∧ w.verdict t b = .ok () ∧
          ((∀ id, b ≠ .close id) → ∃ ambient, w.perform t b = { w with ambient })) ∧
        ∀ u, u ≠ t → (∀ v, (w.perform u b).stack v = w.stack v) ∧ w.verdict u b = .error .wrongThread) ∧
    (∀ as t a u, u ≠ t →
      (((World.start lastObject).run as).perform t a).stack u = ((World.start lastObject).run as).stack u) ∧
    ∀ as t, (World.start lastObject).AllUndone as t → (((World.start lastObject).run as).stack t).entries = [] := by
  refine ⟨?_, fun as t a u hu => (perform_turns _ t a).others u hu, fun as t h => h.entries_eq_nil⟩
  intro as₁ t a k hk as₂ b before w hb
  obtain ⟨rfl, hseq, -⟩ := issued_eq hk
  refine ⟨fun ha => ?_, ?_, fun u hu => hb.other_thread hu⟩
  · exact hb.restores hk (le_last_run lastObject as₁ k.thread) as₂ rfl ha
  · rintro ⟨bs, cs, rfl, hgone⟩
    have hrun : w = (before.run ((k.thread, a) :: bs)).run cs := run_append before (_ :: bs) cs
    have later := later_run (before.run ((k.thread, a) :: bs)) cs k.thread
    rw [← hrun] at later
    have hlast : k.seq ≤ ((before.run ((k.thread, a) :: bs)).stack k.thread).last :=
      hseq ▸ (issued_later hk bs).last
    obtain ⟨hstack, hverdict⟩ := hb.gone (later.gone hlast hgone)
    exact ⟨hstack, hverdict, fun hclose => hb.ambient hclose k.thread⟩

/-! ## Tokens out of order -/

/-- Two nodes are attached, one above the other. The lower token is undone first; then
the other node is attached again, higher up than before. -/
def regrownRun : List (ThreadId × Action) :=
  [.enter "outer" none bothWays none, .enter "inner" none bothWays none, .attach 1, .attach 2,
    .detach ⟨1, 1, 0⟩, .attach 2].map fun a => (0, a)

/-- The run goes on until every token is undone, the stale one last. -/
def unwoundRun : List (ThreadId × Action) :=
  regrownRun ++ [.detach ⟨2, 3, 0⟩, .detach ⟨2, 2, 0⟩].map fun a => (0, a)

theorem allUndone_unwoundRun : (World.start 0).AllUndone unwoundRun 0 := by
  refine .cons nofun (.cons nofun (.cons ?_ (.cons ?_ (.cons nofun (.cons ?_ (.cons nofun (.cons nofun (.nil _ _))))))))
  · rintro k ⟨⟩
    exact ⟨[(0, .attach 2)], _, _, rfl, .detach⟩
  · rintro k ⟨⟩
    exact ⟨[(0, .detach ⟨1, 1, 0⟩), (0, .attach 2), (0, .detach ⟨2, 3, 0⟩)], _, _, rfl, .detach⟩
  · rintro k ⟨⟩
    exact ⟨[], _, _, rfl, .detach⟩

open World in
/-- The lower token is out of order and empties the stack; the token above it is stale
from then on, and undoing it leaves the new attachment of its node alone; on another
thread nothing is undone; and in the end the stack is empty. -/
theorem ambient_discipline_regrown :
    (let w := (World.start 0).run (regrownRun.take 4)
     (w.perform 0 (.detach ⟨1, 1, 0⟩)).stack 0 = ⟨[], 2⟩ ∧
       w.verdict 0 (.detach ⟨1, 1, 0⟩) = .error (.detachMismatch 1 (some 2))) ∧
    (let w := (World.start 0).run regrownRun
     (w.perform 0 (.detach ⟨2, 2, 0⟩)).stack 0 = ⟨[⟨3, 2⟩], 3⟩ ∧ w.verdict 0 (.detach ⟨2, 2, 0⟩) = .ok () ∧
       w.verdict 1 (.detach ⟨2, 2, 0⟩) = .error .wrongThread) ∧
    (((World.start 0).run unwoundRun).stack 0).entries = [] := by
  obtain ⟨undone, others, empty⟩ := ambient_discipline 0
  have lower := (undone (regrownRun.take 2) 0 (.attach 1) ⟨1, 1, 0⟩ rfl [(0, .attach 2)] _ .detach).1
    ⟨⟨1, 1⟩, by decide, rfl⟩
  have stale := (undone (regrownRun.take 3) 0 (.attach 2) ⟨2, 2, 0⟩ rfl (regrownRun.drop 4) _ .detach).2
  have gone := stale.1 ⟨[(0, .detach ⟨1, 1, 0⟩)], [(0, .attach 2)], rfl, by rintro ⟨a, ha, -⟩; cases ha⟩
  refine ⟨⟨?_, lower.2⟩, ⟨gone.1 0, gone.2.1, (stale.2 1 (by decide)).2⟩, empty _ _ allUndone_unwoundRun⟩
  exact congrArg (Stack.mk · 2) lower.1

end Ambient
