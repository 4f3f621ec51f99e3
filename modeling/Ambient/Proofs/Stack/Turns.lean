import Ambient.Proofs.Operations
import Ambient.Proofs.Stack.History

/-
What actions do to ambient stacks, said once for all actions (`World.perform_turns`):
an action touches the stack of its own thread only, and in one of four ways. What
it hands out names the attachment that it made (`World.issued_eq`).
-/

namespace Ambient

/-- What an action does to the stack of its thread, and the token that it hands out. -/
inductive Stack.Turns (s : Stack) (t : ThreadId) : Option Token → Stack → Prop
  | still : Turns s t none s
  | attached (node : NodeId) : Turns s t (some ⟨node, s.last + 1, t⟩) (s.attach node)
  | detached (seq : Nat) : Turns s t none (s.detach seq)
  /-- A scope that is left at once. -/
  | unwound (node : NodeId) : Turns s t none ((s.attach node).detach (s.last + 1))

theorem Stack.Turns.later {s s' : Stack} {t : ThreadId} {k : Option Token} (h : s.Turns t k s') : s.Later s' := by
  cases h with
  | still => exact .refl s
  | attached node => exact .attach s node
  | detached seq => exact .detach s seq
  | unwound node => exact (Later.attach s node).trans (.detach _ _)

/-- Whatever is on the stack after an action was there before, or has the token that
the action hands out. -/
theorem Stack.Turns.mem {s s' : Stack} {t : ThreadId} {k : Option Token} (h : s.Turns t k s') {a : Attachment}
    (ha : a ∈ s'.entries) : a ∈ s.entries ∨ k = some ⟨a.node, a.seq, t⟩ := by
  cases h with
  | still => exact .inl ha
  | attached node =>
    rcases List.mem_cons.1 ha with rfl | ha
    · exact .inr rfl
    · exact .inl ha
  | detached seq => exact .inl ((s.suffix_detach seq).subset ha)
  | unwound node => exact .inl (by rwa [Stack.detach_attach] at ha)

namespace World

variable {w w' : World} {t u : ThreadId} {a : Action} {k : Token} {id : NodeId} {n : Node}

/-- The token that an action hands out, to its caller or to the node that becomes active. -/
def issued (w : World) (t : ThreadId) : Action → Option Token
  | .attach id => some (w.attach t id).2
  | .resume table h => (w.resume t table h).2
  | .makeActive id =>
    match w.makeActive t id with
    | ⟨.ok _, w, _⟩ => (w.nodes.get? id).bind Node.token
    | ⟨.error _, _, _⟩ => none
  | _ => none

/-! ## What actions do to stacks -/

/-- A thread's own stack was turned, and no other one. -/
structure Turned (w : World) (t : ThreadId) (k : Option Token) (w' : World) : Prop where
  own : (w.stack t).Turns t k (w'.stack t)
  others : ∀ u, u ≠ t → w'.stack u = w.stack u

theorem stack_congr (h : w'.ambient = w.ambient) (u : ThreadId) : w'.stack u = w.stack u := by
  rw [stack, h, stack]

theorem Turned.still (h : w'.ambient = w.ambient) (t : ThreadId) : Turned w t none w' := by
  refine ⟨?_, fun u _ => stack_congr h u⟩
  rw [stack_congr h]
  exact .still

theorem Turned.congr {w'' : World} {token : Option Token} (h : Turned w t token w')
    (ha : w''.ambient = w'.ambient) : Turned w t token w'' := by
  refine ⟨?_, fun u hu => (stack_congr ha u).trans (h.others u hu)⟩
  rw [stack_congr ha]
  exact h.own

theorem turned_withStack {token : Option Token} {s : Stack} (h : (w.stack t).Turns t token s) :
    Turned w t token (w.withStack t s) := by
  refine ⟨?_, fun u hu => ?_⟩
  · rw [stack_withStack, if_pos rfl]
    exact h
  · rw [stack_withStack, if_neg hu.symm]

theorem turned_attach (w : World) (t : ThreadId) (id : NodeId) :
    Turned w t (some (w.attach t id).2) (w.attach t id).1 :=
  turned_withStack (.attached id)

theorem stack_detach (w : World) (t u : ThreadId) (k : Token) :
    (w.detach t k).world.stack u = if k.thread = t ∧ t = u then (w.stack t).detach k.seq else w.stack u := by
  unfold detach
  by_cases ht : k.thread = t
  · simp only [ht, if_true, stack_withStack, true_and]
  · simp only [ht, if_false, false_and]

theorem result_detach (w : World) (t : ThreadId) (k : Token) :
    (w.detach t k).result = if k.thread = t then (w.stack t).check k else .error .wrongThread := by
  unfold detach
  split <;> rfl

theorem turned_detach (w : World) (t : ThreadId) (k : Token) : Turned w t none (w.detach t k).world := by
  unfold detach
  split
  · exact turned_withStack (.detached k.seq)
  · exact .still rfl t

theorem turned_detach? (w : World) (t : ThreadId) (k : Option Token) : Turned w t none (w.detach? t k).world := by
  cases k with
  | none => exact .still rfl t
  | some k => exact turned_detach w t k

theorem turned_unwindScope (w : World) (t : ThreadId) (id : NodeId) :
    Turned w t none (w.unwindScope t id).1 := by
  have inside : (w.attach t id).1.stack t = (w.stack t).attach id := (stack_withStack ..).trans (if_pos rfl)
  have after : ∀ u, (w.unwindScope t id).1.stack u =
      if t = u then ((w.stack t).attach id).detach ((w.stack t).last + 1) else (w.attach t id).1.stack u := by
    intro u
    refine (stack_detach (w.attach t id).1 t u (w.attach t id).2).trans ?_
    rw [inside]
    simp only [attach, true_and]
  refine ⟨?_, fun u hu => ?_⟩
  · rw [after, if_pos rfl]
    exact .unwound id
  · rw [after, if_neg hu.symm]
    exact (turned_attach w t id).others u hu

/-! ### Operations that leave the stacks alone -/

theorem ambient_rootPolicy (w : World) (p : Policy) (found : Tags) : (w.rootPolicy p found).1.ambient = w.ambient := by
  unfold rootPolicy
  dsimp only
  split <;> rfl

theorem ambient_enter (w : World) (t : ThreadId) (parent : Option NodeId) (p : Policy) (b : Option BridgeId) :
    (w.enter t parent p b).1.ambient = w.ambient := by
  unfold enter
  split
  · exact ambient_rootPolicy ..
  split
  · exact ambient_rootPolicy ..
  · rfl

theorem ambient_seed (w : World) (id : NodeId) (es : List (String × Value)) : (w.seed id es).ambient = w.ambient := by
  unfold seed
  split <;> rfl

theorem ambient_enterUnder (w : World) (t : ThreadId) (e : Engine) (parent : Option NodeId) :
    (w.enterUnder t e parent).1.ambient = w.ambient := by
  unfold enterUnder
  dsimp only
  split
  · exact (ambient_seed ..).trans (ambient_enter ..)
  · exact ambient_enter ..

theorem ambient_change (w : World) (id : NodeId) (f : Node → Except WrongPhase Node) :
    (w.change id f).world.ambient = w.ambient := by
  unfold change
  split <;> rfl

theorem ambient_setAll (w : World) (id : NodeId) (es : List (String × Value)) :
    (w.setAll id es).world.ambient = w.ambient := by
  unfold setAll
  split
  · rfl
  · exact ambient_change ..

theorem ambient_readDown (w : World) (id : NodeId) (c : Codec) (h : Headers) :
    (w.readDown id c h).world.ambient = w.ambient := by
  have hs := ambient_setAll w id (w.requestEntries (c.decode h))
  unfold readDown
  dsimp only
  split
  · rfl
  · rename_i w' _ he
    rw [he] at hs
    refine Eq.trans ?_ hs
    unfold countObject
    split <;> rfl

theorem ambient_publish (w : World) (n : Node) : (w.publish n).1.ambient = w.ambient := by
  unfold publish
  split <;> rfl

theorem ambient_dropEngine (w : World) (e : EngineId) : (w.dropEngine e).ambient = w.ambient := by
  unfold dropEngine
  split <;> rfl

theorem ambient_race (w : World) (table : TableId) (h : Host) (n : Nat) :
    (w.race table h n).1.ambient = w.ambient := by
  induction n generalizing w with
  | zero => rfl
  | succ n ih => exact ih (w.take table h).1

theorem ambient_storeForPassing (w : World) (table : TableId) (id : NodeId) (singleUse : Bool) (n : Nat) :
    (w.storeForPassing table id singleUse n).1.ambient = w.ambient := by
  induction n generalizing w with
  | zero => rfl
  | succ n ih => exact ih ((w.addHost.1.store table w.addHost.2 id singleUse).1.dropHost w.addHost.2)

theorem ambient_flowUp (w : World) (t : ThreadId) (id : NodeId) (child : Node) :
    (w.flowUp t id child).1.ambient = w.ambient := by
  obtain ⟨nodes, h⟩ := flowUp_nodes w t id child
  rw [h]

/-! ### Becoming active, resuming and closing -/

theorem issued_makeActive (hn : w.nodes.get? id = some n) (hp : n.phase = .entry) :
    w.issued t (.makeActive id) = some (w.attach t id).2 := by
  simp only [issued, makeActive_eq hn hp, get?_withNode, if_true, Option.bind_some]

theorem turned_makeActive (w : World) (t : ThreadId) (id : NodeId) :
    Turned w t (w.issued t (.makeActive id)) (w.makeActive t id).world := by
  cases ha : w.ask id Node.activate with
  | error e =>
    simp only [issued, makeActive, ha]
    exact .still rfl t
  | ok n' =>
    obtain ⟨n, hn, hf⟩ := ask_eq_ok.1 ha
    have hp := (Node.activate_eq_ok.1 hf).1
    rw [issued_makeActive hn hp, makeActive_eq hn hp]
    exact (turned_attach w t id).congr (ambient_publish ..)

theorem turned_resume (w : World) (t : ThreadId) (table : TableId) (h : Host) :
    Turned w t (w.resume t table h).2 (w.resume t table h).1 := by
  have taken : (w.take table h).1.ambient = w.ambient := rfl
  unfold resume
  split <;> rename_i hr <;> rw [hr] at taken
  · exact .still taken t
  · rename_i w' id
    have := turned_attach w' t id
    refine ⟨?_, fun u hu => (this.others u hu).trans (stack_congr taken u)⟩
    rw [← stack_congr taken t]
    exact this.own

/-- A close does to the stacks what the token of its node says. -/
theorem stack_closeOpen (w : World) (t u : ThreadId) (id : NodeId) (n : Node) :
    (w.closeOpen t id n).world.stack u = (w.detach? t n.token).world.stack u := by
  have scope : ∀ u, (((w.withNode id n.retire).closeScope? n.scope).1).stack u = w.stack u := by
    intro u
    cases n.scope <;> rfl
  rw [closeOpen_world, stack_congr (ambient_flowUp ..), closing]
  cases n.token with
  | none => exact scope u
  | some k => simp only [detach?, stack_detach, scope]

theorem result_closeOpen (w : World) (t : ThreadId) (id : NodeId) (n : Node) :
    (w.closeOpen t id n).result = (w.detach? t n.token).result := by
  have scope : (((w.withNode id n.retire).closeScope? n.scope).1).stack t = w.stack t := by
    cases n.scope <;> rfl
  show ((((w.withNode id n.retire).closeScope? n.scope).1).detach? t n.token).result = _
  cases n.token with
  | none => rfl
  | some k => simp only [detach?, result_detach, scope]

theorem turned_close (w : World) (t : ThreadId) (id : NodeId) : Turned w t none (w.close t id).world := by
  unfold close
  split
  · exact .still rfl t
  · rename_i n _
    have := turned_detach? w t n.token
    refine ⟨?_, fun u hu => (stack_closeOpen ..).trans (this.others u hu)⟩
    rw [stack_closeOpen]
    exact this.own

/-- **What an action does to the stacks**, whatever the action. -/
theorem perform_turns (w : World) (t : ThreadId) (a : Action) : Turned w t (w.issued t a) (w.perform t a) := by
  cases a with
  | enter name parent p b =>
    refine .still ?_ t
    exact ambient_enter w t parent p b
  | enterUnder name engine parent =>
    simp only [perform]
    split
    · exact .still rfl t
    · refine .still ?_ t
      exact ambient_enterUnder w t _ parent
  | makeActive id => exact turned_makeActive w t id
  | beginExit id => exact .still (ambient_change ..) t
  | close id => exact turned_close w t id
  | set id key v => exact .still (ambient_change ..) t
  | readDown id c h => exact .still (ambient_readDown ..) t
  | readUp id c h => exact .still (ambient_setAll ..) t
  | applyConfig id c =>
    refine .still ?_ t
    simp only [perform]
    split <;> rfl
  | dropEngine id => exact .still (ambient_dropEngine ..) t
  | attach id => exact turned_attach w t id
  | detach token => exact turned_detach w t token
  | dropScope token => exact turned_detach w t token
  | unwindScope id => exact turned_unwindScope w t id
  | resume table h => exact turned_resume w t table h
  | race table h n => exact .still (ambient_race ..) t
  | storeForPassing table id singleUse n => exact .still (ambient_storeForPassing ..) t
  | _ =>
    refine .still ?_ t
    rfl

/-- A token names its thread, its node and the next number, and the attachment is made. -/
theorem issued_eq (h : w.issued t a = some k) :
    k.thread = t ∧ k.seq = (w.stack t).last + 1 ∧ (w.perform t a).stack t = (w.stack t).attach k.node := by
  have turns := (perform_turns w t a).own
  rw [h] at turns
  generalize (w.perform t a).stack t = s at turns ⊢
  cases turns
  exact ⟨rfl, rfl, rfl⟩

end World

end Ambient
