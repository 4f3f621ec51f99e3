import Ambient.Proofs.Tags.Simulation

/-
Tag scopes nest and balance (`scopes_balance`). A node opens at most one scope, when it
becomes active, and its close closes that scope and no other; whatever is entered
above it in between opens and closes within it.
-/

namespace Ambient.Nested

open World

/-- The life of a node as a facility sees it, before and after it became active and before
and after its close: the scopes are at last what they were at first, what happened in
between is well-bracketed, and the node opened no scope and closed none, or opened one
and closed that one. -/
structure Life.Balances (b : BridgeId) (l : Life) (f₀ f₁ f₂ f₃ : Facility) : Prop where
  ready : l.began.ready.bridge b = .recording f₀
  active : l.began.active.bridge b = .recording f₁
  last : l.last.bridge b = .recording f₂
  closed : l.closed.bridge b = .recording f₃
  scopes : f₃.scopes = f₀.scopes
  events : ∃ es, Balanced es ∧ f₃.events = f₀.events ++ es
  own : f₁ = f₀ ∧ f₃ = f₂ ∨ ∃ tags, f₁ = f₀.openScope tags ∧ f₂.scopes = tags :: f₀.scopes ∧ f₃ = f₂.closeScope

theorem Lived.balances {b : BridgeId} {l : Life} (h : Lived b l) :
    ∃ f₀ f₁ f₂ f₃, l.Balances b f₀ f₁ f₂ f₃ := by
  cases h with
  | silent hr ha hl hc hp => exact ⟨_, _, _, _, hr, ha, hl, hc, hp.scopes, hp.events, .inl ⟨rfl, rfl⟩⟩
  | tagged hr ha hl hc hp =>
    exact ⟨_, _, _, _, hr, ha, hl, hc, hp.scope.scopes, hp.scope.events, .inr ⟨_, rfl, hp.scopes, rfl⟩⟩

/-- **Tag scopes nest and balance.** Programs are run one after another in any reachable
process, on any thread, with roots entered under any policies and bridges, through
engines or not. For every recording facility, whatever is ambient behind it:

* Every operation succeeds.
* Entering, writing and beginning to exit leave all bridges alone.
* After a node's close the open scopes are those of just before it became active, and the
  events in between are well-bracketed. The node opened at most one scope, and what it
  closed is what it opened.
* The run as a whole leaves the scopes as they were, and its events are well-bracketed. -/
theorem scopes_balance {w : World} (h : Reachable w) {how : Call → Entrance} (known : ∀ c, (how c).Known w)
    (t : ThreadId) (ps : List (Call × Body false)) {b : BridgeId} {f : Facility} (hf : w.bridge b = .recording f) :
    (∀ e ∈ (live how t ps w).steps, e.1 = .ok ()) ∧
    (∀ v v', (.ok (), .quiet v v') ∈ (live how t ps w).steps → v'.bridges = v.bridges) ∧
    (∀ l, (.ok (), .closed l) ∈ (live how t ps w).steps → ∃ f₀ f₁ f₂ f₃, l.Balances b f₀ f₁ f₂ f₃) ∧
    ∃ f', (live how t ps w).world.bridge b = .recording f' ∧ f'.scopes = f.scopes ∧
      ∃ es, Balanced es ∧ f'.events = f.events ++ es := by
  let S : Setting := ⟨how, t, (w.stack t).entries, fun _ => True, b, f.scopes⟩
  have start : Live S w [] [] := .start h known rfl hf rfl
  have runs := live_sim ps (fun _ => trivial) start
  have sound : ∀ e ∈ (live how t ps w).steps, e.1 = .ok () ∧ e.2.Sound S := by
    obtain ⟨steps, hs, sound⟩ := runs.steps
    intro e he
    exact sound e (by rwa [hs] at he)
  obtain ⟨f₀, f', hf₀, hf', passes⟩ := runs.passes
  obtain rfl := Bridge.recording.inj (hf.symm.trans hf₀)
  refine ⟨fun e he => (sound e he).1, fun v v' he => ?_, fun l he => ?_, f', hf', passes.scopes, passes.events⟩
  · exact SameBridges.bridges (sound _ he).2
  · exact Lived.balances (sound _ he).2

/-! ## Scopes in a scope -/

/-- One key is a tag that flows down. -/
def taggedKey : Policy := ⟨1, Dict.ofList [("k", ⟨some .processLocal, none, some true⟩)]⟩

/-- A process with a facility behind which a tag is ambient. -/
def regional : World := (World.start 0).perform 0 (.addBridge (.withAmbient [("region", "eu")]))

/-- Beneath a root with a tag one child changes it, and one does not. -/
def nestedScopes : List (Call × Body false) :=
  [(⟨"root", true, taggedKey, [("k", some (.text "a"))]⟩,
    .call ⟨"changed", false, taggedKey, [("k", some (.text "b"))]⟩ .done
      (.call ⟨"unchanged", false, taggedKey, []⟩ .done .done))]

/-- Two scopes were opened, and the ambient tag is left. -/
theorem scopes_balance_nested :
    ∃ f, (live (fun _ => .direct (some 1)) 0 nestedScopes regional).world.bridge 1 = .recording f ∧
      f.scopes = [[("region", "eu")]] ∧ f.openedCount = 2 := by
  have reachable : Reachable regional := (Reachable.start 0).step 0 _
  have known : ∀ c, ((fun _ : Call => Entrance.direct (some 1)) c).Known regional := fun _ => trivial
  have recording : regional.bridge 1 = .recording ⟨[[("region", "eu")]], []⟩ := rfl
  obtain ⟨-, -, -, f, hf, scopes, -⟩ := scopes_balance reachable known 0 nestedScopes recording
  refine ⟨f, hf, scopes, ?_⟩
  obtain ⟨g, hg, count⟩ : ∃ g, (live (fun _ => .direct (some 1)) 0 nestedScopes regional).world.bridge 1 =
      .recording g ∧ g.openedCount = 2 := ⟨_, rfl, rfl⟩
  rw [hg] at hf
  exact Bridge.recording.inj hf ▸ count

end Ambient.Nested
