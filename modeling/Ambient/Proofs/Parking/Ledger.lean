import Ambient.Proofs.Action
import Ambient.Proofs.Parking.Table
import Mathlib.Data.List.Induction
import Mathlib.Data.List.Nodup
import Mathlib.Logic.Function.Basic

/-
A table of parked contexts is a map from hosts, as objects, to what is parked
against them (`Parking.Runs.refines`). The table knows hosts by their addresses
only, its entries outlive the hosts, and an address is given to another host once
neither the old one nor an entry of it is left. The map (`Parking.ledger`) knows
nothing of that: it is read off the calls. By induction on the calls, with the
invariant that the entry under the address of a host that is alive is its own.
-/

namespace Ambient

/-- A new host, at an address that whoever allocates chooses. -/
def World.addHostAt (w : World) (address : Nat) : World × Host :=
  ({ w with lastNumber := w.lastNumber + 1, hosts := (w.lastNumber + 1) :: w.hosts }, ⟨w.lastNumber + 1, address⟩)

theorem World.addHost_eq (w : World) : w.addHost = w.addHostAt (w.lastNumber + 1) := rfl

namespace Parking

/-! ## Calls -/

/-- What callers do with hosts and with a table. -/
inductive Call where
  | newHost (address : Nat)
  | dropHost (h : Host)
  | store (h : Host) (node : NodeId) (singleUse : Bool)
  | resume (thread : ThreadId) (h : Host)
  | peek (h : Host)
  | clear (h : Host)
  | purge
deriving DecidableEq

/-- What a call answers. -/
inductive Answer where
  | nothing
  | host (h : Host)
  | node (id : Option NodeId)
  | removed (n : Nat)
deriving DecidableEq

/-- A process, and the hosts that callers hold. -/
structure State where
  world : World
  living : List Host

namespace State

/-- A call on a table. -/
def call (s : State) (t : TableId) : Call → State × Answer
  | .newHost address =>
    let (w, h) := s.world.addHostAt address
    (⟨w, h :: s.living⟩, .host h)
  | .dropHost h => (⟨s.world.dropHost h, s.living.filter fun k => k ≠ h⟩, .nothing)
  | .store h id singleUse => (⟨(s.world.store t h id singleUse).1, s.living⟩, .nothing)
  | .resume thread h =>
    let (w, token) := s.world.resume thread t h
    (⟨w, s.living⟩, .node (token.map Token.node))
  | .peek h => (s, .node (s.world.peek t h))
  | .clear h =>
    let (w, node) := s.world.clear t h
    (⟨w, s.living⟩, .node node)
  | .purge =>
    let (w, removed, _) := s.world.purge t
    (⟨w, s.living⟩, .removed removed)

/-- Callers name hosts that they hold. A new host gets an address that no host has that
is held and that no entry keeps from being used again. -/
def Allows (s : State) (t : TableId) : Call → Prop
  | .newHost address => address ∉ s.living.map Host.address ∧ (s.world.table t).entries.get? address = none
  | .dropHost h | .store h _ _ | .resume _ h | .peek h | .clear h => h ∈ s.living
  | .purge => True

/-- The host of an entry is gone. -/
def isDead (s : State) (p : Parked) : Bool := !(s.living.map Host.serial).contains p.host

/-- A store that never sweeps. -/
def park (s : State) (t : TableId) (h : Host) (id : NodeId) (singleUse : Bool) : State :=
  ⟨s.world.withTable t ((s.world.table t).park h id singleUse), s.living⟩

end State

/-- The states that calls on a table bring about. It is empty at first and no host is
there; whatever else threads do in between leaves the table and the hosts alone. -/
inductive Runs (t : TableId) : List Call → State → Prop
  | start {w : World} : w.table t = .empty → w.hosts = [] → Runs t [] ⟨w, []⟩
  | call {cs s} (c : Call) : Runs t cs s → s.Allows t c → Runs t (cs ++ [c]) (s.call t c).1
  | meanwhile {cs s w} : Runs t cs s → w.table t = s.world.table t → w.hosts = s.world.hosts →
    s.world.lastNumber ≤ w.lastNumber → Runs t cs ⟨w, s.living⟩

/-! ## The ledger -/

/-- What is parked against each host. -/
abbrev Ledger := Host → Option (NodeId × Bool)

/-- A store replaces; taking up removes what is for single use; clearing removes. -/
def Ledger.after (l : Ledger) : Call → Ledger
  | .store h id singleUse => Function.update l h (some (id, singleUse))
  | .resume _ h => Function.update l h ((l h).filter fun e => !e.2)
  | .clear h => Function.update l h none
  | _ => l

/-- The ledger of a history of calls. -/
def ledger (cs : List Call) : Ledger := cs.foldl Ledger.after fun _ => none

/-- The calls that ask for what is parked against a host. -/
inductive Call.Asks (h : Host) : Call → Prop
  | resume (thread : ThreadId) : Asks h (.resume thread h)
  | peek : Asks h (.peek h)
  | clear : Asks h (.clear h)

def Call.isStore : Call → Bool
  | .store _ _ _ => true
  | _ => false

/-- A call that ends what a store against a host has begun. -/
def Call.Ends (h : Host) (singleUse : Bool) : Call → Prop
  | .store k _ _ => k = h
  | .clear k => k = h
  | .resume _ k => k = h ∧ singleUse = true
  | _ => False

/-- The latest store against a host, which nothing has ended since. -/
def Standing (cs : List Call) (h : Host) (id : NodeId) (singleUse : Bool) : Prop :=
  ∃ before later, cs = before ++ .store h id singleUse :: later ∧ ∀ c ∈ later, ¬ c.Ends h singleUse

variable {t : TableId} {cs : List Call} {s : State} {c : Call} {h k : Host} {id : NodeId} {singleUse : Bool}

theorem ledger_concat (cs : List Call) (c : Call) : ledger (cs ++ [c]) = (ledger cs).after c := by
  simp [ledger]

/-- What one more call leaves of a host's entry in the ledger. -/
theorem ledger_concat_eq_some :
    ledger (cs ++ [c]) h = some (id, singleUse) ↔
      c = .store h id singleUse ∨ ledger cs h = some (id, singleUse) ∧ ¬ c.Ends h singleUse := by
  rw [ledger_concat]
  cases c with
  | store k id' once =>
    by_cases hk : h = k
    · subst hk
      simp [Ledger.after, Call.Ends]
    · simp [Ledger.after, Call.Ends, hk, Ne.symm hk]
  | resume thread k =>
    by_cases hk : h = k
    · subst hk
      simp [Ledger.after, Call.Ends, Option.filter_eq_some_iff]
    · simp [Ledger.after, Call.Ends, hk, Ne.symm hk]
  | clear k =>
    by_cases hk : h = k
    · subst hk
      simp [Ledger.after, Call.Ends]
    · simp [Ledger.after, Call.Ends, hk, Ne.symm hk]
  | _ => simp [Ledger.after, Call.Ends]

theorem standing_concat :
    Standing (cs ++ [c]) h id singleUse ↔
      c = .store h id singleUse ∨ Standing cs h id singleUse ∧ ¬ c.Ends h singleUse := by
  constructor
  · rintro ⟨before, later, he, hl⟩
    rcases List.eq_nil_or_concat later with rfl | ⟨later, c', rfl⟩
    · exact .inl (List.append_inj_right' he rfl |> List.singleton_inj.1)
    · rw [List.concat_eq_append, ← List.cons_append, ← List.append_assoc] at he
      obtain ⟨rfl, hc⟩ := List.append_inj' he rfl
      obtain rfl := List.singleton_inj.1 hc
      exact .inr ⟨⟨before, later, rfl, fun x hx => hl x (by simp [hx])⟩, hl c (by simp)⟩
  · rintro (rfl | ⟨⟨before, later, rfl, hl⟩, hc⟩)
    · exact ⟨cs, [], rfl, nofun⟩
    · refine ⟨before, later ++ [c], by simp, fun x hx => ?_⟩
      rcases List.mem_append.1 hx with hx | hx
      · exact hl x hx
      · exact List.mem_singleton.1 hx ▸ hc

/-- The ledger holds the latest store against a host that nothing has ended since. -/
theorem ledger_eq_some_iff : ledger cs h = some (id, singleUse) ↔ Standing cs h id singleUse := by
  induction cs using List.reverseRecOn with
  | nil => simp [ledger, Standing]
  | append_singleton cs c ih => rw [ledger_concat_eq_some, standing_concat, ih]

/-! ## The invariant -/

/-- The invariant of runs: hosts that are held differ in their serial numbers and in
their addresses, and the entry under the address of one is its own. -/
structure Sound (t : TableId) (cs : List Call) (s : State) : Prop where
  hosts : s.world.hosts = s.living.map Host.serial
  serials : (s.living.map Host.serial).Nodup
  addresses : (s.living.map Host.address).Nodup
  issued : ∀ h ∈ s.living, h.serial ≤ s.world.lastNumber
  past : ∀ h, ledger cs h ≠ none → h.serial ≤ s.world.lastNumber
  own : ∀ h ∈ s.living, (s.world.table t).entryAt h = (ledger cs h).map (.of h)
  stores : (s.world.table t).stores = cs.countP Call.isStore

namespace Sound

theorem alive (hs : Sound t cs s) (hh : h ∈ s.living) : s.world.hostIsAlive h.serial = true := by
  simp only [World.hostIsAlive, hs.hosts, List.contains_eq_mem, decide_eq_true_eq]
  exact List.mem_map_of_mem hh

theorem isDead_eq (hs : Sound t cs s) (p : Parked) : s.isDead p = !s.world.hostIsAlive p.host := by
  rw [State.isDead, World.hostIsAlive, hs.hosts]

/-- Hosts that are held are told apart by their addresses. -/
theorem address_eq_iff (hs : Sound t cs s) (hh : h ∈ s.living) (hk : k ∈ s.living) :
    h.address = k.address ↔ h = k :=
  ⟨List.inj_on_of_nodup_map hs.addresses hh hk, congrArg Host.address⟩

end Sound

/-! ## Answers -/

theorem table_withTable (w : World) (t : TableId) (x : ContinuationTable) : (w.withTable t x).table t = x := by
  simp [World.table, World.withTable]

/-- Resuming takes from the table and attaches to a stack. -/
theorem resume_eq (w : World) (thread : ThreadId) (t : TableId) (h : Host) :
    (w.resume thread t h).2.map Token.node = (w.take t h).2 ∧
      ∃ ambient, (w.resume thread t h).1 = { (w.take t h).1 with ambient } := by
  unfold World.resume
  split <;> rename_i hr <;> rw [hr]
  · exact ⟨rfl, _, rfl⟩
  · exact ⟨rfl, _, rfl⟩

/-- A host whose own entry stands under its address is answered what was parked. -/
theorem answer_of_own {e : Option (NodeId × Bool)} (ha : s.world.hostIsAlive h.serial = true)
    (ho : (s.world.table t).entryAt h = e.map (.of h)) (hc : c.Asks h) :
    (s.call t c).2 = .node (e.map Prod.fst) := by
  cases hc with
  | resume thread =>
    have taken : (s.world.take t h).2 = e.map Prod.fst :=
      congrArg Prod.snd (ContinuationTable.take_of_own ha ho)
    exact congrArg Answer.node ((resume_eq s.world thread t h).1.trans taken)
  | peek => exact congrArg Answer.node (ContinuationTable.peek_of_own ha ho)
  | clear => exact congrArg Answer.node (ContinuationTable.clear_of_own ho)

/-- A store without its sweep keeps the invariant of entries. -/
theorem Sound.own_park (hs : Sound t cs s) (hk : k ∈ s.living) (id : NodeId) (singleUse : Bool) (hh : h ∈ s.living) :
    ((s.world.table t).park k id singleUse).entryAt h =
      (ledger (cs ++ [.store k id singleUse]) h).map (.of h) := by
  rw [ContinuationTable.entryAt_park, ledger_concat, Ledger.after]
  by_cases he : k = h
  · subst he
    simp
  · rw [if_neg fun ha => he ((hs.address_eq_iff hk hh).1 ha), Function.update_of_ne (Ne.symm he), hs.own h hh]

/-! ## Every call keeps the invariant -/

theorem Sound.start {w : World} (ht : w.table t = .empty) (hw : w.hosts = []) : Sound t [] ⟨w, []⟩ where
  hosts := hw
  serials := .nil
  addresses := .nil
  issued := nofun
  past := fun _ hp => absurd rfl hp
  own := nofun
  stores := by rw [ht]; rfl

theorem Sound.meanwhile {w : World} (hs : Sound t cs s) (ht : w.table t = s.world.table t)
    (hw : w.hosts = s.world.hosts) (hl : s.world.lastNumber ≤ w.lastNumber) : Sound t cs ⟨w, s.living⟩ where
  hosts := hw.trans hs.hosts
  serials := hs.serials
  addresses := hs.addresses
  issued := fun h hh => Nat.le_trans (hs.issued h hh) hl
  past := fun h hp => Nat.le_trans (hs.past h hp) hl
  own := fun h hh => (congrArg (·.entryAt h) ht).trans (hs.own h hh)
  stores := (congrArg ContinuationTable.stores ht).trans hs.stores

/-- Only stores bring hosts into the ledger. -/
theorem Sound.past_concat (hs : Sound t cs s) (hc : ∀ k id singleUse, c = .store k id singleUse → k ∈ s.living)
    (hp : ledger (cs ++ [c]) h ≠ none) : h.serial ≤ s.world.lastNumber := by
  obtain ⟨e, he⟩ := Option.ne_none_iff_exists'.1 hp
  rcases ledger_concat_eq_some.1 he with hst | ⟨hold, -⟩
  · exact hs.issued h (hc _ _ _ hst)
  · exact hs.past h (by simp [hold])

/-- A call that leaves the hosts as they are. -/
theorem Sound.call_of_living (hs : Sound t cs s) {w : World} {x : ContinuationTable} (table : w.table t = x)
    (hosts : w.hosts = s.world.hosts) (last : w.lastNumber = s.world.lastNumber)
    (hc : ∀ k id once, c = .store k id once → k ∈ s.living)
    (own : ∀ h ∈ s.living, x.entryAt h = (ledger (cs ++ [c]) h).map (.of h))
    (stores : x.stores = (cs ++ [c]).countP Call.isStore) : Sound t (cs ++ [c]) ⟨w, s.living⟩ where
  hosts := hosts.trans hs.hosts
  serials := hs.serials
  addresses := hs.addresses
  issued := fun h hh => last ▸ hs.issued h hh
  past := fun h hp => last ▸ hs.past_concat hc hp
  own := by rw [table]; exact own
  stores := by rw [table]; exact stores

theorem Sound.newHost (hs : Sound t cs s) {address : Nat} (ha : s.Allows t (.newHost address)) :
    Sound t (cs ++ [.newHost address]) (s.call t (.newHost address)).1 := by
  have hledger : ledger (cs ++ [.newHost address]) = ledger cs := ledger_concat ..
  have fresh : ∀ h ∈ s.living, h.serial ≠ s.world.lastNumber + 1 := fun h hh => by
    have := hs.issued h hh
    omega
  refine ⟨by simp [State.call, World.addHostAt, hs.hosts], ?_, ?_, ?_, ?_, ?_, ?_⟩
  · refine List.nodup_cons.2 ⟨fun hm => ?_, hs.serials⟩
    obtain ⟨h, hh, he⟩ := List.mem_map.1 hm
    exact fresh h hh he
  · exact List.nodup_cons.2 ⟨ha.1, hs.addresses⟩
  · intro h hh
    rcases List.mem_cons.1 hh with rfl | hh
    · exact Nat.le_refl _
    · exact Nat.le_succ_of_le (hs.issued h hh)
  · intro h hp
    rw [hledger] at hp
    exact Nat.le_succ_of_le (hs.past h hp)
  · intro h hh
    rw [hledger]
    rcases List.mem_cons.1 hh with rfl | hh
    · -- Nothing stands under its address, and no call has named it.
      have hnone : ledger cs ⟨s.world.lastNumber + 1, address⟩ = none := by
        by_contra hp
        exact absurd (hs.past _ hp) (Nat.not_succ_le_self _)
      refine ha.2.trans ?_
      show none = (ledger cs ⟨s.world.lastNumber + 1, address⟩).map _
      rw [hnone]
      rfl
    · exact hs.own h hh
  · exact hs.stores.trans (by simp [Call.isStore])

theorem Sound.dropHost (hs : Sound t cs s) (hh : h ∈ s.living) :
    Sound t (cs ++ [.dropHost h]) (s.call t (.dropHost h)).1 := by
  have hledger : ledger (cs ++ [.dropHost h]) = ledger cs := ledger_concat ..
  have kept : (s.living.filter fun k => k ≠ h).Sublist s.living := List.filter_sublist
  refine ⟨?_, hs.serials.sublist (kept.map _), hs.addresses.sublist (kept.map _),
    fun k hk => hs.issued k (kept.subset hk), fun k hp => hs.past k (by rwa [hledger] at hp), fun k hk => ?_, ?_⟩
  · -- Serial numbers tell the hosts that are held apart.
    show (s.world.hosts.filter fun n => n != h.serial) = (s.living.filter fun k => k ≠ h).map Host.serial
    rw [hs.hosts, List.filter_map]
    refine congrArg (List.map Host.serial) (List.filter_congr fun k hk => ?_)
    by_cases hne : k = h
    · simp [hne]
    · have : k.serial ≠ h.serial := fun he => hne (List.inj_on_of_nodup_map hs.serials hk hh he)
      simp [hne, this]
  · rw [hledger]
    exact hs.own k (kept.subset hk)
  · exact hs.stores.trans (by simp [Call.isStore])

theorem Sound.store (hs : Sound t cs s) (hh : h ∈ s.living) (id : NodeId) (singleUse : Bool) :
    Sound t (cs ++ [.store h id singleUse]) (s.call t (.store h id singleUse)).1 := by
  refine hs.call_of_living (table_withTable ..) rfl rfl (fun k _ _ he => ?_) (fun k hk => ?_) ?_
  · cases he
    exact hh
  · have parked := hs.own_park hh id singleUse hk
    rw [ContinuationTable.entryAt_store_of_own (hs.alive hk) parked, parked]
  · rw [ContinuationTable.stores_store, hs.stores]
    simp [Call.isStore]

theorem Sound.resume (hs : Sound t cs s) (thread : ThreadId) (hh : h ∈ s.living) :
    Sound t (cs ++ [.resume thread h]) (s.call t (.resume thread h)).1 := by
  obtain ⟨ambient, he⟩ := (resume_eq s.world thread t h).2
  have table : (s.world.resume thread t h).1.table t = ((s.world.table t).take s.world.hostIsAlive h).1 := by
    rw [he]
    exact table_withTable ..
  have hosts : (s.world.resume thread t h).1.hosts = s.world.hosts := by rw [he]; rfl
  have last : (s.world.resume thread t h).1.lastNumber = s.world.lastNumber := by rw [he]; rfl
  have taken := ContinuationTable.take_of_own (hs.alive hh) (hs.own h hh)
  refine hs.call_of_living table hosts last nofun (fun k hk => ?_) ?_
  · rw [taken, ledger_concat, Ledger.after]
    by_cases hne : k = h
    · subst hne
      have own := hs.own k hh
      rw [Function.update_self]
      -- A single-use entry leaves both the table and the ledger.
      rcases hl : ledger cs k with _ | ⟨id, _ | _⟩ <;> rw [hl] at own <;>
        simp [ContinuationTable.entryAt_removeAt, own, Option.filter]
    · have ha : ¬ h.address = k.address := fun ha => hne ((hs.address_eq_iff hh hk).1 ha).symm
      rw [Function.update_of_ne hne, ← hs.own k hk]
      split
      · rw [ContinuationTable.entryAt_removeAt, if_neg ha]
      · rfl
  · rw [ContinuationTable.stores_take, hs.stores]
    simp [Call.isStore]

theorem Sound.clear (hs : Sound t cs s) (hh : h ∈ s.living) :
    Sound t (cs ++ [.clear h]) (s.call t (.clear h)).1 := by
  refine hs.call_of_living (table_withTable ..) rfl rfl nofun (fun k hk => ?_) ?_
  · rw [ContinuationTable.entryAt_removeAt, ledger_concat, Ledger.after]
    by_cases hne : k = h
    · simp [hne]
    · rw [if_neg fun ha => hne ((hs.address_eq_iff hh hk).1 ha).symm, Function.update_of_ne hne, hs.own k hk]
  · exact hs.stores.trans (by simp [Call.isStore])

theorem Sound.purge (hs : Sound t cs s) : Sound t (cs ++ [.purge]) (s.call t .purge).1 := by
  refine hs.call_of_living (table_withTable ..) rfl rfl nofun (fun k hk => ?_) ?_
  · rw [ContinuationTable.entryAt_purge_of_own (hs.alive hk) (hs.own k hk), hs.own k hk, ledger_concat]
    rfl
  · exact hs.stores.trans (by simp [Call.isStore])

theorem Sound.peek (hs : Sound t cs s) (h : Host) : Sound t (cs ++ [.peek h]) s := by
  refine hs.call_of_living rfl rfl rfl nofun (fun k hk => ?_) ?_
  · rw [hs.own k hk, ledger_concat]
    rfl
  · exact hs.stores.trans (by simp [Call.isStore])

theorem Sound.call (hs : Sound t cs s) (c : Call) (hc : s.Allows t c) : Sound t (cs ++ [c]) (s.call t c).1 := by
  cases c with
  | newHost address => exact hs.newHost hc
  | dropHost h => exact hs.dropHost hc
  | store h id singleUse => exact hs.store hc id singleUse
  | resume thread h => exact hs.resume thread hc
  | peek h => exact hs.peek h
  | clear h => exact hs.clear hc
  | purge => exact hs.purge

theorem Runs.sound (h : Runs t cs s) : Sound t cs s := by
  induction h with
  | start ht hw => exact .start ht hw
  | call c _ hc ih => exact ih.call c hc
  | meanwhile _ ht hw hl ih => exact ih.meanwhile ht hw hl

/-- **A table is a map from hosts to what is parked against them.** In every run of calls:

* Under the address of a host that is alive stands what the ledger holds for the host.
* Resuming, looking at and clearing what is parked against a host that is alive answer
  what the ledger says: the node of the latest store against that host that was neither
  cleared since nor, if it is for single use, taken up. So nothing comes from another
  host, not even from one that had the same address.
* A sweep, by itself or by a store, never changes such an answer.
* A sweep by itself tells how many entries of dropped hosts there were, and right after
  every 64th store none is left. -/
theorem Runs.refines (hr : Runs t cs s) :
    (∀ h ∈ s.living, (s.world.table t).entryAt h = (ledger cs h).map (.of h) ∧
      ∀ c : Call, c.Asks h → (s.call t c).2 = .node ((ledger cs h).map Prod.fst)) ∧
    (∀ h id singleUse, ledger cs h = some (id, singleUse) ↔ Standing cs h id singleUse) ∧
    (∀ h ∈ s.living, ∀ c : Call, c.Asks h →
      ((s.call t .purge).1.call t c).2 = (s.call t c).2 ∧
      ∀ k ∈ s.living, ∀ id singleUse,
        ((s.call t (.store k id singleUse)).1.call t c).2 = ((s.park t k id singleUse).call t c).2) ∧
    (s.call t .purge).2 = .removed ((s.world.table t).entries.entries.countP fun x => s.isDead x.2) ∧
    ∀ k id singleUse, ((cs ++ [Call.store k id singleUse]).countP Call.isStore) % 64 = 0 →
      ∀ x ∈ ((s.call t (.store k id singleUse)).1.world.table t).entries.entries, s.isDead x.2 = false := by
  have hs := hr.sound
  refine ⟨fun h hh => ⟨hs.own h hh, fun c hc => answer_of_own (hs.alive hh) (hs.own h hh) hc⟩, fun _ _ _ => ledger_eq_some_iff,
    fun h hh c hc => ⟨?_, fun k hk id singleUse => ?_⟩, ?_, fun k id singleUse hn x hx => ?_⟩
  · have swept := hs.purge
    have same : ledger (cs ++ [.purge]) = ledger cs := ledger_concat ..
    rw [answer_of_own (hs.alive hh) (hs.own h hh) hc, answer_of_own (swept.alive hh) (swept.own h hh) hc, same]
  · have stored := hs.store hk id singleUse
    have parked : ((s.park t k id singleUse).world.table t).entryAt h =
        (ledger (cs ++ [.store k id singleUse]) h).map (.of h) :=
      (congrArg (·.entryAt h) (table_withTable ..)).trans (hs.own_park hk id singleUse hh)
    have alive : (s.park t k id singleUse).world.hostIsAlive h.serial = true := hs.alive hh
    rw [answer_of_own (stored.alive hh) (stored.own h hh) hc, answer_of_own alive parked hc]
  · refine congrArg Answer.removed ((ContinuationTable.size_sub_size_purge ..).trans ?_)
    exact List.countP_congr fun x _ => by rw [hs.isDead_eq]
  · have due : ((s.world.table t).stores + 1) % ContinuationTable.purgeInterval = 0 := by
      rw [hs.stores, ← hn]
      simp [Call.isStore, ContinuationTable.purgeInterval]
    have table : (s.call t (.store k id singleUse)).1.world.table t =
        (s.world.table t).store s.world.hostIsAlive k id singleUse := table_withTable ..
    rw [table] at hx
    rw [hs.isDead_eq, ContinuationTable.alive_of_mem_store due hx]
    rfl

/-! ## An address that is used again -/

/-- A context is parked against a host that is dropped; once its entry is swept, another
host has its address. A context is parked against a third host. -/
def reusingCalls : List Call :=
  [.newHost 7, .store ⟨1, 7⟩ 5 true, .dropHost ⟨1, 7⟩, .purge, .newHost 7, .newHost 8, .store ⟨3, 8⟩ 6 true]

theorem runs_reusingCalls :
    Runs 0 reusingCalls (reusingCalls.foldl (fun s c => (s.call 0 c).1) ⟨World.start 0, []⟩) := by
  have start : Runs 0 [] ⟨World.start 0, []⟩ := .start rfl rfl
  have dropped := ((start.call (.newHost 7) ⟨nofun, rfl⟩).call (.store ⟨1, 7⟩ 5 true) (.head _)).call
    (.dropHost ⟨1, 7⟩) (.head _)
  have reused := (dropped.call .purge trivial).call (.newHost 7) ⟨nofun, rfl⟩
  exact (reused.call (.newHost 8) ⟨by decide, rfl⟩).call (.store ⟨3, 8⟩ 6 true) (.head _)

/-- The host that has the address now is not given what was parked against the old one. -/
theorem refines_reusingCalls :
    let s := reusingCalls.foldl (fun s c => (s.call 0 c).1) ⟨World.start 0, []⟩
    Runs 0 reusingCalls s ∧ (s.call 0 (.resume 0 ⟨2, 7⟩)).2 = .node none ∧
      (s.call 0 (.resume 0 ⟨3, 8⟩)).2 = .node (some 6) ∧ (s.call 0 .purge).2 = .removed 0 := by
  obtain ⟨answers, -, -, swept, -⟩ := runs_reusingCalls.refines
  exact ⟨runs_reusingCalls, (answers ⟨2, 7⟩ (by decide)).2 _ (.resume 0), (answers ⟨3, 8⟩ (by decide)).2 _ (.resume 0),
    swept⟩

end Parking

end Ambient
