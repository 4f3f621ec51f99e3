import Ambient.Proofs.MemoCoherence
import Ambient.Proofs.Wire.Entries
import Ambient.Proofs.Wire.KeyOrder

/-
What a synchronous child writes into a request, compared with what its parent
writes (`Reachable.child_baggage`). The memo from which the child gets its data
may hold a zero of the other sign than the one that flowed up into the parent
since, and headers show the sign (`child_baggage_differs`). But for the signs of
zeros the two headers are the same, so they are the same text where no zero
travels.
-/

namespace Ambient

open World (EntersChild)

/-! ## Forgetting the sign of zero -/

namespace Binary.Number

variable {f : Format} {x y : Number f}

/-- The same number, with the positive zero for either one. -/
def signless (x : Number f) : Number f := if x.magnitude = 0 then ⟨false, 0⟩ else x

theorem signless_eq_of_sameValue (h : x.sameValue y = true) : x.signless = y.signless := by
  simp only [sameValue, Bool.and_eq_true, beq_iff_eq, Bool.or_eq_true] at h
  obtain ⟨⟨-, hm⟩, hs⟩ := h
  unfold signless
  rw [← hm]
  split
  · rfl
  · rename_i hz
    have hn : x.negative = y.negative := hs.resolve_left hz
    cases x
    cases y
    cases hm
    cases hn
    rfl

end Binary.Number

namespace Value

variable {a b : Value}

def signless : Value → Value
  | single x => single x.signless
  | double x => double x.signless
  | v => v

/-- True of the zeros of both formats. -/
def isZeroNumber : Value → Bool
  | single x => x.magnitude == 0
  | double x => x.magnitude == 0
  | _ => false

theorem signless_of_isZeroNumber_eq_false (h : a.isZeroNumber = false) : a.signless = a := by
  cases a with
  | single x =>
    have hx : x.magnitude ≠ 0 := by simpa [isZeroNumber] using h
    simp [signless, Binary.Number.signless, hx]
  | double x =>
    have hx : x.magnitude ≠ 0 := by simpa [isZeroNumber] using h
    simp [signless, Binary.Number.signless, hx]
  | _ => rfl

theorem isZeroNumber_signless (a : Value) : a.signless.isZeroNumber = a.isZeroNumber := by
  cases a with
  | single x =>
    by_cases hx : x.magnitude = 0 <;> simp [signless, isZeroNumber, Binary.Number.signless, hx]
  | double x =>
    by_cases hx : x.magnitude = 0 <;> simp [signless, isZeroNumber, Binary.Number.signless, hx]
  | _ => rfl

/-- Equal values are both portable or both sealed; portable ones differ in the sign of
a zero at most. -/
theorem signless_eq_of_same (h : a.same b = true) :
    a.isPortable = b.isPortable ∧ (a.isPortable = true → a.signless = b.signless) := by
  cases a <;> cases b <;> simp only [same, Bool.false_eq_true, Bool.and_eq_true, beq_iff_eq] at h
  case text.text => exact ⟨rfl, fun _ => h ▸ rfl⟩
  case flag.flag => exact ⟨rfl, fun _ => h ▸ rfl⟩
  case integer.integer =>
    obtain ⟨rfl, hn⟩ := h
    exact ⟨rfl, fun _ => by rw [BitVec.eq_of_toInt_eq hn]⟩
  case single.single =>
    exact ⟨rfl, fun _ => congrArg single (Binary.Number.signless_eq_of_sameValue h)⟩
  case double.double =>
    exact ⟨rfl, fun _ => congrArg double (Binary.Number.signless_eq_of_sameValue h)⟩
  case sealed.sealed => exact ⟨rfl, fun hp => by simp [isPortable] at hp⟩

end Value

/-- What agrees travels as the same value but for the sign of a zero. -/
theorem Agrees.portable {a b : Option Value} (h : Agrees a b) :
    (a.filter Value.isPortable).map Value.signless = (b.filter Value.isPortable).map Value.signless := by
  rcases h with rfl | h
  · rfl
  match a, b, h with
  | none, none, _ => rfl
  | some a, some b, h =>
    obtain ⟨hp, hs⟩ := Value.signless_eq_of_same h
    cases ha : a.isPortable with
    | false => rw [Option.filter_some, Option.filter_some, ← hp, ha]; rfl
    | true =>
      rw [Option.filter_some, Option.filter_some, ← hp, ha]
      exact congrArg some (hs ha)

/-- Entries without the signs of zeros. -/
def signlessEntries (es : List (String × Value)) : List (String × Value) := es.map fun e => (e.1, e.2.signless)

theorem map_fst_signlessEntries (es : List (String × Value)) :
    (signlessEntries es).map Prod.fst = es.map Prod.fst := by
  simp [signlessEntries, Function.comp_def]

theorem signlessEntries_eq_self {es : List (String × Value)} (h : ∀ e ∈ es, e.2.isZeroNumber = false) :
    signlessEntries es = es := by
  have keep : ∀ e ∈ es, (e.1, e.2.signless) = e := fun e he => by
    rw [Value.signless_of_isZeroNumber_eq_false (h e he)]
  exact (List.map_congr_left keep).trans (List.map_id es)

/-- Where no zero is among the entries, nothing is forgotten. -/
theorem perm_of_signlessEntries {es fs : List (String × Value)}
    (h : (signlessEntries es).Perm (signlessEntries fs)) (hz : ∀ e ∈ es, e.2.isZeroNumber = false) :
    es.Perm fs := by
  rw [signlessEntries_eq_self hz] at h
  have hz' : ∀ e ∈ fs, e.2.isZeroNumber = false := fun e he => by
    have hm : (e.1, e.2.signless) ∈ es := h.symm.subset (List.mem_map_of_mem he)
    rw [← Value.isZeroNumber_signless]
    exact hz _ hm
  rwa [signlessEntries_eq_self hz'] at h

/-! ## Two nodes that agree -/

namespace Node

variable {n m : Node}

theorem mem_signlessEntries_shown {accepts : String → Bool} {k : String} {v : Value} :
    (k, v) ∈ signlessEntries (n.shown accepts) ↔
      accepts k = true ∧ ((n.value k).filter Value.isPortable).map Value.signless = some v := by
  simp only [signlessEntries, List.mem_map, Prod.exists, Prod.mk.injEq, Option.map_eq_some_iff]
  constructor
  · rintro ⟨k, u, hm, rfl, hv⟩
    obtain ⟨ha, hu⟩ := mem_shown.1 hm
    exact ⟨ha, u, hu, hv⟩
  · rintro ⟨ha, u, hu, hv⟩
    exact ⟨k, u, mem_shown.2 ⟨ha, hu⟩, rfl, hv⟩

/-- Nodes that agree under the keys of a kind show the same entries of it, but for the
order and for the signs of zeros. -/
theorem shown_perm {accepts : String → Bool} (h : ∀ k, accepts k = true → Agrees (n.value k) (m.value k)) :
    (signlessEntries (n.shown accepts)).Perm (signlessEntries (m.shown accepts)) := by
  have nodup : ∀ n : Node, (signlessEntries (n.shown accepts)).Nodup := fun n =>
    .of_map Prod.fst (by rw [map_fst_signlessEntries]; exact n.nodup_shown accepts)
  refine (List.perm_ext_iff_of_nodup (nodup n) (nodup m)).2 fun ⟨k, v⟩ => ?_
  rw [mem_signlessEntries_shown, mem_signlessEntries_shown]
  exact and_congr_right fun ha => by rw [(h k ha).portable]

end Node

/-! ## The header of a child -/

/-- **The memo on the wire.** In every reachable process, a child that is entered on
the thread of an open node writes the baggage header that the node itself writes, but
for the order and the signs of the zeros among its entries: there is a header for both
or for neither, and it is the same text if the node shows no zero. -/
theorem Reachable.child_baggage {w : World} (h : Reachable w) {id : NodeId} {n : Node}
    (hn : w.nodes.get? id = some n) (ho : n.phase.isOpen = true) {w' : World} {c : NodeId}
    (hc : EntersChild w n.thread id (w', c)) :
    ∃ es fs, w.downEntries id = .ok es ∧ w'.downEntries c = .ok fs ∧
      (∀ span, w.baggage id span = .ok (Baggage.encode es)) ∧
      (∀ span, w'.baggage c span = .ok (Baggage.encode fs)) ∧
      Baggage.encode (signlessEntries es) = Baggage.encode (signlessEntries fs) ∧
      (Baggage.encode es = none ↔ Baggage.encode fs = none) ∧
      ((∀ e ∈ es, e.2.isZeroNumber = false) → Baggage.encode es = Baggage.encode fs) := by
  have hs := h.sound.node hn
  have hp : n.phase ≠ .closed := Phase.ne_closed_of_isOpen ho
  have hj : n.joins n.thread = true := by simp [Node.joins, ho]
  have hchild := hc.child hn
  have hp' : (n.child id n.thread).phase ≠ .closed := by simp [Node.child, Node.fresh]
  have hperm : (signlessEntries (n.shown n.policy.flowsDown)).Perm
      (signlessEntries ((n.child id n.thread).shown n.policy.flowsDown)) := by
    refine Node.shown_perm fun k hk => ?_
    have hv : (n.child id n.thread).value k = n.snapshot.get? k := by
      simp [Node.value_eq, Node.child, Node.fresh, Node.handDown, hj]
    have hd : n.downValue k = n.value k := by simp [Node.downValue, hk]
    rw [hv, ← hd]
    exact (hs.snapshot ho k).symm
  have portable : ∀ m : Node, ∀ e ∈ m.shown n.policy.flowsDown, e.2.isPortable = true := fun m e he =>
    (Option.filter_eq_some_iff.1 (Node.mem_shown.1 he).2).2
  have none_iff : ∀ m : Node,
      Baggage.encode (m.shown n.policy.flowsDown) = none ↔ (m.shown n.policy.flowsDown).length = 0 := by
    intro m
    rw [Baggage.encode_eq_none_iff, List.length_eq_zero_iff, List.eq_nil_iff_forall_not_mem]
    exact forall_congr' fun e =>
      ⟨fun h he => absurd (portable m e he) (by simp [h he]), fun h he => absurd he h⟩
  have hl := hperm.length_eq
  rw [signlessEntries, signlessEntries, List.length_map, List.length_map] at hl
  have hes := World.downEntries_eq hn hp
  have hfs : w'.downEntries c = .ok ((n.child id n.thread).shown n.policy.flowsDown) :=
    World.downEntries_eq hchild hp'
  refine ⟨_, _, hes, hfs, World.baggage_eq hes, World.baggage_eq hfs, ?_, ?_, fun hz => ?_⟩
  · refine Baggage.encode_perm ?_ hperm
    rw [map_fst_signlessEntries]
    exact n.nodup_shown _
  · rw [none_iff, none_iff, hl]
  · exact Baggage.encode_perm (n.nodup_shown _) (perm_of_signlessEntries hperm hz)

/-! ## Zeros of both signs -/

/-- The one value that a node shows, a zero of some sign. -/
def zeroEntries (negative : Bool) : List (String × Value) := [("k", .double ⟨negative, 0⟩)]

theorem encode_zeroEntries : Baggage.encode (zeroEntries true) = some "k=-0;type=d" ∧
    Baggage.encode (zeroEntries false) = some "k=0;type=d" := by
  constructor <;> decide +kernel

theorem downEntries_zerosRun : ((World.start 0).run zerosRun).downEntries 1 = .ok (zeroEntries true) := by rfl

/-- The node is open and shows the negative zero; a child gets the positive one. -/
theorem zerosRun_child : ∃ n w' c, ((World.start 0).run zerosRun).nodes.get? 1 = some n ∧
    n.phase.isOpen = true ∧ EntersChild ((World.start 0).run zerosRun) n.thread 1 (w', c) ∧
      w'.downEntries c = .ok (zeroEntries false) := by
  obtain ⟨n, hn⟩ : ∃ n, ((World.start 0).run zerosRun).nodes.get? 1 = some n := ⟨_, rfl⟩
  have ho : n.phase.isOpen = true := by cases hn; rfl
  obtain ⟨w', c, hc⟩ : ∃ w' c, EntersChild ((World.start 0).run zerosRun) n.thread 1 (w', c) :=
    ⟨_, _, .direct bothWays none⟩
  have hfs := World.downEntries_eq (hc.child hn) (by simp [Node.child, Node.fresh])
  have hz : (n.child 1 n.thread).shown (n.child 1 n.thread).policy.flowsDown = zeroEntries false := by
    cases hn
    rfl
  exact ⟨n, w', c, hn, ho, hc, hz ▸ hfs⟩

/-- A negative zero flowed up into the node and left the memo as it was: node and child
write different texts, which are the same without the sign. -/
theorem child_baggage_zeros : ∃ w' c, (∃ n, ((World.start 0).run zerosRun).nodes.get? 1 = some n ∧
    n.phase.isOpen = true ∧ EntersChild ((World.start 0).run zerosRun) n.thread 1 (w', c)) ∧
      (∀ span, ((World.start 0).run zerosRun).baggage 1 span = .ok (some "k=-0;type=d")) ∧
      (∀ span, w'.baggage c span = .ok (some "k=0;type=d")) ∧
      Baggage.encode (signlessEntries (zeroEntries true)) = Baggage.encode (signlessEntries (zeroEntries false)) := by
  have hr : Reachable ((World.start 0).run zerosRun) := (Reachable.start 0).run zerosRun
  obtain ⟨n, w', c, hn, ho, hc, hz⟩ := zerosRun_child
  obtain ⟨es, fs, hes, hfs, hbn, hbc, hsign, -⟩ := hr.child_baggage hn ho hc
  cases downEntries_zerosRun.symm.trans hes
  cases hz.symm.trans hfs
  rw [encode_zeroEntries.1] at hbn
  rw [encode_zeroEntries.2] at hbc
  exact ⟨w', c, ⟨n, hn, ho, hc⟩, hbn, hbc, hsign⟩

/-- A node and a child of it do not always write the same text. -/
theorem child_baggage_differs : ¬ ∀ w, Reachable w → ∀ id n, w.nodes.get? id = some n →
    n.phase.isOpen = true → ∀ w' c, EntersChild w n.thread id (w', c) →
      ∀ span, w'.baggage c span = w.baggage id span := by
  intro same
  obtain ⟨n, w', c, hn, ho, hc, hz⟩ := zerosRun_child
  have he := same _ ((Reachable.start 0).run zerosRun) 1 n hn ho w' c hc none
  rw [World.baggage_eq hz, World.baggage_eq downEntries_zerosRun, encode_zeroEntries.1, encode_zeroEntries.2] at he
  exact absurd he (by decide)

end Ambient
