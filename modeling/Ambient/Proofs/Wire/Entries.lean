import Ambient.Proofs.Operations
import Ambient.Proofs.Wire.Written

/-
The entries that a node puts on the wire (`Node.mem_shown`): under each key of a
kind the value that the node shows, if it is portable, and no key twice. The
headers of a request are those entries and a span context
(`World.downHeaders_eq`); the baggage header is written from the entries alone
(`World.baggage_eq`).
-/

namespace Ambient

namespace Node

variable {n : Node} {k : String} {v : Value}

/-- The entries that a node puts on the wire, of the keys that a test accepts. -/
def shown (n : Node) (accepts : String → Bool) : List (String × Value) :=
  n.effective.filterMap fun e =>
    if accepts e.1 then (e.2.filter Value.isPortable).map fun v => (e.1, v) else none

theorem wireEntries_eq_ok {accepts : String → Bool} {es : List (String × Value)} :
    n.wireEntries accepts = .ok es ↔ n.phase ≠ .closed ∧ es = n.shown accepts := by
  simp only [wireEntries, bind_eq_ok, ensure_eq_ok, contains_untilClosed, pure, Except.pure, Except.ok.injEq]
  exact ⟨fun ⟨_, h, he⟩ => ⟨h, he.symm⟩, fun ⟨h, he⟩ => ⟨(), h, he.symm⟩⟩

/-- What is inherited and not written over has other keys than what is written. -/
theorem nodup_effective (n : Node) : (n.effective.map Prod.fst).Nodup := by
  unfold effective
  rw [List.map_append, List.map_map, List.nodup_append]
  refine ⟨(n.inherited.filter fun k _ => !n.writes.contains k).nodup, n.writes.nodup, ?_⟩
  intro x hx y hy
  obtain ⟨⟨k, u⟩, hm, rfl⟩ := List.mem_map.1 hx
  obtain ⟨⟨k', u'⟩, hm', rfl⟩ := List.mem_map.1 hy
  rintro rfl
  have hk := (List.mem_filter.1 hm).2
  have hk' : n.writes.get? k = some u' := Dict.mem_entries.1 hm'
  simp [Dict.contains, hk'] at hk

theorem mem_effective : (k, some v) ∈ n.effective ↔ n.value k = some v := by
  unfold effective
  rw [List.mem_append, Dict.mem_entries, value_eq]
  have inherited : (k, some v) ∈ ((n.inherited.filter fun k _ => !n.writes.contains k).entries.map
      fun e => (e.1, some e.2)) ↔ n.inherited.get? k = some v ∧ n.writes.get? k = none := by
    rw [List.mem_map, ← Dict.mem_entries]
    constructor
    · rintro ⟨e, hm, he⟩
      obtain ⟨rfl, hv⟩ := Prod.mk.inj he
      cases hv
      obtain ⟨hm, hk⟩ := List.mem_filter.1 hm
      exact ⟨hm, by simpa [Dict.contains] using hk⟩
    · rintro ⟨hm, hk⟩
      exact ⟨(k, v), List.mem_filter.2 ⟨hm, by simp [Dict.contains, hk]⟩, rfl⟩
  rw [inherited]
  cases n.writes.get? k <;> simp

/-- What a node puts on the wire is what it shows. -/
theorem mem_shown {accepts : String → Bool} :
    (k, v) ∈ n.shown accepts ↔ accepts k = true ∧ (n.value k).filter Value.isPortable = some v := by
  simp only [shown, List.mem_filterMap, Prod.exists]
  constructor
  · rintro ⟨k', u, hm, he⟩
    split at he
    · rename_i ha
      obtain ⟨v', hv', he⟩ := Option.map_eq_some_iff.1 he
      obtain ⟨rfl, rfl⟩ := Prod.mk.inj he
      obtain ⟨rfl, hp⟩ := Option.filter_eq_some_iff.1 hv'
      exact ⟨ha, Option.filter_eq_some_iff.2 ⟨mem_effective.1 hm, hp⟩⟩
    · cases he
  · rintro ⟨ha, hv⟩
    obtain ⟨hv, hp⟩ := Option.filter_eq_some_iff.1 hv
    exact ⟨k, some v, mem_effective.2 hv, by simp [ha, hp]⟩

theorem isPortable_shown {accepts : String → Bool} (h : (k, v) ∈ n.shown accepts) : v.isPortable = true :=
  (Option.filter_eq_some_iff.1 (mem_shown.1 h).2).2

theorem nodup_shown (n : Node) (accepts : String → Bool) : ((n.shown accepts).map Prod.fst).Nodup := by
  have hs : ((n.shown accepts).map Prod.fst).Sublist (n.effective.map Prod.fst) := by
    unfold shown
    induction n.effective with
    | nil => exact List.Sublist.refl _
    | cons e es ih =>
      cases hf : (if accepts e.1 then (e.2.filter Value.isPortable).map fun v => (e.1, v) else none) with
      | none => simpa [hf] using ih.cons e.1
      | some x =>
        have hx : x.1 = e.1 := by
          split at hf
          · obtain ⟨v, -, rfl⟩ := Option.map_eq_some_iff.1 hf
            rfl
          · cases hf
        simpa [hf, hx] using ih.cons_cons e.1
  exact n.nodup_effective.sublist hs

end Node

/-! ## The headers of a request -/

namespace World

variable {w : World} {id : NodeId} {n : Node} {es : List (String × Value)}

/-- The baggage header that a node writes for a request, if it writes one. -/
def baggage (w : World) (id : NodeId) (span : Option SpanContext) : Except ContextError (Option String) :=
  (w.downHeaders id span).map fun h => h.get? Baggage.header

theorem downEntries_eq (hn : w.nodes.get? id = some n) (hp : n.phase ≠ .closed) :
    w.downEntries id = .ok (n.shown n.policy.flowsDown) :=
  ask_eq_ok.2 ⟨n, hn, Node.wireEntries_eq_ok.2 ⟨hp, rfl⟩⟩

theorem remoteParent_eq (hn : w.nodes.get? id = some n) (hp : n.phase ≠ .closed) :
    w.remoteParent id = .ok ((n.value remoteParentKey).bind Value.span?) :=
  ask_eq_ok.2 ⟨n, hn, bind_eq_ok.2 ⟨_, Node.get_eq_ok.2 ⟨hp, rfl⟩, rfl⟩⟩

theorem downHeaders_eq (hn : w.nodes.get? id = some n) (hp : n.phase ≠ .closed) (span : Option SpanContext) :
    w.downHeaders id span = .ok (Codec.encode w.traceFormat (n.shown n.policy.flowsDown)
      (span.or ((n.value remoteParentKey).bind Value.span?))) := by
  unfold downHeaders
  rw [downEntries_eq hn hp, remoteParent_eq hn hp]
  cases span <;> rfl

theorem upEntries_eq (hn : w.nodes.get? id = some n) (hp : n.phase ≠ .closed) :
    w.upEntries id = .ok (n.shown fun k => (n.policy.upMode k).isGlobal) :=
  ask_eq_ok.2 ⟨n, hn, Node.wireEntries_eq_ok.2 ⟨hp, rfl⟩⟩

theorem upHeaders_eq (hn : w.nodes.get? id = some n) (hp : n.phase ≠ .closed) :
    w.upHeaders id = .ok (Codec.encode w.traceFormat (n.shown fun k => (n.policy.upMode k).isGlobal) none) := by
  unfold upHeaders
  rw [upEntries_eq hn hp]
  rfl

/-- The baggage header is made of the entries alone, whatever span context goes along. -/
theorem baggage_eq (h : w.downEntries id = .ok es) (span : Option SpanContext) :
    w.baggage id span = .ok (Baggage.encode es) := by
  obtain ⟨n, hn, he⟩ := ask_eq_ok.1 h
  obtain ⟨hp, rfl⟩ := Node.wireEntries_eq_ok.1 he
  unfold baggage
  rw [downHeaders_eq hn hp, Except.map, Codec.get?_baggage_encode]

end World

end Ambient
