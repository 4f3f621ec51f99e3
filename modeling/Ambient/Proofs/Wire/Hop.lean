import Ambient.Proofs.Wire.Reading
import Ambient.Proofs.Wire.RoundTrip

/-
From one process to the next: a node writes the headers of a request, and a fresh
root of the same policy reads them (`World.hop_lossless`). What travels of a key
arrives as it was, nothing else does, and the root writes the same headers again,
character by character: the text is fixed by what travels
(`Node.encode_shown_congr`), and reading yields just that
(`Codec.get?_entries_decode`).
-/

namespace Ambient

open World

/-! ## What travels -/

namespace Node

variable {n : Node} {k : String} {v : Value}

/-- What travels of a key in the headers of a request. -/
def travelling (n : Node) (k : String) : Option Value :=
  if n.policy.flowsDown k then (n.value k).filter Value.isPortable else none

theorem mem_shown_down : (k, v) ∈ n.shown n.policy.flowsDown ↔ n.travelling k = some v := by
  rw [mem_shown, travelling]
  split <;> simp_all

theorem lookupEntry_shown_down (n : Node) (k : String) :
    lookupEntry k (n.shown n.policy.flowsDown) = n.travelling k := by
  refine Option.ext fun v => ?_
  rw [← mem_shown_down]
  exact ⟨mem_of_lookupEntry, lookupEntry_of_mem (n.nodup_shown _)⟩

/-- Two nodes of which the same travels write the same baggage header. -/
theorem encode_shown_congr {n m : Node} (h : ∀ k, Option.Rel Value.Alike (n.travelling k) (m.travelling k)) :
    Baggage.encode (n.shown n.policy.flowsDown) = Baggage.encode (m.shown m.policy.flowsDown) := by
  refine Baggage.encode_congr (n.nodup_shown _) (m.nodup_shown _) fun k => ?_
  rw [lookupEntry_shown_down, lookupEntry_shown_down]
  exact h k

end Node

/-! ## A fresh root reads the headers -/

/-- What a fresh root shows after it read the headers of a node: what travelled, and
the span context. -/
structure Node.Arrived (n m : Node) (span : Option SpanContext) : Prop where
  policy : ∀ k, m.policy.flowsDown k = n.policy.flowsDown k
  value : ∀ k, k ≠ remoteParentKey → Option.Rel Value.Alike (n.travelling k) (m.value k)
  remoteParent : (m.value remoteParentKey).bind Value.span? = span

namespace Node.Arrived

variable {n m : Node} {span : Option SpanContext}

/-- What arrived travels on. -/
theorem travelling (h : n.Arrived m span) (hremote : n.policy.flowsDown remoteParentKey = false) (k : String) :
    Option.Rel Value.Alike (n.travelling k) (m.travelling k) := by
  by_cases hd : n.policy.flowsDown k = true
  · have hk : k ≠ remoteParentKey := by
      rintro rfl
      rw [hremote] at hd
      cases hd
    have hrel := h.value k hk
    have hportable : ∀ v, n.travelling k = some v → v.isPortable = true := fun v hv =>
      isPortable_shown (mem_shown_down.2 hv)
    have hm : m.travelling k = (m.value k).filter Value.isPortable := by
      rw [Node.travelling, h.policy, if_pos hd]
    rw [hm]
    generalize n.travelling k = a at hrel hportable
    generalize m.value k = b at hrel
    cases hrel with
    | none => exact .none
    | some ha =>
      rw [Option.filter_some, if_pos (ha.isPortable ▸ hportable _ rfl)]
      exact .some ha
  · have hn : n.travelling k = none := if_neg hd
    have hm : m.travelling k = none := if_neg (by rwa [h.policy])
    rw [hn, hm]
    exact .none

end Node.Arrived

/-- A fresh root that reads the headers that a node wrote. -/
theorem Node.arrived_of_read {n : Node} {q : Policy} (hempty : n.policy.flowsDown "" = false)
    (hremote : n.policy.flowsDown remoteParentKey = false) (hq : q.table = n.policy.table) {f : TraceFormat}
    (hf : f ≠ .datadog) (span : Option SpanContext) (v : World) (t : ThreadId) :
    n.Arrived ((Node.fresh q t false none none Dict.empty).writeAll
      ((v.requestEntries (Codec.standard.decode (Codec.encode f (n.shown n.policy.flowsDown) span))).map
        fun e => (e.1, some e.2))) (span.bind SpanContext.valid?) := by
  generalize hd : Codec.standard.decode (Codec.encode f (n.shown n.policy.flowsDown) span) = d
  have hvalue : ∀ k, ((Node.fresh q t false none none Dict.empty).writeAll
      ((v.requestEntries d).map fun e => (e.1, some e.2))).value k =
        if k = remoteParentKey then (d.span.map v.sealSpan).or (d.entries.get? k) else d.entries.get? k := by
    intro k
    have hfresh : (Node.fresh q t false none none Dict.empty).value k = none := rfl
    rw [value_request, hfresh, Option.or_none]
  have hentries : ∀ k, Option.Rel Value.Alike (n.travelling k) (d.entries.get? k) := by
    intro k
    have hrel := Codec.get?_entries_decode (n.nodup_shown n.policy.flowsDown)
      (fun k v hv => isPortable_shown (mem_of_lookupEntry hv)) Codec.standard f span k
    rw [lookupEntry_shown_down, hd] at hrel
    by_cases hk : k = ""
    · -- Without a key nothing travels.
      have hnone : n.travelling k = none := if_neg (by simp [hk, hempty])
      rw [if_pos hk] at hrel
      rwa [hnone]
    · rwa [if_neg hk] at hrel
  refine ⟨fun k => ?_, fun k hk => ?_, ?_⟩
  · rw [policy_writeAll]
    show (q.table.settings k).downMode.isPropagated = _
    rw [hq]
    rfl
  · rw [hvalue, if_neg hk]
    exact hentries k
  · have habsent : d.entries.get? remoteParentKey = none := by
      have hnone : n.travelling remoteParentKey = none := if_neg (by simp [hremote])
      have hrel := hentries remoteParentKey
      rw [hnone] at hrel
      generalize d.entries.get? remoteParentKey = b at hrel
      cases hrel
      rfl
    rw [hvalue, if_pos rfl, habsent, Option.or_none, ← hd, Codec.span_decode_valid f _ span hf]
    cases span.bind SpanContext.valid? <;> rfl

namespace World

variable {w : World} {id : NodeId} {n : Node}

/-- **A hop to another process is lossless and stable.** An open node writes the
headers of a request, and a fresh root under the same policy reads them. The root
answers, for every key, what the node answers if that travels, and nothing
otherwise; its remote parent is the span context that was sent, if there was a valid
one; and it writes the very same headers again. -/
theorem hop_lossless {v : World} {q : Policy} (hn : w.nodes.get? id = some n) (hp : n.phase ≠ .closed)
    (hempty : n.policy.flowsDown "" = false) (hremote : n.policy.flowsDown remoteParentKey = false)
    (hf : w.traceFormat ≠ .datadog) (hq : q.table = n.policy.table) (hv : v.traceFormat = w.traceFormat)
    (t : ThreadId) (span : Option SpanContext) :
    ∃ h, w.downHeaders id span = .ok h ∧
      let entered := v.enter t none q none
      let read := entered.1.readDown entered.2 Codec.standard h
      read.result = .ok () ∧
      (∀ k, k ≠ remoteParentKey → ∃ x y, w.get id k = .ok x ∧ read.world.get entered.2 k = .ok y ∧
        Option.Rel Value.Alike (if n.policy.flowsDown k then x.filter Value.isPortable else none) y) ∧
      (∃ remote, w.remoteParent id = .ok remote ∧
        read.world.remoteParent entered.2 = .ok ((span.or remote).bind SpanContext.valid?)) ∧
      read.world.downHeaders entered.2 none = .ok h := by
  refine ⟨_, downHeaders_eq hn hp span, ?_⟩
  intro entered
  have hroot : entered.1.nodes.get? entered.2 = some (Node.fresh q t false none none Dict.empty) :=
    (get?_withNode ..).trans (if_pos rfl)
  have hformat : entered.1.traceFormat = v.traceFormat := rfl
  generalize hsent : span.or ((n.value remoteParentKey).bind Value.span?) = sent
  have harrived := n.arrived_of_read hempty hremote hq hf sent entered.1 t
  obtain ⟨hresult, hkeep, hnode⟩ := readDown_eq hroot (by simp [Node.fresh]) Codec.standard
    (Codec.encode w.traceFormat (n.shown n.policy.flowsDown) sent)
  intro read
  generalize hm : (Node.fresh q t false none none Dict.empty).writeAll _ = m at hnode harrived
  have hmp : m.phase ≠ .closed := by
    rw [← hm, Node.phase_writeAll]
    simp [Node.fresh]
  refine ⟨hresult, fun k hk => ⟨_, _, get_eq hn hp k, get_eq hnode hmp k, harrived.value k hk⟩,
    ⟨_, remoteParent_eq hn hp, ?_⟩, ?_⟩
  · rw [remoteParent_eq hnode hmp, harrived.remoteParent, hsent]
  · -- The root writes what arrived, and the span context that arrived.
    rw [downHeaders_eq hnode hmp, harrived.remoteParent, Option.none_or, Codec.encode_valid]
    have hbaggage := Node.encode_shown_congr (harrived.travelling hremote)
    rw [hkeep, hformat, hv, Codec.encode_congr hbaggage]

/-! ## What is no number, on its way -/

/-- Two keys flow down, a third one does not. -/
def hopPolicy : Policy :=
  ⟨1, Dict.ofList [("list", ⟨some .processLocal, none, none⟩), ("ratio", ⟨some .processLocal, none, none⟩),
    ("secret", ⟨none, some .global, none⟩)]⟩

def callerSpan : SpanContext := ⟨255, 7, true⟩

/-- A node with separators in a text, a negative value that is no number, and the span
context of its caller. -/
def hopRun : List (ThreadId × Action) :=
  [.enter "node" none hopPolicy none, .set 1 "list" (some (.text "a,b;c=d")), .makeActive 1,
    .set 1 "ratio" (some (.double ⟨true, Binary.double.noNumber⟩)), .set 1 "secret" (some (.flag true)),
    .set 1 remoteParentKey (some (.sealed ⟨0, .span callerSpan⟩))].map fun a => (0, a)

/-- The text and the span context arrive in another process, the sign of what is no
number is lost, and yet the headers are the same. -/
theorem hop_lossless_noNumber : ∃ h y,
    let w := (World.start 0).run hopRun
    let entered := (World.start 9).enter 3 none { hopPolicy with version := 5 } none
    let read := entered.1.readDown entered.2 Codec.standard h
    w.downHeaders 1 none = .ok h ∧ read.world.downHeaders entered.2 none = .ok h ∧
      read.world.get entered.2 "list" = .ok (some (.text "a,b;c=d")) ∧
      read.world.get entered.2 "secret" = .ok none ∧
      w.get 1 "ratio" = .ok (some (.double ⟨true, Binary.double.noNumber⟩)) ∧
      read.world.get entered.2 "ratio" = .ok (some (.double y)) ∧ y.isNaN = true ∧
      read.world.remoteParent entered.2 = .ok (some callerSpan) := by
  obtain ⟨n, hn⟩ : ∃ n, ((World.start 0).run hopRun).nodes.get? 1 = some n := ⟨_, rfl⟩
  have hp : n.phase ≠ .closed := by cases hn; decide
  have hempty : n.policy.flowsDown "" = false := by cases hn; rfl
  have hremote : n.policy.flowsDown remoteParentKey = false := by cases hn; rfl
  have htable : hopPolicy.table = n.policy.table := by cases hn; rfl
  obtain ⟨h, hsent, -, hvalues, hspan, hagain⟩ := hop_lossless (v := World.start 9)
    (q := { hopPolicy with version := 5 }) hn hp hempty hremote (by decide) htable rfl 3 none
  have hlist : ((World.start 0).run hopRun).get 1 "list" = .ok (some (.text "a,b;c=d")) := rfl
  have hsecret : ((World.start 0).run hopRun).get 1 "secret" = .ok (some (.flag true)) := rfl
  have hratio : ((World.start 0).run hopRun).get 1 "ratio" =
      .ok (some (.double ⟨true, Binary.double.noNumber⟩)) := rfl
  have hcaller : ((World.start 0).run hopRun).remoteParent 1 = .ok (some callerSpan) := rfl
  have down : ∀ k, n.policy.flowsDown k = hopPolicy.flowsDown k := by cases hn; intro k; rfl
  obtain ⟨remote, hremote, hspan⟩ := hspan
  obtain rfl := Except.ok.inj (hremote.symm.trans hcaller)
  obtain ⟨x₁, y₁, hx₁, hy₁, hrel₁⟩ := hvalues "list" (by decide)
  obtain ⟨x₂, y₂, hx₂, hy₂, hrel₂⟩ := hvalues "secret" (by decide)
  obtain ⟨x₃, y₃, hx₃, hy₃, hrel₃⟩ := hvalues "ratio" (by decide)
  obtain rfl := Except.ok.inj (hx₁.symm.trans hlist)
  obtain rfl := Except.ok.inj (hx₂.symm.trans hsecret)
  obtain rfl := Except.ok.inj (hx₃.symm.trans hratio)
  rw [down, if_pos (by decide)] at hrel₁ hrel₃
  rw [down, if_neg (by decide)] at hrel₂
  obtain rfl : y₁ = some (.text "a,b;c=d") := by
    rcases hrel₁ with ⟨⟨⟩⟩
    rfl
  obtain rfl : y₂ = none := by
    cases hrel₂
    rfl
  obtain ⟨y, rfl, hy⟩ : ∃ y, y₃ = some (.double y) ∧ y.isNaN = true := by
    rcases hrel₃ with ⟨_ | _ | ⟨-, hy⟩⟩
    · exact ⟨_, rfl, by decide⟩
    · exact ⟨_, rfl, hy⟩
  exact ⟨h, y, hsent, hagain, hy₁, hy₂, hratio, hy₃, hy, hspan⟩

end World

end Ambient
