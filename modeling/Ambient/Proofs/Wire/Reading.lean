import Ambient.Proofs.Wire.Entries

/-
Reading headers into a node. An open node takes over whatever the headers decode to
(`World.readDown_eq`, `World.readUp_eq`), and shows it from then on; under all other
keys it shows what it showed before (`Node.value_request`, `Node.value_response`).
The span context of a request has a key of its own among the data, and an entry may
come under that key as well. Entries are portable, and a span context is not; so
such an entry puts an end to the remote parent (`World.remoteParent_read`).
-/

namespace Ambient

/-! ## What is read is portable -/

theorem Value.isPortable_of_read {type : Option WireType} {s : String} {v : Value} (h : Value.read type s = some v) :
    v.isPortable = true := by
  match type with
  | none =>
    cases h
    rfl
  | some .flag =>
    simp only [Value.read] at h
    split at h
    · cases h
      rfl
    · split at h <;> cases h
      rfl
  | some (.integer w) =>
    obtain ⟨n, -, h⟩ := Option.bind_eq_some_iff.1 h
    split at h <;> cases h
    rfl
  | some .single =>
    obtain ⟨x, -, rfl⟩ := Option.map_eq_some_iff.1 h
    rfl
  | some .double =>
    obtain ⟨x, -, rfl⟩ := Option.map_eq_some_iff.1 h
    rfl

theorem Value.span?_of_isPortable {v : Value} (h : v.isPortable = true) : v.span? = none := by
  cases v <;> first | rfl | cases h

namespace Baggage

theorem isPortable_of_readTyped {letter : Option Char} {text : String} {v : Value}
    (h : readTyped letter text = .ok v) : v.isPortable = true := by
  unfold readTyped at h
  split at h
  · cases h
    rfl
  · split at h
    · cases h
    · split at h
      · rename_i hr
        cases h
        exact Value.isPortable_of_read hr
      · cases h

theorem isPortable_of_readSegment {s : List Char} {k : String} {v : Value} (h : readSegment s = .ok (k, v)) :
    v.isPortable = true := by
  unfold readSegment at h
  split at h
  · cases h
  · obtain ⟨⟨key, text⟩, -, h⟩ := bind_eq_ok.1 h
    obtain ⟨letter, -, h⟩ := bind_eq_ok.1 h
    obtain ⟨value, hv, h⟩ := bind_eq_ok.1 h
    cases h
    exact isPortable_of_readTyped hv

theorem isPortable_of_mem_readEntries {s k : String} {v : Value} (h : (k, v) ∈ readEntries s) : v.isPortable = true := by
  obtain ⟨p, -, hp⟩ := List.mem_filterMap.1 h
  cases hr : readSegment p with
  | error issue => simp [hr, Except.toOption] at hp
  | ok e =>
    simp only [hr, Except.toOption, Option.some.injEq] at hp
    exact isPortable_of_readSegment (hp ▸ hr)

end Baggage

/-- No object of the process comes out of headers. -/
theorem Codec.isPortable_decode {c : Codec} {h : Headers} {k : String} {v : Value}
    (hv : (c.decode h).entries.get? k = some v) : v.isPortable = true := by
  have stored : ∀ (values : List String) (d : Dict String Value),
      (∀ v, d.get? k = some v → v.isPortable = true) →
        ∀ v, (values.foldl (fun d s => Baggage.decodeInto s d) d).get? k = some v → v.isPortable = true := by
    intro values
    induction values with
    | nil => exact fun d hd => hd
    | cons s values ih =>
      intro d hd
      refine ih _ ?_
      intro v hv
      rcases Dict.get?_insertAll_cases hv with hv | hv
      · exact Baggage.isPortable_of_mem_readEntries hv
      · exact hd v hv
  exact stored _ Dict.empty nofun v hv

/-! ## What a node shows after reading -/

namespace Node

/-- What is read hides what was there. -/
theorem value_response (n : Node) (d : Decoded) (k : String) :
    (n.writeAll (d.entries.entries.map fun e => (e.1, some e.2))).value k = (d.entries.get? k).or (n.value k) := by
  have hnodup : ((d.entries.entries.map fun e => (e.1, some e.2)).map Prod.fst).Nodup := by
    simpa [List.map_map, Function.comp_def] using d.entries.nodup
  rw [value_writeAll hnodup, lookupEntry_map (fun _ v => some v)]
  show ((d.entries.get? k).map some).getD (n.value k) = _
  cases d.entries.get? k <;> rfl

/-- The span context is written last, under its own key. -/
theorem value_request (n : Node) (d : Decoded) (w : World) (k : String) :
    (n.writeAll ((w.requestEntries d).map fun e => (e.1, some e.2))).value k =
      if k = remoteParentKey then (d.span.map w.sealSpan).or ((d.entries.get? k).or (n.value k))
      else (d.entries.get? k).or (n.value k) := by
  rw [World.requestEntries, List.map_append, writeAll_append]
  cases d.span with
  | none =>
    have hnone : ∀ m : Node, m.writeAll [] = m := fun _ => rfl
    simp [hnone, value_response]
  | some s =>
    have hone : ∀ m : Node, m.writeAll [(remoteParentKey, some (w.sealSpan s))] =
        m.write remoteParentKey (some (w.sealSpan s)) := fun _ => rfl
    by_cases hk : k = remoteParentKey
    · simp [hone, hk]
    · simp [hone, hk, Ne.symm hk, value_response]

end Node

namespace World

variable {w : World} {id : NodeId} {n : Node}

/-- An open node takes over any entries. -/
theorem setAll_open (hn : w.nodes.get? id = some n) (hp : n.phase ≠ .closed) (es : List (String × Value)) :
    ∃ v, w.setAll id es = ⟨.ok (), v, []⟩ ∧ v.traceFormat = w.traceFormat ∧
      v.nodes.get? id = some (n.writeAll (es.map fun e => (e.1, some e.2))) := by
  refine ⟨_, setAll_eq hn hp es, rfl, ?_⟩
  rw [get?_withNode_self]

/-- An open node reads any request. -/
theorem readDown_eq (hn : w.nodes.get? id = some n) (hp : n.phase ≠ .closed) (c : Codec) (h : Headers) :
    (w.readDown id c h).result = .ok () ∧ (w.readDown id c h).world.traceFormat = w.traceFormat ∧
      (w.readDown id c h).world.nodes.get? id =
        some (n.writeAll ((w.requestEntries (c.decode h)).map fun e => (e.1, some e.2))) := by
  obtain ⟨v, hv, hformat, hnode⟩ := setAll_open hn hp (w.requestEntries (c.decode h))
  simp only [readDown, hv, countObject, true_and]
  split <;> exact ⟨hformat, hnode⟩

/-- An open node reads any response. -/
theorem readUp_eq (hn : w.nodes.get? id = some n) (hp : n.phase ≠ .closed) (c : Codec) (h : Headers) :
    (w.readUp id c h).result = .ok () ∧
      (w.readUp id c h).world.nodes.get? id =
        some (n.writeAll ((c.decode h).entries.entries.map fun e => (e.1, some e.2))) := by
  obtain ⟨v, hv, -, hnode⟩ := setAll_open hn hp (c.decode h).entries.entries
  simp only [readUp, hv, true_and]
  exact hnode

/-- What is left of a remote parent when headers are read: an entry of its name takes
its place. -/
def outlasting (before : Option SpanContext) (d : Decoded) : Option SpanContext :=
  if d.entries.contains remoteParentKey then none else before

theorem span?_or_decode {c : Codec} {h : Headers} (n : Node) :
    (((c.decode h).entries.get? remoteParentKey).or (n.value remoteParentKey)).bind Value.span? =
      outlasting ((n.value remoteParentKey).bind Value.span?) (c.decode h) := by
  unfold outlasting Dict.contains
  cases hv : (c.decode h).entries.get? remoteParentKey with
  | none => simp
  | some v => simp [Value.span?_of_isPortable (Codec.isPortable_decode hv)]

/-- **What becomes of the remote parent.** An open node reads any headers. After the
headers of a response its remote parent is what it was, and after those of a request it
is the span context that they carry, or what it was if they carry none; but an entry
that is called like the remote parent ends what was there. -/
theorem remoteParent_read (hn : w.nodes.get? id = some n) (hp : n.phase ≠ .closed) (c : Codec) (h : Headers) :
    ∃ before, w.remoteParent id = .ok before ∧
      (w.readUp id c h).result = .ok () ∧
      (w.readUp id c h).world.remoteParent id = .ok (outlasting before (c.decode h)) ∧
      (w.readDown id c h).result = .ok () ∧
      (w.readDown id c h).world.remoteParent id = .ok ((c.decode h).span.or (outlasting before (c.decode h))) := by
  obtain ⟨hup, hupNode⟩ := readUp_eq hn hp c h
  obtain ⟨hdown, -, hdownNode⟩ := readDown_eq hn hp c h
  refine ⟨_, remoteParent_eq hn hp, hup, ?_, hdown, ?_⟩
  · rw [remoteParent_eq hupNode (by rwa [Node.phase_writeAll]), Node.value_response, span?_or_decode]
  · rw [remoteParent_eq hdownNode (by rwa [Node.phase_writeAll]), Node.value_request, if_pos rfl, ← span?_or_decode]
    cases (c.decode h).span <;> rfl

/-- A root reads a request that comes with a span context. -/
def requestedRun : List (ThreadId × Action) :=
  [.enter "root" none bothWays none, .readDown 1 Codec.standard
    (Dict.ofList [("traceparent", "00-000000000000000000000000000000ff-0000000000000007-01")])].map fun a => (0, a)

theorem requestedRun_root : ∃ n, ((start 0).run requestedRun).nodes.get? 1 = some n ∧ n.phase ≠ .closed :=
  ⟨_, rfl, by decide⟩

theorem remoteParent_requestedRun : ((start 0).run requestedRun).remoteParent 1 = .ok (some ⟨255, 7, true⟩) := rfl

def responseEntry : Headers := Dict.ofList [("baggage", "k=x")]

/-- The entry is called like the remote parent. -/
def responseImpostor : Headers := Dict.ofList [("baggage", "remote_parent_span_context=x")]

/-- A response with another entry leaves the remote parent as it was, one with an entry
of its name ends it. -/
theorem remoteParent_read_impostor :
    let w := (start 0).run requestedRun
    (w.readUp 1 Codec.standard responseEntry).world.remoteParent 1 = .ok (some ⟨255, 7, true⟩) ∧
      (w.readUp 1 Codec.standard responseImpostor).result = .ok () ∧
      (w.readUp 1 Codec.standard responseImpostor).world.remoteParent 1 = .ok none := by
  obtain ⟨n, hn, hp⟩ := requestedRun_root
  have hentry : (Codec.standard.decode responseEntry).entries.contains remoteParentKey = false := by decide
  have himpostor : (Codec.standard.decode responseImpostor).entries.contains remoteParentKey = true := by decide
  obtain ⟨before, hbefore, -, hkept, -⟩ := remoteParent_read hn hp Codec.standard responseEntry
  obtain ⟨_, -, hresult, hended, -⟩ := remoteParent_read hn hp Codec.standard responseImpostor
  rw [remoteParent_requestedRun] at hbefore
  cases hbefore
  exact ⟨by rw [hkept, outlasting, if_neg (by simp [hentry])], hresult, by rw [hended, outlasting, if_pos himpostor]⟩

/-- Not every response leaves the remote parent as it was. -/
theorem remoteParent_not_kept :
    ¬ ∀ (w : World) (id : NodeId) (n : Node), Reachable w → w.nodes.get? id = some n → n.phase ≠ .closed →
      ∀ h, (w.readUp id Codec.standard h).world.remoteParent id = w.remoteParent id := by
  intro kept
  obtain ⟨n, hn, hp⟩ := requestedRun_root
  have ended : (((start 0).run requestedRun).readUp 1 Codec.standard responseImpostor).world.remoteParent 1 = .ok none :=
    rfl
  have same := kept _ 1 n ((Reachable.start 0).run requestedRun) hn hp responseImpostor
  rw [remoteParent_requestedRun, ended] at same
  cases same

end World

end Ambient
