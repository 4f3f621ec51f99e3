import Ambient.Proofs.Wire.Entries
import Ambient.Proofs.Wire.RoundTrip

/-
What a node puts on the wire is what it answers (`World.wire_view`), for requests
and for responses. Its entries hold each key once, with the value that it answers
for the key, if that is portable and the policy lets it travel. The headers are made
of those entries and of a span context, which has headers of its own. Whoever reads
them finds all the entries but one without a key, each as it was but for the sign of
what is no number (`Value.Alike`), and no other entries.
-/

namespace Ambient

/-- Entries are the view that a node gives of itself under the keys that a test
accepts. -/
structure World.Views (w : World) (id : NodeId) (accepts : String → Bool) (es : List (String × Value)) :
    Prop where
  nodup : (es.map Prod.fst).Nodup
  mem : ∀ k v, (k, v) ∈ es ↔ accepts k = true ∧ w.get id k = .ok (some v) ∧ v.isPortable = true

/-- Reading the headers yields the entries that have a key, and nothing else. -/
def Headers.Carries (h : Headers) (es : List (String × Value)) : Prop :=
  ∀ (c : Codec) (k : String),
    Option.Rel Value.Alike (if k = "" then none else lookupEntry k es) ((c.decode h).entries.get? k)

/-- A node vouches for headers: what is read from them is what it answers, under keys
that a test accepts. So no value that is hidden by a tombstone or by a write, that is
sealed, or that the policy keeps, is among it. -/
def World.Vouches (w : World) (id : NodeId) (accepts : String → Bool) (h : Headers) : Prop :=
  ∀ (c : Codec) (k : String) (y : Value), (c.decode h).entries.get? k = some y →
    k ≠ "" ∧ accepts k = true ∧ ∃ x, w.get id k = .ok (some x) ∧ x.isPortable = true ∧ x.Alike y

theorem Node.carries_shown (n : Node) (accepts : String → Bool) (f : TraceFormat) (span : Option SpanContext) :
    Headers.Carries (Codec.encode f (n.shown accepts) span) (n.shown accepts) := by
  intro c k
  refine Codec.get?_entries_decode (n.nodup_shown accepts) ?_ c f span k
  intro k v hv
  exact isPortable_shown (mem_of_lookupEntry hv)

namespace World

variable {w : World} {id : NodeId} {n : Node} {accepts : String → Bool} {es : List (String × Value)} {h : Headers}

theorem views_shown (hn : w.nodes.get? id = some n) (hp : n.phase ≠ .closed) (accepts : String → Bool) :
    w.Views id accepts (n.shown accepts) := by
  refine ⟨n.nodup_shown accepts, ?_⟩
  intro k v
  rw [Node.mem_shown, get_eq hn hp, Option.filter_eq_some_iff, Except.ok.injEq]

theorem Views.vouches (hv : w.Views id accepts es) (hc : h.Carries es) : w.Vouches id accepts h := by
  intro c k y hy
  have hrel := hc c k
  rw [hy] at hrel
  by_cases hk : k = ""
  · rw [if_pos hk] at hrel
    cases hrel
  · rw [if_neg hk] at hrel
    generalize hx : lookupEntry k es = a at hrel
    cases hrel with
    | some halike =>
      obtain ⟨haccepts, hget, hportable⟩ := (hv.mem k _).1 (mem_of_lookupEntry hx)
      exact ⟨hk, haccepts, _, hget, hportable, halike⟩

/-- **The wire view is the effective view.** An open node lists its entries for a
request and for a response, each key once, and an entry is listed just if the node
answers it, it is portable, and the policy propagates its key. The headers of either
are written from the entries and a span context alone, carry the entries that have a
key, and nothing that the node does not answer. -/
theorem wire_view (hn : w.nodes.get? id = some n) (hp : n.phase ≠ .closed) :
    (∃ es remote, w.downEntries id = .ok es ∧ w.remoteParent id = .ok remote ∧ w.Views id n.policy.flowsDown es ∧
      ∀ span, ∃ h, w.downHeaders id span = .ok h ∧ h = Codec.encode w.traceFormat es (span.or remote) ∧
        h.Carries es ∧ w.Vouches id n.policy.flowsDown h) ∧
    ∃ es h, w.upEntries id = .ok es ∧ w.Views id (fun k => (n.policy.upMode k).isGlobal) es ∧
      w.upHeaders id = .ok h ∧ h = Codec.encode w.traceFormat es none ∧ h.Carries es ∧
        w.Vouches id (fun k => (n.policy.upMode k).isGlobal) h := by
  constructor
  · have hviews := views_shown hn hp n.policy.flowsDown
    refine ⟨_, _, downEntries_eq hn hp, remoteParent_eq hn hp, hviews, ?_⟩
    intro span
    have hcarries := n.carries_shown n.policy.flowsDown w.traceFormat
      (span.or ((n.value remoteParentKey).bind Value.span?))
    exact ⟨_, downHeaders_eq hn hp span, rfl, hcarries, hviews.vouches hcarries⟩
  · have hviews := views_shown hn hp fun k => (n.policy.upMode k).isGlobal
    have hcarries := n.carries_shown (fun k => (n.policy.upMode k).isGlobal) w.traceFormat none
    exact ⟨_, _, upEntries_eq hn hp, hviews, upHeaders_eq hn hp, rfl, hcarries, hviews.vouches hcarries⟩

/-- Everything flows down but `secret`. -/
def viewPolicy : Policy :=
  ⟨1, Dict.ofList [("", ⟨some .processLocal, none, none⟩), ("list", ⟨some .processLocal, none, none⟩),
    ("hidden", ⟨some .processLocal, none, none⟩), ("object", ⟨some .processLocal, none, none⟩)]⟩

/-- A child writes over one inherited value and hides another. -/
def viewRun : List (ThreadId × Action) :=
  [.enter "parent" none viewPolicy none, .set 1 "list" (some (.text "a")), .set 1 "hidden" (some (.flag true)),
    .set 1 "object" (some (.sealed ⟨1, .label "object"⟩)), .makeActive 1, .enter "child" (some 1) viewPolicy none,
    .set 2 "list" (some (.text "b,c")), .set 2 "hidden" none, .set 2 "" (some (.text "d")),
    .set 2 "secret" (some (.text "e"))].map fun a => (0, a)

/-- Of the child only what it wrote over travels: not what was there before, nor what it
hides, nor the sealed object, nor what the policy keeps, nor what has no key. -/
theorem wire_view_child : ∃ es h,
    let w := (World.start 1).run viewRun
    w.downEntries 2 = .ok es ∧ w.downHeaders 2 none = .ok h ∧ ("list", .text "b,c") ∈ es ∧ ("", .text "d") ∈ es ∧
      (∀ v, ("list", v) ∈ es → v = .text "b,c") ∧
      (∀ k v, k = "hidden" ∨ k = "object" ∨ k = "secret" → (k, v) ∉ es) ∧
      (Codec.standard.decode h).entries.get? "list" = some (.text "b,c") ∧
      (Codec.standard.decode h).entries.get? "" = none := by
  obtain ⟨n, hn⟩ : ∃ n, ((World.start 1).run viewRun).nodes.get? 2 = some n := ⟨_, rfl⟩
  have hp : n.phase ≠ .closed := by cases hn; decide
  have haccepts : ∀ k, n.policy.flowsDown k = viewPolicy.flowsDown k := by cases hn; intro k; rfl
  obtain ⟨⟨es, remote, hes, -, hviews, hheaders⟩, -⟩ := wire_view hn hp
  obtain ⟨h, hh, -, hcarries, -⟩ := hheaders none
  have hlist : ((World.start 1).run viewRun).get 2 "list" = .ok (some (.text "b,c")) := rfl
  have hhidden : ((World.start 1).run viewRun).get 2 "hidden" = .ok none := rfl
  have hobject : ((World.start 1).run viewRun).get 2 "object" = .ok (some (.sealed ⟨1, .label "object"⟩)) := rfl
  have hnameless : ((World.start 1).run viewRun).get 2 "" = .ok (some (.text "d")) := rfl
  have hmem : ("list", .text "b,c") ∈ es := (hviews.mem _ _).2 ⟨(haccepts _).trans (by decide), hlist, rfl⟩
  refine ⟨es, h, hes, hh, hmem, (hviews.mem _ _).2 ⟨(haccepts _).trans (by decide), hnameless, rfl⟩, ?_, ?_, ?_, ?_⟩
  · intro v hv
    have hget := ((hviews.mem _ _).1 hv).2.1
    rw [hlist] at hget
    cases hget
    rfl
  · intro k v hk hv
    obtain ⟨hflows, hget, hportable⟩ := (hviews.mem _ _).1 hv
    rcases hk with rfl | rfl | rfl
    · rw [hhidden] at hget
      cases hget
    · rw [hobject] at hget
      cases hget
      cases hportable
    · rw [haccepts] at hflows
      exact absurd hflows (by decide)
  · have hrel := hcarries Codec.standard "list"
    rw [if_neg (by decide), lookupEntry_of_mem hviews.nodup hmem] at hrel
    generalize (Codec.standard.decode h).entries.get? "list" = y at hrel ⊢
    cases hrel with
    | some halike =>
      cases halike
      rfl
  · have hrel := hcarries Codec.standard ""
    rw [if_pos rfl] at hrel
    generalize (Codec.standard.decode h).entries.get? "" = y at hrel ⊢
    cases hrel
    rfl

end World

end Ambient
