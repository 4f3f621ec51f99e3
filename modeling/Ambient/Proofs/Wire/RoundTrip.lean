import Ambient.Proofs.Wire.Carried
import Ambient.Proofs.Wire.SpanHeaders

/-
What is written into headers is read out of them (`Codec.decode_encode`): the map
that the carried entries make, and the span context.
-/

namespace Ambient

namespace Codec

/-- The header of the entries is the only one that is read for entries. -/
theorem baggage_encode (f : TraceFormat) (es : List (String × Value)) (span : Option SpanContext) :
    baggageHeaders.filterMap (encode f es span).lookup = (Baggage.encode es).toList := by
  have hlegacy : (encode f es span).lookup Baggage.legacyHeader = none :=
    (lookup_encode f es span (by decide)).trans (get?_legacy_encode f es span)
  have hheader : (encode f es span).lookup Baggage.header = Baggage.encode es :=
    (lookup_encode f es span (by decide)).trans (get?_baggage_encode f es span)
  unfold baggageHeaders
  rw [List.filterMap_cons_none hlegacy]
  cases he : Baggage.encode es with
  | none => rw [List.filterMap_cons_none (hheader.trans he)]; rfl
  | some v => rw [List.filterMap_cons_some (hheader.trans he)]; rfl

/-- The entries are read as the map that the carried ones make in the given order; so
the last carried entry of a key counts. The span context is read as it was given, or
as none if there was none, unless a format cut its trace id. -/
theorem decode_encode (f : TraceFormat) (es : List (String × Value)) (span : Option SpanContext)
    (hs : ∀ s, span = some s → s.isValid = true) :
    (∀ k, Option.Rel Value.Alike ((Dict.ofList (Baggage.carried es)).get? k)
      ((standard.decode (encode f es span)).entries.get? k)) ∧
    ((f = .datadog → ∀ s, span = some s → s.traceId.toNat < Nat.pow 2 64) →
      (standard.decode (encode f es span)).span = span) := by
  refine ⟨fun k => ?_, span_decode_encode f es hs⟩
  have hentries : (standard.decode (encode f es span)).entries =
      (Baggage.encode es).toList.foldl (fun d v => Baggage.decodeInto v d) Dict.empty := by
    unfold decode
    rw [baggage_encode]
  rw [hentries]
  exact Baggage.get?_decodeInto_encode es k

/-- Of two entries under one key the last counts, and an entry without a key is lost. -/
theorem decode_encode_repeated_key :
    ∃ d, standard.decode (encode .datadog [("k", .text "a,b"), ("k", .flag true), ("", .text "c")]
        (some ⟨1, 2, true⟩)) = d ∧
      d.entries.get? "k" = some (.flag true) ∧ d.entries.get? "" = none ∧ d.span = some ⟨1, 2, true⟩ := by
  obtain ⟨hentries, hspan⟩ := decode_encode .datadog [("k", .text "a,b"), ("k", .flag true), ("", .text "c")]
    (some ⟨1, 2, true⟩) (by rintro _ ⟨⟩; decide)
  refine ⟨_, rfl, ?_, ?_, hspan fun _ => by rintro _ ⟨⟩; decide⟩
  · have hk := hentries "k"
    have hcarried : (Dict.ofList (Baggage.carried [("k", .text "a,b"), ("k", .flag true), ("", .text "c")])).get? "k" =
        some (.flag true) := by decide
    rw [hcarried] at hk
    generalize Dict.get? _ "k" = v at hk ⊢
    rcases hk with ⟨⟨⟩⟩
    rfl
  · have hk := hentries ""
    have hcarried : (Dict.ofList (Baggage.carried [("k", .text "a,b"), ("k", .flag true), ("", .text "c")])).get? "" =
        none := by decide
    rw [hcarried] at hk
    generalize Dict.get? _ "" = v at hk ⊢
    cases hk
    rfl

/-! ## Distinct portable entries, any span context -/

theorem encode_valid (f : TraceFormat) (es : List (String × Value)) (span : Option SpanContext) :
    encode f es (span.bind SpanContext.valid?) = encode f es span := by
  have same : (span.bind SpanContext.valid?).bind SpanContext.valid? = span.bind SpanContext.valid? := by
    cases span with
    | none => rfl
    | some s =>
      simp only [Option.bind_some, SpanContext.valid?]
      split
      · rename_i hs
        simp [SpanContext.valid?, hs]
      · rfl
  simp only [encode, same]

theorem encode_congr {es fs : List (String × Value)} (h : Baggage.encode es = Baggage.encode fs) (f : TraceFormat)
    (span : Option SpanContext) : encode f es span = encode f fs span := by
  rw [encode_eq, encode_eq, entryHeaders, entryHeaders, h]

/-- A span context that is not valid is not sent; a valid one arrives. -/
theorem span_decode_valid (f : TraceFormat) (es : List (String × Value)) (span : Option SpanContext) (hf : f ≠ .datadog) :
    (standard.decode (encode f es span)).span = span.bind SpanContext.valid? := by
  rw [← encode_valid]
  refine span_decode_encode f es (fun s hs => ?_) fun h => absurd h hf
  obtain ⟨s', -, hv⟩ := Option.bind_eq_some_iff.1 hs
  unfold SpanContext.valid? at hv
  split at hv
  · rename_i h
    exact Option.some.inj hv ▸ h
  · cases hv

/-- Distinct portable entries arrive, key by key, whatever extractors read along; only
one without a key is lost. -/
theorem get?_entries_decode {es : List (String × Value)} (hes : (es.map Prod.fst).Nodup)
    (hp : ∀ k v, lookupEntry k es = some v → v.isPortable = true) (c : Codec) (f : TraceFormat)
    (span : Option SpanContext) (k : String) :
    Option.Rel Value.Alike (if k = "" then none else lookupEntry k es)
      ((c.decode (encode f es span)).entries.get? k) := by
  have hc : Baggage.carried es = es.filter fun e => e.1 != "" :=
    List.filter_congr fun e he => by simp [hp e.1 e.2 (lookupEntry_of_mem hes he)]
  have hd : (Dict.ofList (Baggage.carried es)).get? k = if k = "" then none else lookupEntry k es := by
    rw [hc, Dict.ofList, Dict.get?_insertAll (hes.sublist (List.filter_sublist.map _)),
      lookupEntry_filter_key (fun x => x != ""), Dict.get?_empty, Option.or_none]
    by_cases hk : k = "" <;> simp [hk]
  have hk := Baggage.get?_decodeInto_encode es k
  rw [hd] at hk
  unfold decode
  rw [baggage_encode]
  exact hk

end Codec

end Ambient
