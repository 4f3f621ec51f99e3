import Ambient.Proofs.Dict
import Ambient.Wire.Codec

/-
The headers that are written for entries and a span context, one by one
(`Codec.get?_encode`). Their names have no capital letters, so reading them does
not depend on the case of names (`Codec.lookup_encode`).
-/

namespace Ambient

open Text

/-! ## Look-ups -/

/-- A name without capital letters. -/
def IsLower (s : String) : Prop := lower s.toList = s.toList

instance : DecidablePred IsLower := fun s => inferInstanceAs (Decidable (lower s.toList = s.toList))

namespace Headers

/-- Where no name has capital letters, the case of names does not matter. -/
theorem lookup_eq_get? {h : Headers} (hh : ∀ x ∈ h.keys, IsLower x) {name : String} (hn : IsLower name) :
    h.lookup name = h.get? name := by
  unfold lookup
  cases hg : h.get? name with
  | some v => rfl
  | none =>
    have hf : h.entries.find? (fun e => sameIgnoringCase e.1 name) = none := by
      rw [List.find?_eq_none]
      rintro ⟨x, v⟩ hm hs
      have hx : IsLower x := hh x (List.mem_map.2 ⟨(x, v), hm, rfl⟩)
      have he : x = name := by
        unfold sameIgnoringCase at hs
        rw [beq_iff_eq, hx, hn] at hs
        exact String.toList_inj.1 hs
      subst he
      rw [Dict.mem_entries.1 hm] at hg
      cases hg
    rw [hf]
    rfl

end Headers

namespace TraceFormat

variable {f : TraceFormat} {s : SpanContext} {name v : String}

theorem get?_inject (f : TraceFormat) (s : SpanContext) (h : Headers) (name : String) :
    (f.inject s h).get? name = (lookupEntry name (f.written s)).or (h.get? name) := by
  have hnodup : ((f.written s).map Prod.fst).Nodup := by
    rw [map_fst_written]
    cases f <;> decide
  exact Dict.get?_insertAll hnodup h name

/-- A header that is written is found, whatever was there. -/
theorem lookup_inject (hv : lookupEntry name (f.written s) = some v) (h : Headers) :
    (f.inject s h).lookup name = some v := by
  unfold Headers.lookup
  rw [get?_inject, hv]
  rfl

/-- A header that is not among those of the format stays as it was. -/
theorem get?_inject_of_notMem (hn : name ∉ f.headerNames) (s : SpanContext) (h : Headers) :
    (f.inject s h).get? name = h.get? name := by
  have habsent : lookupEntry name (f.written s) = none := by
    rw [lookupEntry_eq_none, map_fst_written]
    exact hn
  rw [get?_inject, habsent, Option.none_or]

end TraceFormat

namespace Codec

/-- The headers that are written for a span context. -/
def spanHeaders (f : TraceFormat) (span : Option SpanContext) : List (String × String) :=
  match span.bind SpanContext.valid? with
  | none => []
  | some s => f.written s

/-- The headers that are written for entries. -/
def entryHeaders (es : List (String × Value)) : Headers :=
  match Baggage.encode es with
  | none => Dict.empty
  | some v => Dict.empty.insert Baggage.header v

theorem encode_eq (f : TraceFormat) (es : List (String × Value)) (span : Option SpanContext) :
    encode f es span = (entryHeaders es).insertAll (spanHeaders f span) := by
  unfold encode spanHeaders
  cases span.bind SpanContext.valid? <;> rfl

theorem spanHeaders_of_valid (f : TraceFormat) {s : SpanContext} (hs : s.isValid = true) :
    spanHeaders f (some s) = f.written s := by
  unfold spanHeaders SpanContext.valid?
  rw [Option.bind_some, if_pos hs]

/-- A valid span context is written over the header of the entries. -/
theorem encode_of_valid (f : TraceFormat) (es : List (String × Value)) {s : SpanContext} (hs : s.isValid = true) :
    encode f es (some s) = f.inject s (entryHeaders es) := by
  rw [encode_eq, spanHeaders_of_valid f hs]
  rfl

theorem map_fst_spanHeaders (f : TraceFormat) (span : Option SpanContext) :
    (spanHeaders f span).map Prod.fst = [] ∨ (spanHeaders f span).map Prod.fst = f.headerNames := by
  unfold spanHeaders
  cases span.bind SpanContext.valid? with
  | none => exact .inl rfl
  | some s => exact .inr (f.map_fst_written s)

theorem nodup_spanHeaders (f : TraceFormat) (span : Option SpanContext) :
    ((spanHeaders f span).map Prod.fst).Nodup := by
  rcases map_fst_spanHeaders f span with h | h <;> rw [h]
  · exact List.nodup_nil
  · cases f <;> decide

theorem isLower_of_mem_headerNames {f : TraceFormat} {x : String} (h : x ∈ f.headerNames) : IsLower x := by
  have all : ∀ x ∈ f.headerNames, IsLower x := by cases f <;> decide
  exact all x h

/-- A header has the name of the entries or one of the names of the format. -/
theorem mem_keys_encode {f : TraceFormat} {es : List (String × Value)} {span : Option SpanContext} {x : String}
    (h : x ∈ (encode f es span).keys) : x = Baggage.header ∨ x ∈ f.headerNames := by
  rw [encode_eq] at h
  rcases Dict.mem_keys_insertAll h with h | h
  · left
    unfold entryHeaders at h
    split at h
    · cases h
    · exact List.mem_singleton.1 h
  · right
    rcases map_fst_spanHeaders f span with hs | hs <;> rw [hs] at h
    · cases h
    · exact h

theorem isLower_of_mem_keys_encode {f : TraceFormat} {es : List (String × Value)} {span : Option SpanContext}
    {x : String} (h : x ∈ (encode f es span).keys) : IsLower x := by
  rcases mem_keys_encode h with rfl | h
  · decide
  · exact isLower_of_mem_headerNames h

/-- Every header is that of the entries or one of the span context. -/
theorem get?_encode (f : TraceFormat) (es : List (String × Value)) (span : Option SpanContext) (name : String) :
    (encode f es span).get? name =
      (lookupEntry name (spanHeaders f span)).or (if Baggage.header = name then Baggage.encode es else none) := by
  have he : (entryHeaders es).get? name = if Baggage.header = name then Baggage.encode es else none := by
    unfold entryHeaders
    cases Baggage.encode es <;> simp
  rw [encode_eq, Dict.get?_insertAll (nodup_spanHeaders f span), he]

/-- A header that no format writes is that of the entries, whatever span context goes along. -/
theorem get?_encode_of_notMem {f : TraceFormat} {name : String} (h : name ∉ f.headerNames)
    (es : List (String × Value)) (span : Option SpanContext) :
    (encode f es span).get? name = if Baggage.header = name then Baggage.encode es else none := by
  have habsent : name ∉ (spanHeaders f span).map Prod.fst := by
    rcases map_fst_spanHeaders f span with hs | hs <;> rw [hs]
    · exact List.not_mem_nil
    · exact h
  rw [get?_encode, lookupEntry_eq_none.2 habsent, Option.none_or]

theorem get?_baggage_encode (f : TraceFormat) (es : List (String × Value)) (span : Option SpanContext) :
    (encode f es span).get? Baggage.header = Baggage.encode es := by
  rw [get?_encode_of_notMem (by cases f <;> decide), if_pos rfl]

theorem get?_legacy_encode (f : TraceFormat) (es : List (String × Value)) (span : Option SpanContext) :
    (encode f es span).get? Baggage.legacyHeader = none := by
  rw [get?_encode_of_notMem (by cases f <;> decide), if_neg (by decide)]

/-- No written name has capital letters. -/
theorem lookup_encode (f : TraceFormat) (es : List (String × Value)) (span : Option SpanContext) {name : String}
    (hn : IsLower name) : (encode f es span).lookup name = (encode f es span).get? name :=
  Headers.lookup_eq_get? (fun _ => isLower_of_mem_keys_encode) hn

end Codec

end Ambient
