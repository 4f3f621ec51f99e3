import Ambient.Proofs.Wire.Carried
import Ambient.Proofs.Wire.Names
import Ambient.Proofs.Wire.SpanHeaders
import Ambient.Wire.Codec

/-
What the data cannot change about the headers that it is written to (`Codec.encode_shape`).
Whatever characters keys and texts hold, percent coding leaves none that separates; so the
separators in a header value are those that writing puts there, one segment for each entry
(`Baggage.Shaped`), and the names of the headers come from the formats alone.
-/

namespace Ambient

open Text

theorem Text.ne_of_notMem {sep : Char} {s : List Char} (h : sep ∉ s) : ∀ c ∈ s, (c != sep) = true := by
  intro c hc
  rw [bne_iff_ne]
  rintro rfl
  exact h hc

theorem Text.mem_join {sep c : Char} {ps : List (List Char)} (h : c ∈ join sep ps) : c = sep ∨ ∃ p ∈ ps, c ∈ p := by
  fun_induction join sep ps with
  | case1 => cases h
  | case2 p => exact .inr ⟨p, List.mem_singleton_self p, h⟩
  | case3 p ps hne ih =>
    rcases List.mem_append.1 h with h | h
    · exact .inr ⟨p, List.mem_cons_self, h⟩
    · rcases List.mem_cons.1 h with rfl | h
      · exact .inl rfl
      · refine (ih h).imp_right ?_
        rintro ⟨q, hq, hc⟩
        exact ⟨q, List.mem_cons_of_mem p hq, hc⟩

/-- The characters of header values. -/
def Headers.isValueChar (c : Char) : Bool := c.isAlphanum || "-_.~%=;,".toList.contains c

theorem Headers.isValueChar_of_isCoded {c : Char} (h : isCoded c = true) : isValueChar c = true := by
  simp only [isCoded, isUnreserved, Bool.or_eq_true, beq_iff_eq] at h
  unfold isValueChar
  rcases h with ((((h | rfl) | rfl) | rfl) | rfl) | rfl
  · rw [h, Bool.true_or]
  all_goals decide

theorem Headers.isValueChar_of_isSegmentChar {c : Char} (h : Baggage.isSegmentChar c = true) :
    isValueChar c = true := by
  simp only [Baggage.isSegmentChar, Bool.or_eq_true, beq_iff_eq] at h
  rcases h with (h | rfl) | rfl
  · exact isValueChar_of_isCoded h
  all_goals decide

/-! ## The texts of span contexts -/

namespace TraceFormat

/-- No format writes a separator. -/
theorem isCoded_of_mem_written {f : TraceFormat} {s : SpanContext} {e : String × String} (he : e ∈ f.written s)
    {c : Char} (hc : c ∈ e.2.toList) : isCoded c = true := by
  cases f with
  | w3c =>
    cases List.mem_singleton.1 he
    exact isCoded_of_mem_traceparent hc
  | b3 =>
    simp only [written, List.mem_cons, List.not_mem_nil, or_false] at he
    rcases he with rfl | rfl | rfl
    · rw [String.toList_ofList] at hc
      exact (isCoded_of_mem_hex hc).1
    · rw [String.toList_ofList] at hc
      exact (isCoded_of_mem_hex hc).1
    · exact isCoded_of_mem_sampledDigit hc
  | datadog =>
    simp only [written, List.mem_cons, List.not_mem_nil, or_false] at he
    rcases he with rfl | rfl | rfl
    · rw [String.toList_ofList] at hc
      exact isCoded_of_mem_natural hc
    · rw [String.toList_ofList] at hc
      exact isCoded_of_mem_natural hc
    · exact isCoded_of_mem_sampledDigit hc

end TraceFormat

/-! ## Segments -/

namespace Baggage

/-- The shape of the segment of an entry. -/
structure Shaped (e : String × Value) (p : List Char) : Prop where
  key : p.takeWhile (· != '=') = percentEncode e.1
  equals : (p.takeWhile (· != ';')).count '=' = 1
  /-- A text names no type. -/
  text : ∀ s, e.2 = .text s → ';' ∉ p
  /-- Any other value names its type by one letter, behind the only semicolon. -/
  typed : (∀ s, e.2 ≠ .text s) → p.count ';' = 1 ∧
    ∃ letter : Char, letter.isAlpha = true ∧ p.dropWhile (· != ';') = ";type=".toList ++ [letter]

theorem isAlpha_letter (t : WireType) : t.letter.isAlpha = true := by
  rcases t with _ | w | _ | _
  case integer => cases w <;> decide
  all_goals decide

theorem count_equals_keyValue (key text : String) : (keyValue key text).count '=' = 1 := by
  have hcoded : ∀ s, (percentEncode s).count '=' = 0 := by
    intro s
    refine List.count_eq_zero.2 fun h => ?_
    exact (isCoded_ne (isCoded_of_mem_percentEncode h)).2 rfl
  unfold keyValue
  rw [List.count_append, List.count_cons_self, hcoded, hcoded]

theorem shaped_segment {e : String × Value} (h : e.2.isPortable = true) : Shaped e (segment e) := by
  obtain ⟨text, htext, hp⟩ := pair_eq_some (pair_eq_segment h)
  have hkey : '=' ∉ percentEncode e.1 := fun hc => (isCoded_ne (isCoded_of_mem_percentEncode hc)).2 rfl
  have hpair : ';' ∉ keyValue e.1 text := semicolon_notMem fun _ => mem_keyValue
  rw [hp]
  refine ⟨?_, ?_, ?_, ?_⟩
  · rw [keyValue, List.append_assoc, List.takeWhile_append_of_pos (ne_of_notMem hkey)]
    simp
  · rw [List.takeWhile_append_of_pos (ne_of_notMem hpair)]
    cases e.2.wireType <;> simp [count_equals_keyValue]
  · intro s hs
    rw [hs]
    simpa [Value.wireType] using hpair
  · intro hne
    have htyped : ∃ t, e.2.wireType = some t := by
      cases hv : e.2 with
      | text s => exact absurd hv (hne s)
      | sealed o => rw [hv] at h; cases h
      | _ => exact ⟨_, rfl⟩
    obtain ⟨t, ht⟩ := htyped
    have hproperty : ';' ∉ property t := semicolon_notMem fun _ => mem_property
    rw [ht, List.dropWhile_append_of_pos (ne_of_notMem hpair)]
    simp only [Option.toList_some, List.flatMap_cons, List.flatMap_nil, List.append_nil]
    refine ⟨?_, t.letter, isAlpha_letter t, ?_⟩
    · rw [List.count_append, List.count_cons_self, List.count_eq_zero.2 hpair, List.count_eq_zero.2 hproperty]
    · simp [property, typeAttribute]

/-- A header value is cut at its commas into the segments of the portable entries. -/
theorem split_encode {es : List (String × Value)} {s : String} (h : encode es = some s) :
    split ',' s.toList = (sortedPortable es).map segment := by
  obtain ⟨hne, rfl⟩ := encode_eq_some h
  rw [String.toList_ofList]
  refine split_join (by simpa using hne) ?_
  intro p hp hc
  obtain ⟨e, he, rfl⟩ := List.mem_map.1 hp
  have hpair := pair_eq_segment (isPortable_of_mem_sortedPortable he)
  exact (isBlank_of_isSegmentChar (isSegmentChar_of_mem_pair hpair hc)).2 rfl

theorem forall₂_shaped (es : List (String × Value)) :
    List.Forall₂ Shaped (sortedPortable es) ((sortedPortable es).map segment) := by
  rw [List.forall₂_map_right_iff, List.forall₂_same]
  intro e he
  exact shaped_segment (isPortable_of_mem_sortedPortable he)

theorem isValueChar_of_mem_encode {es : List (String × Value)} {s : String} (h : encode es = some s) {c : Char}
    (hc : c ∈ s.toList) : Headers.isValueChar c = true := by
  obtain ⟨-, rfl⟩ := encode_eq_some h
  rw [String.toList_ofList] at hc
  rcases mem_join hc with rfl | ⟨p, hp, hc⟩
  · decide
  · obtain ⟨e, he, rfl⟩ := List.mem_map.1 hp
    have hpair := pair_eq_segment (isPortable_of_mem_sortedPortable he)
    exact Headers.isValueChar_of_isSegmentChar (isSegmentChar_of_mem_pair hpair hc)

end Baggage

/-! ## Headers -/

namespace Codec

variable {f : TraceFormat} {es : List (String × Value)} {span : Option SpanContext} {name v : String}

theorem mem_declaredHeaderNames (c : Codec) (h : name = Baggage.header ∨ name ∈ f.headerNames) :
    name ∈ c.declaredHeaderNames := by
  have hall : f ∈ TraceFormat.all := by cases f <;> decide
  unfold declaredHeaderNames
  rw [List.mem_mergeSort, List.mem_eraseDups]
  simp only [List.cons_append, List.mem_cons, List.mem_append, List.mem_flatMap]
  rcases h with rfl | h
  · exact .inl rfl
  · exact .inr (.inl ⟨f, hall, h⟩)

theorem mem_spanHeaders {e : String × String} (h : e ∈ spanHeaders f span) : ∃ s, e ∈ f.written s := by
  unfold spanHeaders at h
  split at h
  · cases h
  · exact ⟨_, h⟩

theorem isValueChar_of_mem_encode (h : (encode f es span).get? name = some v) {c : Char} (hc : c ∈ v.toList) :
    Headers.isValueChar c = true := by
  rw [get?_encode, Option.or_eq_some_iff] at h
  rcases h with h | ⟨-, h⟩
  · obtain ⟨s, hs⟩ := mem_spanHeaders (mem_of_lookupEntry h)
    exact Headers.isValueChar_of_isCoded (TraceFormat.isCoded_of_mem_written hs hc)
  · split at h
    · exact Baggage.isValueChar_of_mem_encode h hc
    · cases h

/-- **Data makes no headers.** Whatever the entries are, every header has a name that the
codec declares and a value of harmless characters. The baggage header is there just if an
entry is portable; cut at its commas, it gives one segment for each portable entry, in the
shape of a segment for that entry. -/
theorem encode_shape (c : Codec) (f : TraceFormat) (es : List (String × Value)) (span : Option SpanContext) :
    (∀ name v, (encode f es span).get? name = some v →
      name ∈ c.declaredHeaderNames ∧ ∀ ch ∈ v.toList, Headers.isValueChar ch = true) ∧
    ((encode f es span).get? Baggage.header = none ↔ es.countP (fun e => e.2.isPortable) = 0) ∧
    ∀ v, (encode f es span).get? Baggage.header = some v →
      (split ',' v.toList).length = es.countP (fun e => e.2.isPortable) ∧
      ∃ sent, sent.Perm (es.filter fun e => e.2.isPortable) ∧
        List.Forall₂ Baggage.Shaped sent (split ',' v.toList) := by
  rw [get?_baggage_encode]
  refine ⟨?_, ?_, ?_⟩
  · intro name v h
    have hname := mem_keys_encode (Headers.mem_keys_of_get? h)
    exact ⟨mem_declaredHeaderNames c hname, fun ch hc => isValueChar_of_mem_encode h hc⟩
  · rw [Baggage.encode_eq_none_iff, List.countP_eq_zero]
    simp
  · intro v h
    have hperm : (Baggage.sortedPortable es).Perm (es.filter fun e => e.2.isPortable) := sortByKey_perm _
    rw [Baggage.split_encode h]
    refine ⟨?_, _, hperm, Baggage.forall₂_shaped es⟩
    rw [List.length_map, hperm.length_eq, List.countP_eq_length_filter]

/-- Separators and line ends in keys and texts, under one key twice, beside an object that
does not travel: two segments. -/
theorem encode_shape_separators :
    let es : List (String × Value) :=
      [("a=b,c;\r\n", .text "x;type=i,y=\t\"é"), ("a=b,c;\r\n", .flag true), ("object", .sealed ⟨0, .label "o"⟩)]
    ∃ v, (encode .b3 es none).get? Baggage.header = some v ∧ (∀ ch ∈ v.toList, Headers.isValueChar ch = true) ∧
      (split ',' v.toList).length = 2 ∧
      ∃ sent, sent.Perm (es.take 2) ∧ List.Forall₂ Baggage.Shaped sent (split ',' v.toList) := by
  intro es
  obtain ⟨hall, hnone, hsome⟩ := encode_shape standard .b3 es none
  cases hv : (encode .b3 es none).get? Baggage.header with
  | none => exact absurd (hnone.1 hv) (by decide)
  | some v =>
    obtain ⟨hlen, sent, hperm, hshaped⟩ := hsome v hv
    exact ⟨v, rfl, (hall _ v hv).2, hlen.trans (by decide), sent, hperm, hshaped⟩

end Codec

end Ambient
