import Ambient.Proofs.Text.Digits
import Ambient.Proofs.Text.Percent
import Ambient.Proofs.Wire.Written

/-
The span context in the headers of a message (`Codec.span_decode_encode`): each
format reads back what it wrote, and finds nothing in what another format wrote,
so the order in which they are tried does not matter.
-/

namespace Ambient

open Text

/-! ## Texts of ids -/

theorem isCoded_of_mem_hex {w n : Nat} {c : Char} (h : c ∈ hex w n) : isCoded c = true ∧ TraceFormat.isLowerHex c = true := by
  have digit : ∀ m : Fin 16, isCoded (hexDigit m) = true ∧ TraceFormat.isLowerHex (hexDigit m) = true := by decide
  induction w generalizing n with
  | zero => cases h
  | succ w ih =>
    rcases List.mem_append.1 h with h | h
    · exact ih h
    · cases List.mem_singleton.1 h
      exact digit ⟨n % 16, Nat.mod_lt n (by decide)⟩

theorem trim_hex (w n : Nat) : trim (hex w n) = hex w n :=
  trim_of_all fun _ hc => isBlank_of_isCoded (isCoded_of_mem_hex hc).1

theorem isCoded_of_mem_natural {n : Nat} {c : Char} (h : c ∈ natural n) : isCoded c = true := by
  simp [isCoded, isUnreserved, Char.isAlphanum, isDigit_of_mem_natural h]

theorem trim_natural (n : Nat) : trim (natural n) = natural n :=
  trim_of_all fun _ hc => isBlank_of_isCoded (isCoded_of_mem_natural hc)

/-! ## Trace ids of 64 bits -/

namespace SpanContext

variable {s : SpanContext}

/-- The same span, with the lower half of its trace id. -/
def lowerHalf (s : SpanContext) : SpanContext := { s with traceId := (s.traceId.setWidth 64).setWidth 128 }

theorem toNat_lowerHalf (s : SpanContext) : s.lowerHalf.traceId.toNat = s.traceId.toNat % Nat.pow 2 64 := by
  have hlower : s.traceId.toNat % Nat.pow 2 64 < Nat.pow 2 128 := (Nat.mod_lt _ (by decide)).trans (by decide)
  unfold lowerHalf
  rw [BitVec.toNat_setWidth, BitVec.toNat_setWidth]
  exact Nat.mod_eq_of_lt hlower

theorem lowerHalf_eq (h : s.traceId.toNat < Nat.pow 2 64) : s.lowerHalf = s := by
  have htrace : s.lowerHalf.traceId = s.traceId := by
    apply BitVec.eq_of_toNat_eq
    rw [toNat_lowerHalf, Nat.mod_eq_of_lt h]
  calc s.lowerHalf = ⟨s.lowerHalf.traceId, s.spanId, s.sampled⟩ := rfl
    _ = s := by rw [htrace]

/-- A valid span context keeps a trace id unless its lower half is zero. -/
theorem isValid_lowerHalf (h : s.isValid = true) : s.lowerHalf.isValid = !decide (Nat.pow 2 64 ∣ s.traceId.toNat) := by
  have hspan : (s.spanId != 0) = true := by
    rw [isValid, Bool.and_eq_true] at h
    exact h.2
  have htrace : s.lowerHalf.traceId = 0 ↔ Nat.pow 2 64 ∣ s.traceId.toNat := by
    rw [← BitVec.toNat_inj, toNat_lowerHalf, Nat.dvd_iff_mod_eq_zero]
    rfl
  rw [isValid]
  show (s.lowerHalf.traceId != 0 && s.spanId != 0) = _
  rw [hspan, Bool.and_true, bne, beq_eq_decide, decide_eq_decide.2 htrace]

end SpanContext

namespace TraceFormat

/-! ## Fields of fixed width -/

theorem takeField_hex (w n : Nat) (s : List Char) : takeField w (hex w n ++ s) = some (hex w n, s) := by
  have ht : (hex w n ++ s).take w = hex w n := List.take_left' (length_hex w n)
  have hd : (hex w n ++ s).drop w = s := List.drop_left' (length_hex w n)
  have ha : (hex w n).all isLowerHex = true := List.all_eq_true.2 fun c hc => (isCoded_of_mem_hex hc).2
  unfold takeField
  dsimp only
  rw [ht, hd, length_hex, ha]
  exact if_pos ⟨rfl, rfl⟩

theorem takeField_hex_nil (w n : Nat) : takeField w (hex w n) = some (hex w n, []) := by
  have h := takeField_hex w n []
  rwa [List.append_nil] at h

/-- The number in the field for the flags. -/
def flagNumber (s : SpanContext) : Nat := if s.sampled then 1 else 0

theorem toList_traceparent (s : SpanContext) : (traceparent s).toList =
    hex 2 0 ++ '-' :: (s.traceHex ++ '-' :: (s.spanHex ++ '-' :: hex 2 (flagNumber s))) := by
  have hf : (if s.sampled then "-01" else "-00" : String).toList = '-' :: hex 2 (flagNumber s) := by
    unfold flagNumber
    cases s.sampled <;> rfl
  have hv : ("00-" : String).toList = hex 2 0 ++ ['-'] := rfl
  have hd : ("-" : String).toList = ['-'] := rfl
  unfold traceparent
  simp only [String.toList_append, String.toList_ofList, hf, hv, hd, List.append_assoc, List.cons_append,
    List.nil_append]

theorem isCoded_of_mem_traceparent {s : SpanContext} {c : Char} (h : c ∈ (traceparent s).toList) :
    isCoded c = true := by
  rw [toList_traceparent] at h
  simp only [List.mem_append, List.mem_cons] at h
  rcases h with h | rfl | h | rfl | h | rfl | h
  · exact (isCoded_of_mem_hex h).1
  · decide
  · exact (isCoded_of_mem_hex h).1
  · decide
  · exact (isCoded_of_mem_hex h).1
  · decide
  · exact (isCoded_of_mem_hex h).1

theorem trim_traceparent (s : SpanContext) : trim (traceparent s).toList = (traceparent s).toList :=
  trim_of_all fun _ hc => isBlank_of_isCoded (isCoded_of_mem_traceparent hc)

theorem read_traceparent (s : SpanContext) : Traceparent.read (traceparent s).toList =
    some ⟨hex 2 0, s.traceHex, s.spanHex, hex 2 (flagNumber s), []⟩ := by
  rw [toList_traceparent]
  simp only [Traceparent.read, takeField_hex, takeField_hex_nil, SpanContext.traceHex, SpanContext.spanHex, takeDash,
    isTail, if_true, bind, Option.bind]

theorem spanContext_traceparent {s : SpanContext} (h : s.isValid = true) :
    Traceparent.spanContext ⟨hex 2 0, s.traceHex, s.spanHex, hex 2 (flagNumber s), []⟩ = some s := by
  have hv : ¬ hex 2 0 = "ff".toList := by decide
  have hf : readHex 2 (hex 2 (flagNumber s)) = some (flagNumber s) := by
    rw [readHex_hex]
    unfold flagNumber
    cases s.sampled <;> rfl
  have hs : (flagNumber s % 2 == 1) = s.sampled := by
    unfold flagNumber
    cases s.sampled <;> rfl
  simp only [Traceparent.spanContext, if_neg hv, ne_eq, not_true_eq_false, and_false, if_false,
    SpanContext.readTraceId_traceHex, SpanContext.readSpanId_spanHex, hf, hs, bind, Option.bind,
    SpanContext.valid?]
  exact if_pos h

/-! ## Reading back -/

section Extract

variable {h : Headers} {s : SpanContext}

theorem trimmed_eq_none {name : String} (hl : h.lookup name = none) : trimmed h name = none := by
  unfold trimmed
  rw [hl, Option.map_none]

theorem extractW3c_eq_none (hl : h.lookup traceparentHeader = none) : extractW3c h = none := by
  unfold extractW3c
  rw [trimmed_eq_none hl, Option.bind_none]

theorem extractB3_eq_none (hl : h.lookup b3TraceIdHeader = none) : extractB3 h = none := by
  unfold extractB3
  rw [trimmed_eq_none hl]
  rfl

theorem extractDatadog_eq_none (hl : h.lookup datadogTraceIdHeader = none) : extractDatadog h = none := by
  unfold extractDatadog
  rw [trimmed_eq_none hl]
  rfl

/-- What was written is found, whatever was there, and has no blank ends. -/
theorem trimmed_inject {f : TraceFormat} {name v : String} (hv : lookupEntry name (f.written s) = some v)
    (ht : trim v.toList = v.toList) (h : Headers) : trimmed (f.inject s h) name = some v.toList := by
  unfold trimmed
  rw [lookup_inject hv, Option.map_some, ht]

theorem trimmed_inject_ofList {f : TraceFormat} {name : String} {t : List Char}
    (hv : lookupEntry name (f.written s) = some (String.ofList t)) (ht : trim t = t) (h : Headers) :
    trimmed (f.inject s h) name = some t := by
  have htrimmed := trimmed_inject hv (by rwa [String.toList_ofList]) h
  rwa [String.toList_ofList] at htrimmed

theorem extractW3c_inject (hs : s.isValid = true) (h : Headers) : extractW3c (w3c.inject s h) = some s := by
  have hparent : trimmed (w3c.inject s h) traceparentHeader = some (traceparent s).toList :=
    trimmed_inject rfl (trim_traceparent s) h
  unfold extractW3c
  rw [hparent, Option.bind_some, read_traceparent, Option.bind_some, spanContext_traceparent hs]

theorem isCoded_of_mem_sampledDigit {s : SpanContext} {c : Char} (h : c ∈ (sampledDigit s).toList) :
    isCoded c = true := by
  unfold sampledDigit at h
  split at h <;> cases List.mem_singleton.1 h <;> decide

theorem trim_sampledDigit (s : SpanContext) : trim (sampledDigit s).toList = (sampledDigit s).toList :=
  trim_of_all fun _ hc => isBlank_of_isCoded (isCoded_of_mem_sampledDigit hc)

/-- The debug flag that B3 headers can hold, and that no format writes. -/
def debugFlag (h : Headers) : Bool := (trimmed h b3FlagsHeader).any fun v => v == ['1']

/-- A debug flag makes a span context a sampled one. -/
theorem extractB3_inject (hs : s.isValid = true) (h : Headers) :
    extractB3 (b3.inject s h) = some { s with sampled := s.sampled || debugFlag (b3.inject s h) } := by
  have hsampled : b3SampledTexts.contains (String.ofList (sampledDigit s).toList) = s.sampled := by
    rw [String.ofList_toList]
    unfold sampledDigit
    cases s.sampled <;> decide
  have htrace : trimmed (b3.inject s h) b3TraceIdHeader = some s.traceHex :=
    trimmed_inject_ofList rfl (trim_hex ..) h
  have hspan : trimmed (b3.inject s h) b3SpanIdHeader = some s.spanHex := trimmed_inject_ofList rfl (trim_hex ..) h
  have hdigit : trimmed (b3.inject s h) b3SampledHeader = some (sampledDigit s).toList :=
    trimmed_inject rfl (trim_sampledDigit s) h
  unfold extractB3 debugFlag
  simp only [htrace, hspan, hdigit, Option.bind_some, SpanContext.readTraceId_traceHex,
    SpanContext.readSpanId_spanHex, Option.any_some, hsampled, SpanContext.valid?, bind]
  rw [Bool.or_comm]
  exact if_pos hs

theorem readWord_natural {n : Nat} (h : n < Nat.pow 2 64) : readWord (natural n) = some (BitVec.ofNat 64 n) := by
  unfold readWord
  rw [readUnsigned_natural, Option.bind_some]
  exact if_pos h

/-- Only the lower half of a trace id is written. -/
theorem extractDatadog_inject (s : SpanContext) (h : Headers) :
    extractDatadog (datadog.inject s h) = s.lowerHalf.valid? := by
  have hsampled : isPositivePriority (sampledDigit s).toList = s.sampled := by
    unfold sampledDigit
    cases s.sampled <;> decide
  have htrace : trimmed (datadog.inject s h) datadogTraceIdHeader =
      some (natural (s.traceId.toNat % Nat.pow 2 64)) := trimmed_inject_ofList rfl (trim_natural _) h
  have hspan : trimmed (datadog.inject s h) datadogParentIdHeader = some (natural s.spanId.toNat) :=
    trimmed_inject_ofList rfl (trim_natural _) h
  have hdigit : trimmed (datadog.inject s h) datadogPriorityHeader = some (sampledDigit s).toList :=
    trimmed_inject rfl (trim_sampledDigit s) h
  have hlower : s.traceId.toNat % Nat.pow 2 64 < Nat.pow 2 64 := Nat.mod_lt _ (by decide)
  have htraceId : BitVec.ofNat 64 (s.traceId.toNat % Nat.pow 2 64) = s.traceId.setWidth 64 := by
    apply BitVec.eq_of_toNat_eq
    rw [BitVec.toNat_setWidth, BitVec.toNat_ofNat]
    exact Nat.mod_mod _ _
  have hspanId : BitVec.ofNat 64 s.spanId.toNat = s.spanId := by
    rw [BitVec.ofNat_toNat, BitVec.setWidth_eq]
  unfold extractDatadog
  simp only [htrace, hspan, hdigit, Option.bind_some, readWord_natural hlower, readWord_natural s.spanId.isLt,
    Option.any_some, hsampled, htraceId, hspanId, bind]
  rfl

end Extract

end TraceFormat

/-- The standard codec tries the three formats in turn. -/
theorem Codec.span_decode (h : Headers) : (standard.decode h).span =
    (TraceFormat.extractW3c h).or ((TraceFormat.extractB3 h).or (TraceFormat.extractDatadog h)) := by
  unfold decode standard TraceFormat.all
  simp only [List.map_cons, List.map_nil, List.findSome?_cons, List.findSome?_nil, Extractor.ofFormat,
    TraceFormat.extract]
  cases TraceFormat.extractW3c h <;> cases TraceFormat.extractB3 h <;> cases TraceFormat.extractDatadog h <;> rfl

/-- Where a valid span context goes along, the headers beside the entries are those of its format. -/
theorem Codec.lookup_encode_span (f : TraceFormat) (es : List (String × Value)) {s : SpanContext}
    (hs : s.isValid = true) {name : String} (hn : IsLower name) (hne : Baggage.header ≠ name) :
    (encode f es (some s)).lookup name = lookupEntry name (f.written s) := by
  rw [lookup_encode f es _ hn, get?_encode, spanHeaders_of_valid f hs, if_neg hne, Option.or_none]

/-- Only the format that wrote a span context finds one. -/
theorem Codec.span_decode_written (f : TraceFormat) (es : List (String × Value)) {s : SpanContext}
    (hs : s.isValid = true) : (standard.decode (encode f es (some s))).span = f.extract (encode f es (some s)) := by
  have hl := fun {name : String} (hn : IsLower name) (hne : Baggage.header ≠ name) =>
    lookup_encode_span f es hs hn hne
  rw [span_decode]
  cases f with
  | w3c =>
    rw [TraceFormat.extractB3_eq_none (by rw [hl (by decide) (by decide)]; rfl),
      TraceFormat.extractDatadog_eq_none (by rw [hl (by decide) (by decide)]; rfl), Option.or_none, Option.or_none]
    rfl
  | b3 =>
    rw [TraceFormat.extractW3c_eq_none (by rw [hl (by decide) (by decide)]; rfl),
      TraceFormat.extractDatadog_eq_none (by rw [hl (by decide) (by decide)]; rfl), Option.none_or, Option.or_none]
    rfl
  | datadog =>
    rw [TraceFormat.extractW3c_eq_none (by rw [hl (by decide) (by decide)]; rfl),
      TraceFormat.extractB3_eq_none (by rw [hl (by decide) (by decide)]; rfl), Option.none_or, Option.none_or]
    rfl

/-- The given span context is read back, whatever format wrote it; a format that cuts
trace ids needs one that is not cut. -/
theorem Codec.span_decode_encode (f : TraceFormat) (es : List (String × Value)) {span : Option SpanContext}
    (hs : ∀ s, span = some s → s.isValid = true)
    (hlow : f = .datadog → ∀ s, span = some s → s.traceId.toNat < Nat.pow 2 64) :
    (standard.decode (encode f es span)).span = span := by
  cases span with
  | none =>
    have none_of : ∀ {name : String}, IsLower name → Baggage.header ≠ name → (encode f es none).lookup name = none :=
      fun hn hne => by rw [lookup_encode f es none hn, get?_encode, if_neg hne]; rfl
    rw [span_decode, TraceFormat.extractW3c_eq_none (none_of (by decide) (by decide)),
      TraceFormat.extractB3_eq_none (none_of (by decide) (by decide)),
      TraceFormat.extractDatadog_eq_none (none_of (by decide) (by decide))]
    rfl
  | some s =>
    have hvalid := hs s rfl
    rw [span_decode_written f es hvalid]
    cases f with
    | w3c =>
      rw [encode_of_valid _ es hvalid]
      exact TraceFormat.extractW3c_inject hvalid _
    | b3 =>
      have hflag : TraceFormat.debugFlag (encode .b3 es (some s)) = false := by
        unfold TraceFormat.debugFlag
        rw [TraceFormat.trimmed_eq_none (by rw [lookup_encode_span _ es hvalid (by decide) (by decide)]; rfl)]
        rfl
      rw [encode_of_valid _ es hvalid] at hflag ⊢
      refine (TraceFormat.extractB3_inject hvalid _).trans ?_
      rw [hflag, Bool.or_false]
    | datadog =>
      rw [encode_of_valid _ es hvalid]
      refine (TraceFormat.extractDatadog_inject s _).trans ?_
      rw [SpanContext.lowerHalf_eq (hlow rfl s rfl)]
      exact if_pos hvalid

end Ambient
