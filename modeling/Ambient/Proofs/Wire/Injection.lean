import Ambient.Proofs.Wire.Names
import Ambient.Proofs.Wire.SpanHeaders

/-
A span context is written over whatever the headers held before, and read back
(`TraceFormat.extract_inject`). Its headers have exact names, which are found first, so
leftovers whose names differ in case do not count. Only the debug flag of B3 is read and
never written: one that was there before makes any span context a sampled one. Datadog
headers hold half of a trace id, and a span context for which that half is zero is lost
(`Codec.span_decode_datadog`).
-/

namespace Ambient

open Text

namespace TraceFormat

variable {f : TraceFormat} {s : SpanContext}

/-! ## The debug flag -/

/-- No format writes a debug flag. -/
theorem debugFlag_inject (f : TraceFormat) (s : SpanContext) (h : Headers) :
    debugFlag (f.inject s h) = debugFlag h := by
  have hnames : ∀ x ∈ f.headerNames, sameIgnoringCase x b3FlagsHeader = false := by cases f <;> decide
  have hkept : (f.inject s h).lookup b3FlagsHeader = h.lookup b3FlagsHeader := by
    refine Headers.lookup_insertAll_other (fun e he => hnames e.1 ?_) h
    rw [← f.map_fst_written s]
    exact List.mem_map_of_mem he
  unfold debugFlag trimmed
  rw [hkept]

/-- A debug flag is a header of its name, in any case, that holds a one. -/
theorem exists_of_debugFlag {h : Headers} (hd : debugFlag h = true) :
    ∃ v, h.Holds b3FlagsHeader v ∧ trim v.toList = ['1'] := by
  unfold debugFlag trimmed at hd
  cases hl : h.lookup b3FlagsHeader with
  | none =>
    rw [hl] at hd
    cases hd
  | some v =>
    simp only [hl, Option.map_some, Option.any_some, beq_iff_eq] at hd
    exact ⟨v, Headers.holds_of_lookup hl, hd⟩

/-- What is read of a valid span context that was written over other headers: a leftover
debug flag counts in the B3 format. -/
theorem extract_inject_flagged (hs : s.isValid = true) (hlow : f = .datadog → s.traceId.toNat < Nat.pow 2 64)
    (h : Headers) : f.extract (f.inject s h) =
      some (if f = .b3 then { s with sampled := s.sampled || debugFlag h } else s) := by
  cases f with
  | w3c => exact extractW3c_inject hs h
  | b3 =>
    refine (extractB3_inject hs h).trans ?_
    rw [debugFlag_inject]
    rfl
  | datadog =>
    refine (extractDatadog_inject s h).trans ?_
    rw [SpanContext.lowerHalf_eq (hlow rfl)]
    exact if_pos hs

/-- **Writing overrides what was there.** Whatever headers there are, a valid span context
that is written over them is read back, and headers of other names stay as they were. Only
a debug flag that was there makes a span context sampled, in the B3 format. -/
theorem extract_inject (hs : s.isValid = true) (hlow : f = .datadog → s.traceId.toNat < Nat.pow 2 64) (h : Headers) :
    f.extract (f.inject s h) = some (if f = .b3 then { s with sampled := s.sampled || debugFlag h } else s) ∧
      ((f = .b3 → s.sampled = false → ∀ v, h.Holds b3FlagsHeader v → trim v.toList ≠ ['1']) →
        f.extract (f.inject s h) = some s) ∧
      ∀ name ∉ f.headerNames, (f.inject s h).get? name = h.get? name := by
  have hread := extract_inject_flagged hs hlow h
  refine ⟨hread, fun hnone => ?_, fun name hn => get?_inject_of_notMem hn s h⟩
  rw [hread]
  split
  · rename_i hf
    -- A debug flag changes nothing for a sampled span context, and there is none for another.
    have hflag : (s.sampled || debugFlag h) = s.sampled := by
      cases hsampled : s.sampled with
      | true => exact Bool.true_or _
      | false =>
        cases hd : debugFlag h with
        | false => rfl
        | true =>
          obtain ⟨v, hv, hone⟩ := exists_of_debugFlag hd
          exact absurd hone (hnone hf hsampled v hv)
    rw [hflag]
  · rfl

/-- Leftovers of every format, in several spellings. -/
def leftovers : Headers :=
  Dict.ofList [("TraceParent", "stale"), ("x-b3-traceid", "stale"), ("X-B3-TraceId", "00000000000000ff"),
    ("X-B3-Sampled", "1"), ("x-datadog-trace-id", "255"), ("X-Datadog-Trace-Id", "254"), ("baggage", "k=x")]

/-- A debug flag is among the headers. -/
def debugged : Headers := leftovers.insert "X-B3-Flags" " 1 "

/-- An unsampled span context is written over leftovers and read back; with a debug flag
among them it becomes a sampled one. -/
theorem extract_inject_leftovers :
    TraceFormat.b3.extract (TraceFormat.b3.inject ⟨1, 2, false⟩ leftovers) = some ⟨1, 2, false⟩ ∧
      TraceFormat.datadog.extract (TraceFormat.datadog.inject ⟨1, 2, false⟩ debugged) = some ⟨1, 2, false⟩ ∧
      TraceFormat.b3.extract (TraceFormat.b3.inject ⟨1, 2, false⟩ debugged) = some ⟨1, 2, true⟩ ∧
      (TraceFormat.b3.inject ⟨1, 2, false⟩ debugged).get? "X-B3-TraceId" = some "00000000000000ff" := by
  have hvalid : (⟨1, 2, false⟩ : SpanContext).isValid = true := by decide
  have hunflagged : ∀ v, leftovers.Holds b3FlagsHeader v → trim v.toList ≠ ['1'] :=
    fun v hv => absurd hv (Headers.lookup_eq_none_iff.1 (by decide) v)
  have hflag : debugFlag debugged = true := by decide
  obtain ⟨-, hplain, -⟩ := extract_inject (f := .b3) hvalid nofun leftovers
  obtain ⟨hdatadog, -, -⟩ := extract_inject (f := .datadog) hvalid (fun _ => by decide) debugged
  obtain ⟨hb3, -, hkept⟩ := extract_inject (f := .b3) hvalid nofun debugged
  refine ⟨hplain fun _ _ => hunflagged, hdatadog, ?_, (hkept "X-B3-TraceId" (by decide)).trans (by decide)⟩
  rw [hb3, if_pos rfl, hflag]
  rfl

/-- Not every span context that is written over other headers is read back. -/
theorem not_extract_inject :
    ¬ ∀ (f : TraceFormat) (s : SpanContext) (h : Headers), s.isValid = true →
      (f = .datadog → s.traceId.toNat < Nat.pow 2 64) → f.extract (f.inject s h) = some s := by
  intro kept
  have hkept := kept .b3 ⟨255, 7, false⟩ (Dict.ofList [("x-b3-flags", "1")]) (by decide) nofun
  have hread : TraceFormat.b3.extract (TraceFormat.b3.inject ⟨255, 7, false⟩ (Dict.ofList [("x-b3-flags", "1")])) =
      some ⟨255, 7, true⟩ := by decide +kernel
  rw [hread] at hkept
  cases hkept

end TraceFormat

/-! ## What the Datadog format loses -/

namespace Codec

/-- **What the Datadog format loses.** A valid span context is read back with the lower half
of its trace id; but if that half is zero, nothing is read. -/
theorem span_decode_datadog (es : List (String × Value)) {s : SpanContext} (hs : s.isValid = true) :
    (¬ 2 ^ 64 ∣ s.traceId.toNat → ∃ s', (standard.decode (encode .datadog es (some s))).span = some s' ∧
        s'.traceId.toNat = s.traceId.toNat % 2 ^ 64 ∧ s'.spanId = s.spanId ∧ s'.sampled = s.sampled) ∧
      (2 ^ 64 ∣ s.traceId.toNat → (standard.decode (encode .datadog es (some s))).span = none) := by
  have hread : (standard.decode (encode .datadog es (some s))).span = s.lowerHalf.valid? := by
    rw [span_decode_written .datadog es hs, encode_of_valid .datadog es hs]
    exact TraceFormat.extractDatadog_inject s _
  have hvalid := SpanContext.isValid_lowerHalf hs
  rw [hread]
  constructor
  · intro hdvd
    refine ⟨s.lowerHalf, if_pos ?_, SpanContext.toNat_lowerHalf s, rfl, rfl⟩
    rw [hvalid, Bool.not_eq_true', decide_eq_false_iff_not]
    exact hdvd
  · intro hdvd
    refine if_neg ?_
    rw [hvalid, Bool.not_eq_true, Bool.not_eq_false', decide_eq_true_iff]
    exact hdvd

/-- A trace id is cut to its lower half, and a span context is lost. -/
theorem span_decode_datadog_halves :
    (∃ s', (standard.decode (encode .datadog [] (some ⟨0x100000000000000ff#128, 7, true⟩))).span = some s' ∧
        s'.traceId.toNat = 255 ∧ s'.spanId = 7 ∧ s'.sampled = true) ∧
      (standard.decode (encode .datadog [] (some ⟨0x10000000000000000#128, 7, true⟩))).span = none :=
  ⟨(span_decode_datadog [] (by decide)).1 (by decide), (span_decode_datadog [] (by decide)).2 (by decide)⟩

/-- Not every valid span context survives the Datadog format. -/
theorem not_span_decode_datadog :
    ¬ ∀ s : SpanContext, s.isValid = true →
      ∃ s', (standard.decode (encode .datadog [] (some s))).span = some s' ∧
        s'.traceId.toNat = s.traceId.toNat % 2 ^ 64 ∧ s'.spanId = s.spanId ∧ s'.sampled = s.sampled := by
  intro kept
  obtain ⟨s', hread, -⟩ := kept ⟨0x10000000000000000#128, 7, true⟩ (by decide)
  have hlost : (standard.decode (encode .datadog [] (some ⟨0x10000000000000000#128, 7, true⟩))).span = none := by
    decide +kernel
  rw [hlost] at hread
  cases hread

end Codec

end Ambient
