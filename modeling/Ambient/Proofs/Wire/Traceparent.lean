import Ambient.Proofs.Text.Hex
import Ambient.Proofs.Wire.Names
import Ambient.Wire.TraceFormat

/-
Which texts of a `traceparent` header are read, and as what (`TraceFormat.extract_traceparent`).
The form of such a text is said here without the reader: four fields of digits with dashes
between them, and what may follow (`Traceparent.WellFormed`); not every text of that form
names a span (`Traceparent.Legal`). The reader cuts a text just as it was put together
(`Traceparent.read_eq_some_iff`).
-/

namespace Ambient

open Text

namespace TraceFormat

variable {w : Nat} {c : Char} {s f r : List Char}

/-! ## Fields -/

/-- A field of digits in base sixteen with small letters. -/
def IsField (width : Nat) (s : List Char) : Prop := s.length = width ∧ ∀ c ∈ s, c ∈ hexDigits

theorem isLowerHex_iff : isLowerHex c = true ↔ c ∈ hexDigits := by
  rcases Nat.lt_or_ge c.toNat 128 with h | h
  · have small : ∀ m : Fin 128, isLowerHex (Char.ofNat m) = true ↔ Char.ofNat m ∈ hexDigits := by decide +kernel
    have hc := small ⟨c.toNat, h⟩
    rwa [Char.ofNat_toNat] at hc
  · constructor
    · intro hc
      simp only [isLowerHex, Bool.or_eq_true, Bool.and_eq_true, decide_eq_true_iff] at hc
      rcases hc with ⟨-, hc⟩ | ⟨-, hc⟩
      · have : c.toNat ≤ 57 := hc
        omega
      · have : c.toNat ≤ 102 := hc
        omega
    · intro hc
      have := toNat_lt_of_mem_hexDigits hc
      omega

theorem takeField_eq_some_iff : takeField w s = some (f, r) ↔ s = f ++ r ∧ IsField w f := by
  unfold takeField IsField
  simp only [List.all_eq_true, isLowerHex_iff]
  constructor
  · intro h
    split at h
    · rename_i hfield
      cases h
      exact ⟨(List.take_append_drop w s).symm, hfield⟩
    · cases h
  · rintro ⟨rfl, hlen, hdigits⟩
    rw [List.take_left' hlen, List.drop_left' hlen, if_pos ⟨hlen, hdigits⟩]

theorem takeDash_eq_some_iff : takeDash s = some r ↔ s = '-' :: r := by
  unfold takeDash
  split
  · simp
  · rename_i hne
    constructor
    · intro h
      cases h
    · rintro rfl
      exact absurd rfl (hne r)

/-- What may stand behind the flags: nothing, or a dash and one line of any text. -/
def IsSuffix (s : List Char) : Prop := s = [] ∨ ∃ rest, s = '-' :: rest ∧ '\n' ∉ rest

theorem isTail_iff : isTail s = true ↔ IsSuffix s := by
  unfold isTail IsSuffix
  split
  · simp
  · simp
  · rename_i hne hdash
    constructor
    · intro h
      cases h
    · rintro (rfl | ⟨rest, rfl, -⟩)
      · exact absurd rfl hne
      · exact absurd rfl (hdash rest)

namespace Traceparent

variable {t : Traceparent} {span : SpanContext}

/-! ## The form of a text -/

/-- The text that fields make, with dashes between them. -/
def text (t : Traceparent) : List Char :=
  t.version ++ '-' :: (t.trace ++ '-' :: (t.span ++ '-' :: (t.flags ++ t.tail)))

structure WellFormed (t : Traceparent) : Prop where
  version : IsField 2 t.version
  trace : IsField 32 t.trace
  span : IsField 16 t.span
  flags : IsField 2 t.flags
  tail : IsSuffix t.tail

/-- A text is cut just into the fields that make it. -/
theorem read_eq_some_iff : read s = some t ↔ s = t.text ∧ t.WellFormed := by
  unfold read text
  simp only [bind, Option.bind_eq_some_iff, Prod.exists, takeField_eq_some_iff, takeDash_eq_some_iff]
  constructor
  · rintro ⟨version, _, ⟨rfl, hversion⟩, _, rfl, trace, _, ⟨rfl, htrace⟩, _, rfl, span, _, ⟨rfl, hspan⟩, _, rfl, flags,
      tail, ⟨rfl, hflags⟩, h⟩
    split at h
    · rename_i htail
      cases h
      exact ⟨rfl, hversion, htrace, hspan, hflags, isTail_iff.1 htail⟩
    · cases h
  · rintro ⟨rfl, h⟩
    refine ⟨_, _, ⟨rfl, h.version⟩, _, rfl, _, _, ⟨rfl, h.trace⟩, _, rfl, _, _, ⟨rfl, h.span⟩, _, rfl, _, _,
      ⟨rfl, h.flags⟩, ?_⟩
    rw [if_pos (isTail_iff.2 h.tail)]

/-! ## What a text names -/

/-- Fields that name a span: version `ff` is none, version `00` has no further fields, and
neither id is zero. -/
structure Legal (t : Traceparent) : Prop extends t.WellFormed where
  version_ne : t.version ≠ "ff".toList
  tail_eq : t.version = "00".toList → t.tail = []
  trace_ne : ∃ c ∈ t.trace, c ≠ '0'
  span_ne : ∃ c ∈ t.span, c ≠ '0'

/-- The span context that fields stand for. -/
structure Names (t : Traceparent) (s : SpanContext) : Prop where
  traceId : s.traceId.toNat = hexNumber t.trace
  spanId : s.spanId.toNat = hexNumber t.span
  sampled : s.sampled = (hexNumber t.flags).testBit 0

/-- A field is read as the number that it stands for. -/
theorem readHex_field (h : IsField w s) : readHex w s = some (hexNumber s) := by
  refine readHex_eq_some_iff.2 ⟨h.1, ?_, rfl⟩
  intro c hc
  rw [toLower_of_mem_hexDigits (h.2 c hc)]
  exact h.2 c hc

theorem hexNumber_field_lt (h : IsField w s) : hexNumber s < 16 ^ w := by
  have hlt := hexNumber_lt h.2
  rwa [h.1] at hlt

theorem hexNumber_field_ne_zero (h : IsField w s) : hexNumber s ≠ 0 ↔ ∃ c ∈ s, c ≠ '0' := by
  rw [Ne, hexNumber_eq_zero_iff h.2]
  simp

/-- The span context that the fields of a text stand for, legal or not. -/
def meaning (t : Traceparent) : SpanContext :=
  ⟨BitVec.ofNat 128 (hexNumber t.trace), BitVec.ofNat 64 (hexNumber t.span), hexNumber t.flags % 2 == 1⟩

theorem names_iff (h : t.WellFormed) : t.Names span ↔ span = t.meaning := by
  have htrace : hexNumber t.trace < 2 ^ 128 := hexNumber_field_lt h.trace
  have hspan : hexNumber t.span < 2 ^ 64 := hexNumber_field_lt h.span
  have hbit : (hexNumber t.flags).testBit 0 = (hexNumber t.flags % 2 == 1) := by
    rw [Nat.testBit_zero]
    rfl
  constructor
  · rintro ⟨ht, hs, hf⟩
    obtain ⟨traceId, spanId, sampled⟩ := span
    simp only at ht hs hf
    rw [meaning, ← ht, ← hs, ← hbit, ← hf, BitVec.ofNat_toNat, BitVec.ofNat_toNat, BitVec.setWidth_eq,
      BitVec.setWidth_eq]
  · rintro rfl
    exact ⟨(BitVec.toNat_ofNat ..).trans (Nat.mod_eq_of_lt htrace),
      (BitVec.toNat_ofNat ..).trans (Nat.mod_eq_of_lt hspan), hbit.symm⟩

/-- Ids that are all zero make no valid span context. -/
theorem isValid_meaning (h : t.WellFormed) :
    t.meaning.isValid = true ↔ (∃ c ∈ t.trace, c ≠ '0') ∧ ∃ c ∈ t.span, c ≠ '0' := by
  have hnames := (names_iff h).2 rfl
  have nonzero : ∀ {w} (b : BitVec w), (b != 0) = true ↔ b.toNat ≠ 0 := by
    intro w b
    rw [bne_iff_ne, Ne, ← BitVec.toNat_inj]
    simp
  rw [SpanContext.isValid, Bool.and_eq_true, nonzero, nonzero, hnames.traceId, hnames.spanId,
    hexNumber_field_ne_zero h.trace, hexNumber_field_ne_zero h.span]

theorem spanContext_eq (h : t.WellFormed) : t.spanContext =
    if t.version = "ff".toList ∨ t.version = "00".toList ∧ t.tail ≠ [] then none else t.meaning.valid? := by
  have htrace : SpanContext.readTraceId t.trace = some (BitVec.ofNat 128 (hexNumber t.trace)) := by
    rw [SpanContext.readTraceId, readHex_field h.trace, Option.some_or, Option.map_some]
  have hspan : SpanContext.readSpanId t.span = some (BitVec.ofNat 64 (hexNumber t.span)) := by
    rw [SpanContext.readSpanId, readHex_field h.span, Option.map_some]
  unfold spanContext meaning
  rw [htrace, hspan, readHex_field h.flags]
  by_cases hversion : t.version = "ff".toList
  · rw [if_pos hversion, if_pos (.inl hversion)]
  · by_cases htail : t.version = "00".toList ∧ t.tail ≠ []
    · rw [if_neg hversion, if_pos htail, if_pos (.inr htail)]
    · rw [if_neg hversion, if_neg htail, if_neg (not_or.2 ⟨hversion, htail⟩)]
      rfl

theorem spanContext_eq_some_iff (h : t.WellFormed) : t.spanContext = some span ↔ t.Legal ∧ t.Names span := by
  rw [spanContext_eq h, names_iff h]
  unfold SpanContext.valid?
  split
  · rename_i hnone
    simp only [reduceCtorEq, false_iff, not_and]
    intro hlegal
    rcases hnone with hversion | ⟨hversion, htail⟩
    · exact absurd hversion hlegal.version_ne
    · exact absurd (hlegal.tail_eq hversion) htail
  · rename_i hsome
    rw [not_or, not_and, not_not] at hsome
    constructor
    · intro hv
      split at hv
      · rename_i hvalid
        obtain ⟨htrace, hspan⟩ := (isValid_meaning h).1 hvalid
        exact ⟨⟨h, hsome.1, hsome.2, htrace, hspan⟩, (Option.some.inj hv).symm⟩
      · cases hv
    · rintro ⟨hlegal, rfl⟩
      rw [if_pos ((isValid_meaning h).2 ⟨hlegal.trace_ne, hlegal.span_ne⟩)]

end Traceparent

/-! ## Reading the header -/

variable {h : Headers} {s : SpanContext}

theorem extractW3c_eq_some_iff (hd : h.Distinct) : extractW3c h = some s ↔
    ∃ v t, h.Holds "traceparent" v ∧ trim v.toList = Traceparent.text t ∧ t.Legal ∧ t.Names s := by
  unfold extractW3c trimmed
  simp only [Option.bind_eq_some_iff, Option.map_eq_some_iff]
  constructor
  · rintro ⟨_, ⟨v, hv, rfl⟩, t, ht, hs⟩
    obtain ⟨htext, hwf⟩ := Traceparent.read_eq_some_iff.1 ht
    obtain ⟨hlegal, hnames⟩ := (Traceparent.spanContext_eq_some_iff hwf).1 hs
    exact ⟨v, t, Headers.holds_of_lookup hv, htext, hlegal, hnames⟩
  · rintro ⟨v, t, hv, htext, hlegal, hnames⟩
    refine ⟨_, ⟨v, (Headers.lookup_eq_some_iff hd).2 hv, rfl⟩, t, ?_, ?_⟩
    · exact Traceparent.read_eq_some_iff.2 ⟨htext, hlegal.toWellFormed⟩
    · exact (Traceparent.spanContext_eq_some_iff hlegal.toWellFormed).2 ⟨hlegal, hnames⟩

/-- **Which `traceparent` is read.** A span context is read just if there is a header of the
name, in any case, whose value has the form of fields that name a span, blank ends apart;
and it is the one that the fields name. -/
theorem extract_traceparent (hd : h.Distinct) :
    ((∃ s, w3c.extract h = some s) ↔
      ∃ v t, h.Holds "traceparent" v ∧ trim v.toList = Traceparent.text t ∧ t.Legal) ∧
    ∀ v t, h.Holds "traceparent" v → trim v.toList = Traceparent.text t → t.Legal →
      ∃ s, w3c.extract h = some s ∧ s.traceId.toNat = hexNumber t.trace ∧ s.spanId.toNat = hexNumber t.span ∧
        s.sampled = (hexNumber t.flags).testBit 0 := by
  have named : ∀ v t, h.Holds "traceparent" v → trim v.toList = Traceparent.text t → t.Legal →
      w3c.extract h = some t.meaning ∧ t.Names t.meaning := by
    intro v t hv htext hlegal
    have hnames := (Traceparent.names_iff hlegal.toWellFormed).2 rfl
    exact ⟨(extractW3c_eq_some_iff hd).2 ⟨v, t, hv, htext, hlegal, hnames⟩, hnames⟩
  refine ⟨⟨?_, ?_⟩, ?_⟩
  · rintro ⟨s, hs⟩
    obtain ⟨v, t, hv, htext, hlegal, -⟩ := (extractW3c_eq_some_iff hd).1 hs
    exact ⟨v, t, hv, htext, hlegal⟩
  · rintro ⟨v, t, hv, htext, hlegal⟩
    exact ⟨_, (named v t hv htext hlegal).1⟩
  · intro v t hv htext hlegal
    obtain ⟨hread, hnames⟩ := named v t hv htext hlegal
    exact ⟨_, hread, hnames.traceId, hnames.spanId, hnames.sampled⟩

/-- A later version with further text, under a name with capital letters and between blanks. -/
theorem extract_traceparent_later :
    let t : Traceparent := ⟨"cc".toList, "00f000000000000000000000000000a7".toList, "000000000000010c".toList,
      "03".toList, "-later-field".toList⟩
    let h : Headers := Dict.ofList [("baggage", "k=v"), ("TraceParent", " " ++ String.ofList t.text ++ "\t")]
    h.Distinct ∧ t.Legal ∧
      ∃ s, w3c.extract h = some s ∧ s.traceId.toNat = hexNumber t.trace ∧ s.spanId.toNat = 268 ∧ s.sampled = true := by
  intro t h
  have hd : h.Distinct := by decide
  have hfield : ∀ {f : List Char}, f.all isLowerHex = true → ∀ c ∈ f, c ∈ hexDigits := by
    intro f hf c hc
    exact isLowerHex_iff.1 (List.all_eq_true.1 hf c hc)
  have hlegal : t.Legal :=
    { version := ⟨by decide, hfield (by decide)⟩
      trace := ⟨by decide, hfield (by decide)⟩
      span := ⟨by decide, hfield (by decide)⟩
      flags := ⟨by decide, hfield (by decide)⟩
      tail := .inr ⟨"later-field".toList, rfl, by decide⟩
      version_ne := by decide
      tail_eq := by decide
      trace_ne := ⟨'f', by decide, by decide⟩
      span_ne := ⟨'c', by decide, by decide⟩ }
  have hheld : h.Holds "traceparent" (" " ++ String.ofList t.text ++ "\t") :=
    ⟨"TraceParent", by decide, by decide +kernel⟩
  obtain ⟨s, hs, htrace, hspan, hsampled⟩ := (extract_traceparent hd).2 _ t hheld (by decide +kernel) hlegal
  exact ⟨hd, hlegal, s, hs, htrace, hspan.trans (by decide), hsampled.trans (by decide)⟩

end TraceFormat

end Ambient
