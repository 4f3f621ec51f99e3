import Ambient.Wire.Baggage
import Ambient.Wire.TraceFormat

/-
Context data and a span context as the headers of a message. Writing uses one
trace format; reading tries them all, then whatever further extractors there
are, and never fails.
-/

namespace Ambient

/-- A way to find a span context in headers, and the names of the headers it reads. -/
structure Extractor where
  headerNames : List String
  extract : Headers → Option SpanContext

namespace Extractor

def ofFormat (f : TraceFormat) : Extractor := ⟨f.headerNames, f.extract⟩

def fixed (name : String) (s : SpanContext) : Extractor :=
  ⟨[name], fun h => if h.contains name then some s else none⟩

end Extractor

/-- Reads and writes headers; the extractors are tried in order. -/
structure Codec where
  extractors : List Extractor

/-- What headers carry. -/
structure Decoded where
  entries : Dict String Value
  span : Option SpanContext
  dropped : List DroppedSegment

namespace Codec

def standard : Codec := ⟨TraceFormat.all.map Extractor.ofFormat⟩

/-- Adds an extractor, tried after the others. -/
def withExtractor (c : Codec) (e : Extractor) : Codec := ⟨c.extractors ++ [e]⟩

/-- The headers of entries and of a span context; an invalid one is left out. -/
def encode (f : TraceFormat) (entries : List (String × Value)) (span : Option SpanContext) :
    Headers :=
  let baggage : Headers :=
    match Baggage.encode entries with
    | none => Dict.empty
    | some v => Dict.empty.insert Baggage.header v
  match span.bind SpanContext.valid? with
  | none => baggage
  | some s => f.inject s baggage

/-- The headers that carry baggage, the one that counts more last. -/
def baggageHeaders : List String := [Baggage.legacyHeader, Baggage.header]

def decode (c : Codec) (h : Headers) : Decoded :=
  let values := baggageHeaders.filterMap h.lookup
  { entries := values.foldl (fun d v => Baggage.decodeInto v d) Dict.empty
    span := c.extractors.findSome? fun e => e.extract h
    dropped := values.flatMap Baggage.readDropped }

/-- The names of the headers that any format or extractor declares, in order. -/
def declaredHeaderNames (c : Codec) : List String :=
  let names := Baggage.header :: TraceFormat.all.flatMap TraceFormat.headerNames ++
    c.extractors.flatMap Extractor.headerNames
  names.eraseDups.mergeSort fun a b => decide (a ≤ b)

end Codec

end Ambient
