import Ambient.SpanContext
import Ambient.Text.Blank
import Ambient.Text.Decimal
import Ambient.Wire.Headers

/-
The three header families that carry a span context. Each writes its headers
over what was there and reads back a valid span context or nothing.

* `w3c`: one header `00-<trace>-<span>-<flags>`. Reading takes other versions
  with further fields; version `ff` is none, and version `00` has no further
  fields.
* `b3`: trace id, span id and sampling in three headers, and a debug flag that is
  only read.
* `datadog`: ids as decimal numbers of 64 bits, so the upper half of a trace id
  is lost, and a sampling priority.
-/

namespace Ambient

open Text

/-- The header families for span contexts. -/
inductive TraceFormat where
  | w3c
  | b3
  | datadog
deriving DecidableEq

namespace TraceFormat

/-- Every format, in the order in which reading tries them. -/
def all : List TraceFormat := [w3c, b3, datadog]

def name : TraceFormat → String
  | w3c => "w3c"
  | b3 => "b3"
  | datadog => "datadog"

/-- The format of a name, without blank ends and in any case of ASCII letters; the
name in that reduced form if there is none. -/
def ofText (s : String) : Except String TraceFormat :=
  let reduced := String.ofList (lower (trim s.toList))
  if reduced = "w3c" ∨ reduced = "tracecontext" then .ok w3c
  else if reduced = "b3" then .ok b3
  else if reduced = "datadog" then .ok datadog
  else .error reduced

def unknownMessage (reduced : String) : String := "Unknown trace format: " ++ reduced

def traceparentHeader : String := "traceparent"

/-- The headers of the B3 format; the last is only read. -/
def b3TraceIdHeader : String := "x-b3-traceid"
def b3SpanIdHeader : String := "x-b3-spanid"
def b3SampledHeader : String := "x-b3-sampled"
def b3FlagsHeader : String := "x-b3-flags"

def datadogTraceIdHeader : String := "x-datadog-trace-id"
def datadogParentIdHeader : String := "x-datadog-parent-id"
def datadogPriorityHeader : String := "x-datadog-sampling-priority"

def headerNames : TraceFormat → List String
  | w3c => [traceparentHeader]
  | b3 => [b3TraceIdHeader, b3SpanIdHeader, b3SampledHeader]
  | datadog => [datadogTraceIdHeader, datadogParentIdHeader, datadogPriorityHeader]

def isLowerHex (c : Char) : Bool :=
  (decide ('0' ≤ c) && decide (c ≤ '9')) || (decide ('a' ≤ c) && decide (c ≤ 'f'))

def takeField (width : Nat) (s : List Char) : Option (List Char × List Char) :=
  let field := s.take width
  if field.length = width ∧ field.all isLowerHex then some (field, s.drop width) else none

def takeDash : List Char → Option (List Char)
  | '-' :: rest => some rest
  | _ => none

/-- The fields of a `traceparent` value. -/
structure Traceparent where
  version : List Char
  trace : List Char
  span : List Char
  flags : List Char
  /-- What follows the flags: nothing, or a dash and one line of any text. -/
  tail : List Char

def isTail : List Char → Bool
  | [] => true
  | '-' :: rest => !rest.contains '\n'
  | _ => false

/-- Cuts a `traceparent` value into its fields. -/
def Traceparent.read (s : List Char) : Option Traceparent := do
  let (version, s) ← takeField 2 s
  let s ← takeDash s
  let (trace, s) ← takeField 32 s
  let s ← takeDash s
  let (span, s) ← takeField 16 s
  let s ← takeDash s
  let (flags, tail) ← takeField 2 s
  if isTail tail then some ⟨version, trace, span, flags, tail⟩ else none

/-- The span context of a `traceparent` value, sampled if the lowest flag is set. -/
def Traceparent.spanContext (t : Traceparent) : Option SpanContext := do
  if t.version = "ff".toList then none
  else if t.version = "00".toList ∧ t.tail ≠ [] then none
  else
    let traceId ← SpanContext.readTraceId t.trace
    let spanId ← SpanContext.readSpanId t.span
    let flags ← readHex 2 t.flags
    SpanContext.valid? ⟨traceId, spanId, flags % 2 == 1⟩

def trimmed (h : Headers) (name : String) : Option (List Char) :=
  (h.lookup name).map fun v => trim v.toList

def extractW3c (h : Headers) : Option SpanContext :=
  (trimmed h traceparentHeader).bind fun v => (Traceparent.read v).bind Traceparent.spanContext

def b3SampledTexts : List String := ["1", "true", "d"]

def extractB3 (h : Headers) : Option SpanContext := do
  let traceId ← (trimmed h b3TraceIdHeader).bind SpanContext.readTraceId
  let spanId ← (trimmed h b3SpanIdHeader).bind SpanContext.readSpanId
  let debug := (trimmed h b3FlagsHeader).any fun v => v == ['1']
  let sampled := (trimmed h b3SampledHeader).any fun v => b3SampledTexts.contains (String.ofList v)
  SpanContext.valid? ⟨traceId, spanId, debug || sampled⟩

def readWord (s : List Char) : Option (BitVec 64) :=
  (readUnsigned s).bind fun n => if n < Nat.pow 2 64 then some (BitVec.ofNat 64 n) else none

/-- True of the sampling priorities above zero, as numbers of 32 bits. -/
def isPositivePriority (s : List Char) : Bool :=
  (readSigned s).any fun p => decide (0 < p) && decide (p < Int.pow 2 31)

def extractDatadog (h : Headers) : Option SpanContext := do
  let traceId ← (trimmed h datadogTraceIdHeader).bind readWord
  let spanId ← (trimmed h datadogParentIdHeader).bind readWord
  let sampled := (trimmed h datadogPriorityHeader).any isPositivePriority
  SpanContext.valid? ⟨traceId.setWidth 128, spanId, sampled⟩

/-- The span context in a format's headers, if they are there and well formed. -/
def extract : TraceFormat → Headers → Option SpanContext
  | w3c => extractW3c
  | b3 => extractB3
  | datadog => extractDatadog

def sampledDigit (s : SpanContext) : String := if s.sampled then "1" else "0"

/-- The value of a `traceparent` header. -/
def traceparent (s : SpanContext) : String :=
  "00-" ++ String.ofList s.traceHex ++ "-" ++ String.ofList s.spanHex ++
    (if s.sampled then "-01" else "-00")

/-- The headers that a format writes for a span context, with their values. -/
def written : TraceFormat → SpanContext → List (String × String)
  | w3c, s => [(traceparentHeader, traceparent s)]
  | b3, s =>
    [(b3TraceIdHeader, String.ofList s.traceHex), (b3SpanIdHeader, String.ofList s.spanHex),
     (b3SampledHeader, sampledDigit s)]
  | datadog, s =>
    [(datadogTraceIdHeader, String.ofList (natural (s.traceId.toNat % Nat.pow 2 64))),
     (datadogParentIdHeader, String.ofList (natural s.spanId.toNat)),
     (datadogPriorityHeader, sampledDigit s)]

def inject (f : TraceFormat) (s : SpanContext) (h : Headers) : Headers := h.insertAll (f.written s)

theorem map_fst_written (f : TraceFormat) (s : SpanContext) :
    (f.written s).map Prod.fst = f.headerNames := by cases f <;> rfl

end TraceFormat

end Ambient
