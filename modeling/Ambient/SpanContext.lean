import Ambient.Text.Hex

/-
The identity of a span: the trace it belongs to, its own number, and whether the
trace is sampled. In text a trace id has 32 digits in base sixteen and a span id
16; a trace id of 16 digits is read as the lower half of one.
-/

namespace Ambient

open Text

/-- The span that a caller was in. -/
structure SpanContext where
  traceId : BitVec 128
  spanId : BitVec 64
  sampled : Bool
deriving DecidableEq

namespace SpanContext

def isValid (s : SpanContext) : Bool := s.traceId != 0 && s.spanId != 0

def traceHex (s : SpanContext) : List Char := hex 32 s.traceId.toNat

def spanHex (s : SpanContext) : List Char := hex 16 s.spanId.toNat

def text (s : SpanContext) : String :=
  String.ofList (s.traceHex ++ '/' :: s.spanHex) ++ " sampled=" ++ (if s.sampled then "true" else "false")

/-- Reads a span id: 16 digits of either case. -/
def readSpanId (s : List Char) : Option (BitVec 64) := (readHex 16 s).map (BitVec.ofNat 64)

/-- Reads a trace id: 32 digits of either case, or 16 for the lower half. -/
def readTraceId (s : List Char) : Option (BitVec 128) :=
  ((readHex 32 s).or (readHex 16 s)).map (BitVec.ofNat 128)

def valid? (s : SpanContext) : Option SpanContext := if s.isValid then some s else none

/-- Two random words as a trace id, marked as a random identifier: version four in
the upper word, variant two in the lower one. -/
def randomTraceId (upper lower : BitVec 64) : BitVec 128 :=
  ((upper &&& 0xFFFFFFFFFFFF0FFF#64) ||| 0x4000#64) ++
    ((lower &&& 0x3FFFFFFFFFFFFFFF#64) ||| 0x8000000000000000#64)

/-- A fresh span context from random words: two for the trace id, and the first of
the others that is not zero for the span id. -/
def generate (sampled : Bool) : List (BitVec 64) → Option SpanContext
  | upper :: lower :: rest =>
    (rest.find? (· != 0)).map fun spanId => ⟨randomTraceId upper lower, spanId, sampled⟩
  | _ => none

@[simp] theorem readSpanId_spanHex (s : SpanContext) : readSpanId s.spanHex = some s.spanId := by
  have h : s.spanId.toNat % Nat.pow 16 16 = s.spanId.toNat := Nat.mod_eq_of_lt s.spanId.isLt
  rw [readSpanId, spanHex, readHex_hex, h, Option.map_some, BitVec.ofNat_toNat, BitVec.setWidth_eq]

@[simp] theorem readTraceId_traceHex (s : SpanContext) : readTraceId s.traceHex = some s.traceId := by
  have h : s.traceId.toNat % Nat.pow 16 32 = s.traceId.toNat := Nat.mod_eq_of_lt s.traceId.isLt
  rw [readTraceId, traceHex, readHex_hex, h, Option.some_or, Option.map_some, BitVec.ofNat_toNat,
    BitVec.setWidth_eq]

end SpanContext

end Ambient
