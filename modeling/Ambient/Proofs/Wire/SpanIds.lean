import Ambient.Proofs.Text.HexBytes
import Ambient.SpanContext

/-
The ids of traces and spans in text (`SpanContext.ids_exact`). An id that was written is
read back. Of all texts just those are read that are as many digits as they should be, each
for its number in base sixteen; written again, that has all digits an id has, with small
letters, and behind zeros where the text was short.
-/

namespace Ambient.SpanContext

open Text

/-- Reads an id of so many bytes from a text that has two digits for each of them. -/
def readBytes (bytes : Nat) (text : String) : Option (BitVec (8 * bytes)) :=
  if text.utf8ByteSize = 2 * bytes then
    (packHex text.toUTF8.toList).map fun packed => BitVec.ofNat (8 * bytes) (bigEndian packed)
  else none

/-- A reader of ids that are written with so many digits, from texts of certain lengths. -/
structure ReadsIds {size : Nat} (read : List Char → Option (BitVec size)) (digits : Nat) (lengths : List Nat) : Prop where
  isSome_iff : ∀ s, (read s).isSome ↔ s.length ∈ lengths ∧ IsHexText s
  number : ∀ s i, read s = some i → i.toNat = hexNumber s
  written : ∀ s i, read s = some i →
    hex digits i.toNat = List.replicate (digits - s.length) '0' ++ s.map Char.toLower

variable {size digits w : Nat}

theorem readsIds_readHex (hw : w ≤ digits) (hsize : 16 ^ digits ≤ 2 ^ size) :
    ReadsIds (fun s => (readHex w s).map (BitVec.ofNat size)) digits [w] := by
  -- A number of so few digits loses nothing in an id.
  have read : ∀ s i, (readHex w s).map (BitVec.ofNat size) = some i →
      s.length = w ∧ IsHexText s ∧ i.toNat = hexNumber s := by
    intro s i h
    obtain ⟨n, hn, rfl⟩ := Option.map_eq_some_iff.1 h
    obtain ⟨hlen, hs, rfl⟩ := readHex_eq_some_iff.1 hn
    have hlt : hexNumber s < 2 ^ size :=
      calc hexNumber s < 16 ^ s.length := IsHexText.hexNumber_lt hs
        _ ≤ 16 ^ digits := Nat.pow_le_pow_right (by decide) (hlen ▸ hw)
        _ ≤ 2 ^ size := hsize
    exact ⟨hlen, hs, by rw [BitVec.toNat_ofNat, Nat.mod_eq_of_lt hlt]⟩
  refine ⟨fun s => ?_, fun s i h => (read s i h).2.2, fun s i h => ?_⟩
  · rw [Option.isSome_map, List.mem_singleton, Option.isSome_iff_exists]
    constructor
    · rintro ⟨n, hn⟩
      exact ⟨(readHex_eq_some_iff.1 hn).1, (readHex_eq_some_iff.1 hn).2.1⟩
    · rintro ⟨hlen, hs⟩
      exact ⟨_, readHex_eq_some_iff.2 ⟨hlen, hs, rfl⟩⟩
  · obtain ⟨hlen, hs, hnumber⟩ := read s i h
    have hroom : digits - s.length + s.length = digits := Nat.sub_add_cancel (hlen ▸ hw)
    rw [hnumber, ← hex_hexNumber hs, ← hex_add _ hs.hexNumber_lt, hroom]

/-- Trying one reader after another. -/
theorem ReadsIds.or {read read' : List Char → Option (BitVec size)} {lengths lengths' : List Nat}
    (h : ReadsIds read digits lengths) (h' : ReadsIds read' digits lengths') :
    ReadsIds (fun s => (read s).or (read' s)) digits (lengths ++ lengths') := by
  have either : ∀ s i, (read s).or (read' s) = some i → read s = some i ∨ read' s = some i := fun s i hor =>
    (Option.or_eq_some_iff.1 hor).imp id And.right
  refine ⟨fun s => ?_, fun s i hor => ?_, fun s i hor => ?_⟩
  · rw [Option.isSome_or, Bool.or_eq_true, h.isSome_iff, h'.isSome_iff, List.mem_append, or_and_right]
  · exact (either s i hor).elim (h.number s i) (h'.number s i)
  · exact (either s i hor).elim (h.written s i) (h'.written s i)

theorem readTraceId_eq (s : List Char) :
    readTraceId s = ((readHex 32 s).map (BitVec.ofNat 128)).or ((readHex 16 s).map (BitVec.ofNat 128)) :=
  Option.map_or

/-- The short form of a trace id is a span id with zeros in front. -/
theorem map_setWidth_readSpanId (s : List Char) :
    (readSpanId s).map (BitVec.setWidth 128) = (readHex 16 s).map (BitVec.ofNat 128) := by
  rw [readSpanId, Option.map_map]
  refine Option.map_congr fun n hn => ?_
  obtain ⟨hlen, hs, rfl⟩ := readHex_eq_some_iff.1 hn
  have hlt : hexNumber s < 16 ^ 16 := hlen ▸ IsHexText.hexNumber_lt hs
  rw [Function.comp_apply, BitVec.setWidth_ofNat_of_le_of_lt (by decide) hlt]

theorem readBytes_eq (bytes : Nat) (text : String) :
    readBytes bytes text = (readHex (2 * bytes) text.toList).map (BitVec.ofNat (8 * bytes)) := by
  rw [readHex_eq_packed, readBytes]
  split
  · rw [Option.map_map]
    rfl
  · rfl

/-- **Ids are read and written exactly.** What was written is read back; of all texts just
those of 16 digits are read as span ids, and those of 32 or 16 as trace ids. Reading and
writing go by bytes, of which the most significant comes first. -/
theorem ids_exact :
    (∀ s : SpanContext, readTraceId s.traceHex = some s.traceId ∧ readSpanId s.spanHex = some s.spanId) ∧
    ReadsIds readSpanId 16 [16] ∧ ReadsIds readTraceId 32 [32, 16] ∧
    (∀ text : String, readSpanId text.toList = readBytes 8 text ∧
      readTraceId text.toList = (readBytes 16 text).or ((readBytes 8 text).map (BitVec.setWidth 128))) ∧
    ∀ s : SpanContext, s.traceHex = (bytesOf 16 s.traceId.toNat).flatMap (fun b => hex 2 b.toNat) ∧
      s.spanHex = (bytesOf 8 s.spanId.toNat).flatMap fun b => hex 2 b.toNat := by
  have spanBytes : ∀ text, readBytes 8 text = readSpanId text.toList := readBytes_eq 8
  refine ⟨fun s => ⟨readTraceId_traceHex s, readSpanId_spanHex s⟩, readsIds_readHex (Nat.le_refl _) (by decide), ?_,
    fun text => ⟨(spanBytes text).symm, ?_⟩, fun s => ⟨hex_eq_flatMap 16 _, hex_eq_flatMap 8 _⟩⟩
  · have long : ReadsIds (fun s => (readHex 32 s).map (BitVec.ofNat 128)) 32 [32] :=
      readsIds_readHex (Nat.le_refl _) (by decide)
    have short : ReadsIds (fun s => (readHex 16 s).map (BitVec.ofNat 128)) 32 [16] :=
      readsIds_readHex (by decide) (by decide)
    rw [funext readTraceId_eq]
    exact long.or short
  · have long : readBytes 16 text = (readHex 32 text.toList).map (BitVec.ofNat 128) := readBytes_eq 16 text
    rw [long, spanBytes, map_setWidth_readSpanId, readTraceId_eq]

example : readTraceId "00000000000000fF".toList = some 255 := by decide

end Ambient.SpanContext
