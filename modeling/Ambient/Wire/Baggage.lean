import Ambient.Dict
import Ambient.Text.Blank
import Ambient.Text.Percent
import Ambient.Text.Split
import Ambient.Value

/-
Entries of context data as one header value: `key1=value1;type=l,key2=value2`.
Keys and values are percent coded, and a value that is no text names its type.
Writing leaves sealed values out and orders by key. Reading takes the segments
between commas one by one: a segment that is not well formed is dropped, with
the reason, and the others still count.
-/

namespace Ambient

open Text

/-- Why a segment was dropped. -/
inductive SegmentIssue where
  | notOnePair
  | emptyKey
  | badEncoding
  | unknownType (text : String)
  | badValue (type : WireType)
deriving DecidableEq

def SegmentIssue.message : SegmentIssue → String
  | notOnePair => "expected exactly one '=' in key/value pair"
  | emptyKey => "empty key"
  | badEncoding => "invalid percent-encoding"
  | unknownType t => "unknown type attribute " ++ quoted t
  | badValue t => "value does not parse as type " ++ String.singleton t.letter

/-- A segment that was dropped, and why. -/
structure DroppedSegment where
  segment : String
  issue : SegmentIssue
deriving DecidableEq

namespace Baggage

def header : String := "baggage"

def legacyHeader : String := "correlation-context"

def typeAttribute : List Char := "type=".toList

/-- The written form of an entry, if its value is portable. -/
def pair (key : String) (v : Value) : Option (List Char) :=
  v.wireText.map fun text =>
    percentEncode key ++ '=' :: percentEncode text ++
      match v.wireType with
      | none => []
      | some t => ';' :: typeAttribute ++ [t.letter]

/-- The portable entries with their written forms, in the order of their keys; the
entries of one key keep their order. -/
def pairs (entries : List (String × Value)) : List (String × List Char) :=
  (entries.filterMap fun e => (pair e.1 e.2).map fun p => (e.1, p)).mergeSort
    fun a b => decide (a.1 ≤ b.1)

/-- The header value of entries, if there is anything to write. -/
def encode (entries : List (String × Value)) : Option String :=
  match (pairs entries).map Prod.snd with
  | [] => none
  | ps => some (String.ofList (join ',' ps))

def after : (beginning s : List Char) → Option (List Char)
  | [], s => some s
  | b :: bs, c :: cs => if b = c then after bs cs else none
  | _ :: _, [] => none

def decodePart (s : List Char) : Except SegmentIssue String :=
  match percentDecode (trim s) with
  | some t => .ok t
  | none => .error .badEncoding

/-- The type letter that properties name: the last one, and none if there is none. -/
def typeLetter (found : Option Char) : List (List Char) → Except SegmentIssue (Option Char)
  | [] => .ok found
  | p :: ps =>
    match after typeAttribute (trim p) with
    | none => typeLetter found ps
    | some [c] => typeLetter (some c) ps
    | some t => .error (.unknownType (String.ofList t))

def readTyped (letter : Option Char) (text : String) : Except SegmentIssue Value :=
  match letter with
  | none => .ok (.text text)
  | some c =>
    match WireType.ofLetter? c with
    | none => .error (.unknownType (String.singleton c))
    | some t =>
      match Value.read (some t) text with
      | some v => .ok v
      | none => .error (.badValue t)

def readPair : List (List Char) → Except SegmentIssue (String × String)
  | [rawKey, rawValue] => do
    let key ← decodePart rawKey
    if key = "" then .error .emptyKey
    else
      let text ← decodePart rawValue
      .ok (key, text)
  | _ => .error .notOnePair

/-- Reads one segment: a key and value, and properties behind semicolons, of which
only the type counts. -/
def readSegment (s : List Char) : Except SegmentIssue (String × Value) :=
  match split ';' s with
  | [] => .error .notOnePair
  | keyValue :: properties => do
    let (key, text) ← readPair (split '=' keyValue)
    let letter ← typeLetter none properties
    let value ← readTyped letter text
    .ok (key, value)

/-- The segments of a header value, without blank ends and without blank ones. -/
def segments (s : List Char) : List (List Char) :=
  ((split ',' s).map trim).filter fun p => !p.isEmpty

/-- The entries of the well-formed segments, in order. -/
def readEntries (s : String) : List (String × Value) :=
  (segments s.toList).filterMap fun p => (readSegment p).toOption

/-- The segments that are not well formed, in order. -/
def readDropped (s : String) : List DroppedSegment :=
  (segments s.toList).filterMap fun p =>
    match readSegment p with
    | .ok _ => none
    | .error issue => some ⟨String.ofList p, issue⟩

/-- Reads a header value into a map; a later entry of a key replaces an earlier one. -/
def decodeInto (s : String) (d : Dict String Value) : Dict String Value :=
  d.insertAll (readEntries s)

end Baggage

end Ambient
