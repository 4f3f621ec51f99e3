import Ambient.Proofs.Wire.Names
import Ambient.Proofs.Wire.SpanHeaders
import Mathlib.Logic.Relation

/-
How the names of headers are spelled, and which headers stand beside those that are read,
does not count (`Codec.decode_edited`). One such change keeps what the headers hold under each
name that is read (`Headers.Edit.holds_iff`); where no two names differ in case only, that
settles what is found, and what is found settles what is decoded.
-/

namespace Ambient

open Text

/-- The names of the headers that are read: two of entries, eight of span contexts. -/
def Codec.readNames : List String :=
  [Baggage.header, Baggage.legacyHeader, TraceFormat.traceparentHeader, TraceFormat.b3TraceIdHeader,
   TraceFormat.b3SpanIdHeader, TraceFormat.b3SampledHeader, TraceFormat.b3FlagsHeader,
   TraceFormat.datadogTraceIdHeader, TraceFormat.datadogParentIdHeader, TraceFormat.datadogPriorityHeader]

namespace Headers

variable {h h' : Headers} {x v : String}

/-! ## Changes of headers -/

/-- A name that differs from all that are read, whatever the case. -/
def Unread (name : String) : Prop := ∀ x ∈ Codec.readNames, sameIgnoringCase name x = false

instance : DecidablePred Unread := fun name =>
  inferInstanceAs (Decidable (∀ x ∈ Codec.readNames, sameIgnoringCase name x = false))

/-- A change that does not count: the names in another case and the headers in any order, or
one header added or taken out whose name is not read. -/
inductive Edit (h : Headers) : Headers → Prop
  | respell (h' : Headers) (spell : String → String) (hcase : ∀ x ∈ h.keys, sameIgnoringCase (spell x) x = true)
      (hentries : h'.entries.Perm (h.entries.map fun e => (spell e.1, e.2))) : Edit h h'
  | add (name v : String) (hname : Unread name) : Edit h (Dict.insert h name v)
  | remove (name : String) (hname : Unread name) : Edit h (Dict.erase h name)

theorem Unread.ne {name y : String} (hname : Unread name) (hx : x ∈ Codec.readNames)
    (hsame : sameIgnoringCase y x = true) : name ≠ y := by
  rintro rfl
  rw [hname x hx] at hsame
  cases hsame

/-- A change keeps what the headers hold under a name that is read. -/
theorem Edit.holds_iff (he : h.Edit h') (hx : x ∈ Codec.readNames) : h'.Holds x v ↔ h.Holds x v := by
  cases he with
  | respell _ spell hcase hentries =>
    constructor
    · rintro ⟨y, hsame, hy⟩
      obtain ⟨e, hmem, he⟩ := List.mem_map.1 (hentries.subset (Dict.mem_entries.2 hy))
      obtain ⟨rfl, rfl⟩ := Prod.mk.inj he
      have hspell : sameIgnoringCase e.1 (spell e.1) = true := by
        rw [sameIgnoringCase_comm]
        exact hcase e.1 (List.mem_map.2 ⟨e, hmem, rfl⟩)
      exact ⟨e.1, sameIgnoringCase_trans hspell hsame, Dict.mem_entries.1 hmem⟩
    · rintro ⟨y, hsame, hy⟩
      have hmem : (spell y, v) ∈ h.entries.map fun e => (spell e.1, e.2) :=
        List.mem_map.2 ⟨(y, v), Dict.mem_entries.2 hy, rfl⟩
      have hspell := hcase y (mem_keys_of_get? hy)
      exact ⟨spell y, sameIgnoringCase_trans hspell hsame, Dict.mem_entries.1 (hentries.symm.subset hmem)⟩
  | add name u hname =>
    refine exists_congr fun y => and_congr_right fun hsame => ?_
    rw [Dict.get?_insert, if_neg (hname.ne hx hsame)]
  | remove name hname =>
    refine exists_congr fun y => and_congr_right fun hsame => ?_
    rw [Dict.get?_erase, if_neg (hname.ne hx hsame)]

/-- So do any number of changes. -/
theorem holds_iff_of_edits (he : Relation.ReflTransGen Edit h h') (hx : x ∈ Codec.readNames) :
    h'.Holds x v ↔ h.Holds x v := by
  induction he with
  | refl => exact Iff.rfl
  | tail _ he ih => exact (he.holds_iff hx).trans ih

/-- What is found follows from what is there, if one of the two has no two names that
differ in case only. -/
theorem lookup_congr (hd : h.Distinct) (hv : ∀ v, h'.Holds x v ↔ h.Holds x v) : h'.lookup x = h.lookup x := by
  cases hl : h'.lookup x with
  | none =>
    symm
    rw [lookup_eq_none_iff] at hl ⊢
    intro v hh
    exact hl v ((hv v).2 hh)
  | some v =>
    symm
    rw [lookup_eq_some_iff hd]
    exact (hv v).1 (holds_of_lookup hl)

theorem lookup_edited (hd : h.Distinct) (he : Relation.ReflTransGen Edit h h') (hx : x ∈ Codec.readNames) :
    h'.lookup x = h.lookup x :=
  lookup_congr hd fun _ => holds_iff_of_edits he hx

end Headers

/-! ## What is decoded -/

namespace TraceFormat

variable {h h' : Headers}

theorem trimmed_congr {name : String} (hl : h'.lookup name = h.lookup name) : trimmed h' name = trimmed h name := by
  unfold trimmed
  rw [hl]

/-- Each format looks at no other headers. -/
theorem extract_congr (f : TraceFormat) (hl : ∀ x ∈ Codec.readNames, h'.lookup x = h.lookup x) :
    f.extract h' = f.extract h := by
  have ht : ∀ x ∈ Codec.readNames, trimmed h' x = trimmed h x := fun x hx => trimmed_congr (hl x hx)
  cases f with
  | w3c =>
    show extractW3c h' = extractW3c h
    unfold extractW3c
    rw [ht _ (by decide)]
  | b3 =>
    show extractB3 h' = extractB3 h
    unfold extractB3
    rw [ht b3TraceIdHeader (by decide), ht b3SpanIdHeader (by decide), ht b3FlagsHeader (by decide),
      ht b3SampledHeader (by decide)]
  | datadog =>
    show extractDatadog h' = extractDatadog h
    unfold extractDatadog
    rw [ht datadogTraceIdHeader (by decide), ht datadogParentIdHeader (by decide), ht datadogPriorityHeader (by decide)]

end TraceFormat

namespace Codec

variable {h h' : Headers}

/-- What is found under the names that are read is all that decoding sees. -/
theorem decode_congr (hl : ∀ x ∈ readNames, h'.lookup x = h.lookup x) : standard.decode h' = standard.decode h := by
  have hvalues : baggageHeaders.filterMap h'.lookup = baggageHeaders.filterMap h.lookup := by
    unfold baggageHeaders
    rw [List.filterMap_cons, List.filterMap_cons, hl Baggage.legacyHeader (by decide), List.filterMap_cons,
      List.filterMap_cons, hl Baggage.header (by decide)]
    rfl
  have hspan : (standard.decode h').span = (standard.decode h).span := by
    rw [span_decode, span_decode]
    exact congr (congrArg Option.or (TraceFormat.w3c.extract_congr hl))
      (congr (congrArg Option.or (TraceFormat.b3.extract_congr hl)) (TraceFormat.datadog.extract_congr hl))
  unfold decode at hspan ⊢
  rw [hvalues]
  exact congrArg (fun s => Decoded.mk _ s _) hspan

/-- **Spelling and other headers do not count.** If no two names differ in case only, then
names in another case, and headers added or taken out beside those that are read, leave what
is decoded as it was: the entries, the span context and the segments that are dropped. -/
theorem decode_edited (hd : h.Distinct) (he : Relation.ReflTransGen Headers.Edit h h') :
    standard.decode h' = standard.decode h :=
  decode_congr fun _ hx => Headers.lookup_edited hd he hx

/-- A header is taken out, names are spelled otherwise, and two headers come in whose names
differ in case only. -/
theorem decode_edited_capitals :
    let h : Headers := Dict.ofList [("Baggage", "k=v;x"), ("host", "a"), ("x-b3-traceid", "00000000000000a7"),
      ("X-B3-SpanId", "000000000000010c"), ("x-b3-sampled", "1")]
    let h' : Headers := Dict.ofList [("X-B3-TRACEID", "00000000000000a7"), ("baggage", "k=v;x"),
      ("x-b3-spanid", "000000000000010c"), ("x-b3-sampled", "1"), ("Accept", "b"), ("accept", "c")]
    h.Distinct ∧ standard.decode h' = standard.decode h ∧ (standard.decode h').span = some ⟨167, 268, true⟩ := by
  intro h h'
  have hd : h.Distinct := by decide
  let spell (x : String) : String :=
    if x = "Baggage" then "baggage" else if x = "x-b3-traceid" then "X-B3-TRACEID"
    else if x = "X-B3-SpanId" then "x-b3-spanid" else x
  let spelled : Headers := Dict.ofList [("X-B3-TRACEID", "00000000000000a7"), ("baggage", "k=v;x"),
    ("x-b3-spanid", "000000000000010c"), ("x-b3-sampled", "1")]
  have he : Relation.ReflTransGen Headers.Edit h h' :=
    .head (.remove "host" (by decide)) <| .head (.respell spelled spell (by decide) (by decide)) <|
      .head (.add "Accept" "b" (by decide)) <| .single (.add "accept" "c" (by decide))
  exact ⟨hd, decode_edited hd he, by decide +kernel⟩

end Codec

end Ambient
