import Ambient.Proofs.Wire.Names
import Ambient.Wire.Codec
import Ambient.World.Data

/-
What is wrong in a baggage header stays where it is (`Codec.decode_local`). A header value
is read piece by piece between its commas (`Baggage.Reads`): a piece that cannot be read
is reported and does not count, and a blank one does neither. So values that are joined by
a comma are read one after the other, and a key has what its last readable piece says.
-/

namespace Ambient

open Text

namespace Baggage

variable {s s' p k : String} {v : Value}

/-! ## Piece by piece -/

/-- The pieces of a header value, between its commas. -/
def pieces (s : String) : List (List Char) := split ',' s.toList

/-- What the pieces of a header value say, and what is reported of them. -/
inductive Reads : List (List Char) → List (String × Value) → List DroppedSegment → Prop
  | nil : Reads [] [] []
  | blank {p ps es ds} (hp : trim p = []) : Reads ps es ds → Reads (p :: ps) es ds
  | entry {p ps es ds e} (hp : readSegment (trim p) = .ok e) : Reads ps es ds → Reads (p :: ps) (e :: es) ds
  | rejected {p ps es ds issue} (hp : trim p ≠ []) (he : readSegment (trim p) = .error issue) :
      Reads ps es ds → Reads (p :: ps) es (⟨String.ofList (trim p), issue⟩ :: ds)

/-- Nothing is read of a blank piece. -/
theorem readSegment_nil : readSegment [] = .error .notOnePair := rfl

theorem Reads.append {ps qs : List (List Char)} {es fs : List (String × Value)} {ds gs : List DroppedSegment}
    (h : Reads ps es ds) (h' : Reads qs fs gs) : Reads (ps ++ qs) (es ++ fs) (ds ++ gs) := by
  induction h with
  | nil => exact h'
  | blank hp _ ih => exact .blank hp ih
  | entry hp _ ih => exact .entry hp ih
  | rejected hp he _ ih => exact .rejected hp he ih

/-- Pieces are read in one way only. -/
theorem Reads.unique {ps : List (List Char)} {es fs : List (String × Value)} {ds gs : List DroppedSegment}
    (h : Reads ps es ds) (h' : Reads ps fs gs) : es = fs ∧ ds = gs := by
  induction h generalizing fs gs with
  | nil =>
    cases h'
    exact ⟨rfl, rfl⟩
  | blank hp _ ih =>
    cases h' with
    | blank _ h' => exact ih h'
    | entry he _ =>
      rw [hp, readSegment_nil] at he
      cases he
    | rejected hne _ _ => exact absurd hp hne
  | entry hp _ ih =>
    cases h' with
    | blank he _ =>
      rw [he, readSegment_nil] at hp
      cases hp
    | entry he h' =>
      rw [hp] at he
      cases he
      obtain ⟨rfl, rfl⟩ := ih h'
      exact ⟨rfl, rfl⟩
    | rejected _ he _ =>
      rw [hp] at he
      cases he
  | rejected hp he _ ih =>
    cases h' with
    | blank hblank _ => exact absurd hblank hp
    | entry hok _ =>
      rw [he] at hok
      cases hok
    | rejected _ he' h' =>
      rw [he] at he'
      cases he'
      obtain ⟨rfl, rfl⟩ := ih h'
      exact ⟨rfl, rfl⟩

/-- A header value is read piece by piece. -/
theorem reads_pieces (s : String) : Reads (pieces s) (readEntries s) (readDropped s) := by
  unfold readEntries readDropped segments pieces
  induction split ',' s.toList with
  | nil => exact .nil
  | cons p ps ih =>
    by_cases hp : trim p = []
    · rw [List.map_cons, List.filter_cons_of_neg (by simp [hp])]
      exact .blank hp ih
    · rw [List.map_cons, List.filter_cons_of_pos (by simpa using hp), List.filterMap_cons, List.filterMap_cons]
      cases hr : readSegment (trim p) with
      | ok e => exact .entry hr ih
      | error issue => exact .rejected hp hr ih

/-! ## Values that are joined by a comma -/

theorem pieces_append (a b : String) : pieces (a ++ "," ++ b) = pieces a ++ pieces b := by
  have hcomma : ("," : String).toList = [','] := rfl
  unfold pieces
  rw [String.toList_append, String.toList_append, hcomma, List.append_assoc, List.singleton_append, split_append_sep]

theorem read_append (a b : String) :
    readEntries (a ++ "," ++ b) = readEntries a ++ readEntries b ∧
      readDropped (a ++ "," ++ b) = readDropped a ++ readDropped b := by
  have hjoined := reads_pieces (a ++ "," ++ b)
  rw [pieces_append] at hjoined
  exact hjoined.unique ((reads_pieces a).append (reads_pieces b))

theorem decodeInto_append (a b : String) (d : Dict String Value) :
    decodeInto (a ++ "," ++ b) d = decodeInto b (decodeInto a d) := by
  unfold decodeInto Dict.insertAll
  rw [(read_append a b).1, List.foldl_append]

/-- A value into which one more piece was put: in front, at the end, or at a comma. -/
inductive Inserted (p : String) : String → String → Prop
  | front (s : String) : Inserted p s (p ++ "," ++ s)
  | back (s : String) : Inserted p s (s ++ "," ++ p)
  | between (a b : String) : Inserted p (a ++ "," ++ b) (a ++ "," ++ p ++ "," ++ b)

/-- What is said and reported of an inserted piece comes in between. -/
theorem Inserted.read (h : Inserted p s s') :
    ∃ es fs ds gs, readEntries s = es ++ fs ∧ readEntries s' = es ++ readEntries p ++ fs ∧
      readDropped s = ds ++ gs ∧ readDropped s' = ds ++ readDropped p ++ gs := by
  cases h with
  | front => exact ⟨[], _, [], _, rfl, (read_append p s).1, rfl, (read_append p s).2⟩
  | back =>
    refine ⟨_, [], _, [], (List.append_nil _).symm, ?_, (List.append_nil _).symm, ?_⟩
    · rw [List.append_nil, (read_append s p).1]
    · rw [List.append_nil, (read_append s p).2]
  | between a b =>
    refine ⟨_, _, _, _, (read_append a b).1, ?_, (read_append a b).2, ?_⟩
    · rw [(read_append (a ++ "," ++ p) b).1, (read_append a p).1]
    · rw [(read_append (a ++ "," ++ p) b).2, (read_append a p).2]

/-- A single piece. -/
theorem pieces_of_notMem (hp : ',' ∉ p.toList) : pieces p = [p.toList] := split_of_not_mem hp

theorem read_blank (hp : ',' ∉ p.toList) (hb : trim p.toList = []) : readEntries p = [] ∧ readDropped p = [] := by
  have hread := reads_pieces p
  rw [pieces_of_notMem hp] at hread
  exact hread.unique (.blank hb .nil)

theorem read_rejected {issue : SegmentIssue} (hp : ',' ∉ p.toList) (hb : trim p.toList ≠ [])
    (he : readSegment (trim p.toList) = .error issue) :
    readEntries p = [] ∧ readDropped p = [⟨String.ofList (trim p.toList), issue⟩] := by
  have hread := reads_pieces p
  rw [pieces_of_notMem hp] at hread
  exact hread.unique (.rejected hb he .nil)

/-! ## The last piece of a key -/

/-- Some piece can be read as an entry for a key. -/
def Mentions (k : String) (ps : List (List Char)) : Prop := ∃ p ∈ ps, ∃ v, readSegment (trim p) = .ok (k, v)

/-- The last piece that can be read as an entry for a key says this. -/
def LastSays (k : String) (v : Value) (s : String) : Prop :=
  ∃ before p after, pieces s = before ++ p :: after ∧ readSegment (trim p) = .ok (k, v) ∧ ¬ Mentions k after

/-- The entry of a piece that can be read. -/
def entry? (p : List Char) : Option (String × Value) := (readSegment (trim p)).toOption

theorem entry?_eq_some {p : List Char} {e : String × Value} : entry? p = some e ↔ readSegment (trim p) = .ok e := by
  unfold entry?
  cases readSegment (trim p) <;> simp [Except.toOption]

theorem entry?_eq_none {p : List Char} {issue : SegmentIssue} (h : readSegment (trim p) = .error issue) :
    entry? p = none := by
  unfold entry?
  rw [h]
  rfl

theorem Reads.entries_eq {ps : List (List Char)} {es : List (String × Value)} {ds : List DroppedSegment}
    (h : Reads ps es ds) : es = ps.filterMap entry? := by
  induction h with
  | nil => rfl
  | blank hp _ ih =>
    rw [List.filterMap_cons, entry?_eq_none (by rw [hp, readSegment_nil])]
    exact ih
  | entry hp _ ih => rw [List.filterMap_cons, entry?_eq_some.2 hp, ← ih]
  | rejected _ he _ ih =>
    rw [List.filterMap_cons, entry?_eq_none he]
    exact ih

theorem mentions_iff {ps : List (List Char)} : Mentions k ps ↔ k ∈ (ps.filterMap entry?).map Prod.fst := by
  simp only [Mentions, List.mem_map, List.mem_filterMap, Prod.exists, entry?_eq_some]
  constructor
  · rintro ⟨p, hp, v, hr⟩
    exact ⟨k, v, ⟨p, hp, hr⟩, rfl⟩
  · rintro ⟨_, v, ⟨p, hp, hr⟩, rfl⟩
    exact ⟨p, hp, v, hr⟩

theorem lastSays_iff : LastSays k v s ↔
    ∃ before after, readEntries s = before ++ (k, v) :: after ∧ k ∉ after.map Prod.fst := by
  rw [(reads_pieces s).entries_eq]
  constructor
  · rintro ⟨before, p, after, hs, hp, hlast⟩
    refine ⟨before.filterMap entry?, after.filterMap entry?, ?_, mt mentions_iff.2 hlast⟩
    rw [hs, List.filterMap_append, List.filterMap_cons, entry?_eq_some.2 hp]
  · rintro ⟨es, fs, hs, hlast⟩
    obtain ⟨before, rest, hsplit, -, hrest⟩ := List.filterMap_eq_append_iff.1 hs
    obtain ⟨skipped, p, after, rfl, -, hp, rfl⟩ := List.filterMap_eq_cons_iff.1 hrest
    refine ⟨before ++ skipped, p, after, ?_, entry?_eq_some.1 hp, mt mentions_iff.1 hlast⟩
    rw [hsplit, List.append_assoc]

end Baggage

namespace Headers

/-- What the header of a name says, if there is one. -/
def said (h : Headers) (name : String) : List (String × Value) := (h.lookup name).elim [] Baggage.readEntries

/-- What is reported of the header of a name, if there is one. -/
def reported (h : Headers) (name : String) : List DroppedSegment := (h.lookup name).elim [] Baggage.readDropped

end Headers

namespace Codec

open Baggage

variable {h : Headers} {name p : String}

/-- The older header is read first. -/
theorem entries_decode (c : Codec) (h : Headers) :
    (c.decode h).entries = Dict.insertAll (Dict.ofList (h.said legacyHeader)) (h.said header) := by
  unfold decode baggageHeaders Headers.said
  cases hl : h.lookup legacyHeader <;> cases hb : h.lookup header <;>
    simp [hl, hb, decodeInto, Dict.ofList, Dict.insertAll]

theorem dropped_decode (c : Codec) (h : Headers) :
    (c.decode h).dropped = h.reported legacyHeader ++ h.reported header := by
  unfold decode baggageHeaders Headers.reported
  cases hl : h.lookup legacyHeader <;> cases hb : h.lookup header <;> simp [hl, hb]

/-! ### What counts for a key -/

theorem said_lastSays (hd : h.Distinct) {k : String} {v : Value} :
    (∃ s, h.Holds name s ∧ LastSays k v s) ↔
      ∃ before after, h.said name = before ++ (k, v) :: after ∧ k ∉ after.map Prod.fst := by
  simp only [← Headers.lookup_eq_some_iff hd, Headers.said, lastSays_iff]
  cases h.lookup name <;> simp

theorem said_mentions (hd : h.Distinct) {k : String} :
    (∃ s, h.Holds name s ∧ Mentions k (pieces s)) ↔ k ∈ (h.said name).map Prod.fst := by
  simp only [← Headers.lookup_eq_some_iff hd, Headers.said, mentions_iff, ← (reads_pieces _).entries_eq]
  cases h.lookup name <;> simp

/-- A key has what the header says of it last, or the older header if the header does not
mention it. -/
theorem get?_entries_decode_iff (c : Codec) (hd : h.Distinct) (k : String) (v : Value) :
    (c.decode h).entries.get? k = some v ↔
      (∃ s, h.Holds header s ∧ LastSays k v s) ∨
        (¬ ∃ s, h.Holds header s ∧ Mentions k (pieces s)) ∧ ∃ s, h.Holds legacyHeader s ∧ LastSays k v s := by
  rw [entries_decode, Dict.get?_insertAll_eq_some, Dict.ofList, Dict.get?_insertAll_eq_some, said_lastSays hd,
    said_lastSays hd, said_mentions hd]
  simp

/-! ### What is reported -/

/-- What is reported of the header of a name: a report for each piece of it that is
rejected, and none if there is no such header. -/
inductive Reports (h : Headers) (name : String) : List DroppedSegment → Prop
  | pieces {s es ds} (hs : h.Holds name s) (hr : Reads (pieces s) es ds) : Reports h name ds
  | absent (hs : ∀ s, ¬ h.Holds name s) : Reports h name []

theorem reports_reported (h : Headers) (name : String) : Reports h name (h.reported name) := by
  unfold Headers.reported
  cases hl : h.lookup name with
  | none => exact .absent (Headers.lookup_eq_none_iff.1 hl)
  | some s => exact .pieces (Headers.holds_of_lookup hl) (reads_pieces s)

theorem events_readDown (c : Codec) (h : Headers) (w : World) (id : NodeId) :
    (w.readDown id c h).events = (c.decode h).dropped.map Event.droppedSegment := by
  simp only [World.readDown]
  split <;> rfl

theorem events_readUp (c : Codec) (h : Headers) (w : World) (id : NodeId) :
    (w.readUp id c h).events = (c.decode h).dropped.map Event.droppedSegment := rfl

/-! ### One more piece -/

/-- One of the two headers was given one more piece. -/
inductive Extends (h : Headers) (p : String) : Headers → Prop
  | insert (name x : String) {s s' : String} (hname : name ∈ baggageHeaders)
      (hsame : sameIgnoringCase x name = true) (hx : h.get? x = some s) (hi : Inserted p s s') :
      Extends h p (h.insert x s')

/-- The reports on one more piece come in between, and if it says nothing, it changes nothing. -/
theorem decode_extended (c : Codec) (hd : h.Distinct) {h' : Headers} (he : Extends h p h') :
    (readEntries p = [] → (c.decode h').entries = (c.decode h).entries) ∧
      ∃ before after, (c.decode h).dropped = before ++ after ∧
        (c.decode h').dropped = before ++ readDropped p ++ after := by
  obtain ⟨name, x, hname, hsame, hx, hi⟩ := he
  rename_i s s'
  obtain ⟨es, fs, ds, gs, hes, hes', hds, hds'⟩ := hi.read
  have hold : h.lookup name = some s := (Headers.lookup_eq_some_iff hd).2 ⟨x, hsame, hx⟩
  have hnew : Headers.lookup (h.insert x s') name = some s' := Headers.lookup_insert_same hd hx hsame s'
  have hother : ∀ other, sameIgnoringCase name other = false →
      Headers.lookup (h.insert x s') other = h.lookup other := by
    intro other hne
    refine Headers.lookup_insert_other ?_ h s'
    cases hxo : sameIgnoringCase x other with
    | false => rfl
    | true =>
      rw [sameIgnoringCase_comm] at hsame
      rw [sameIgnoringCase_trans hsame hxo] at hne
      cases hne
  simp only [baggageHeaders, List.mem_cons, List.not_mem_nil, or_false] at hname
  rw [entries_decode, entries_decode, dropped_decode, dropped_decode]
  unfold Headers.said Headers.reported
  rcases hname with rfl | rfl
  · rw [hold, hnew, hother header (by decide)]
    refine ⟨fun hp => ?_, ds, gs ++ (h.lookup header).elim [] readDropped, ?_, ?_⟩
    · simp [hes, hes', hp]
    · simp [hds]
    · simp [hds']
  · rw [hold, hnew, hother legacyHeader (by decide)]
    refine ⟨fun hp => ?_, (h.lookup legacyHeader).elim [] readDropped ++ ds, gs, ?_, ?_⟩
    · simp [hes, hes', hp]
    · simp [hds]
    · simp [hds']

/-- **What is wrong in baggage stays where it is.** Values joined by a comma are read one
after the other. A key has what the header says of it last, else what the older header
does. A blank piece or one that is rejected can be put anywhere into either header, and
no entry changes; each rejected piece is reported once, and nothing else is. -/
theorem decode_local (c : Codec) :
    (∀ a b d, decodeInto (a ++ "," ++ b) d = decodeInto b (decodeInto a d)) ∧
      ∀ h : Headers, h.Distinct →
        (∀ k v, (c.decode h).entries.get? k = some v ↔
          (∃ s, h.Holds header s ∧ LastSays k v s) ∨
            (¬ ∃ s, h.Holds header s ∧ Mentions k (pieces s)) ∧ ∃ s, h.Holds legacyHeader s ∧ LastSays k v s) ∧
        (∃ older newer, (c.decode h).dropped = older ++ newer ∧ Reports h legacyHeader older ∧ Reports h header newer) ∧
        (∀ (w : World) id, (w.readDown id c h).events = (c.decode h).dropped.map Event.droppedSegment ∧
          (w.readUp id c h).events = (c.decode h).dropped.map Event.droppedSegment) ∧
        ∀ p h', Extends h p h' → ',' ∉ p.toList →
          (trim p.toList = [] →
            (c.decode h').entries = (c.decode h).entries ∧ (c.decode h').dropped = (c.decode h).dropped) ∧
          ∀ issue, trim p.toList ≠ [] → readSegment (trim p.toList) = .error issue →
            (c.decode h').entries = (c.decode h).entries ∧
              ∃ before after, (c.decode h).dropped = before ++ after ∧
                (c.decode h').dropped = before ++ ⟨String.ofList (trim p.toList), issue⟩ :: after := by
  refine ⟨decodeInto_append, fun h hd => ⟨get?_entries_decode_iff c hd, ⟨_, _, dropped_decode c h,
    reports_reported h _, reports_reported h _⟩, fun w id => ⟨events_readDown c h w id, events_readUp c h w id⟩, ?_⟩⟩
  intro p h' he hp
  obtain ⟨hentries, before, after, hbefore, hafter⟩ := decode_extended c hd he
  refine ⟨fun hb => ?_, fun issue hb hissue => ?_⟩
  · obtain ⟨hnone, hdropped⟩ := read_blank hp hb
    refine ⟨hentries hnone, ?_⟩
    rw [hafter, hdropped, List.append_nil, hbefore]
  · obtain ⟨hnone, hdropped⟩ := read_rejected hp hb hissue
    refine ⟨hentries hnone, before, after, hbefore, ?_⟩
    rw [hafter, hdropped, List.append_assoc, List.singleton_append]

/-- Both headers, under names in different case. -/
def bothHeaders : Headers := Dict.ofList [("Correlation-Context", "k=old,l=1;type=i"), ("baggage", "k=new,%=x")]

/-- The newer header counts for a key that both mention; a piece with two equals signs in
the older one changes no entry, and neither does a blank one. -/
theorem decode_local_bothHeaders :
    (standard.decode bothHeaders).entries.get? "k" = some (.text "new") ∧
      (standard.decode bothHeaders).entries.get? "l" = some (.integer .int 1) ∧
      (standard.decode (bothHeaders.insert "Correlation-Context" "k=old, a=b=c ,l=1;type=i")).entries =
        (standard.decode bothHeaders).entries ∧
      (standard.decode (bothHeaders.insert "baggage" " ,k=new,%=x")).dropped = (standard.decode bothHeaders).dropped := by
  obtain ⟨hkeys, -, -, hpiece⟩ := (decode_local standard).2 bothHeaders (by decide)
  have hnew : bothHeaders.Holds header "k=new,%=x" := ⟨"baggage", by decide, by decide⟩
  have hold : bothHeaders.Holds legacyHeader "k=old,l=1;type=i" := ⟨"Correlation-Context", by decide, by decide⟩
  have hk : LastSays "k" (.text "new") "k=new,%=x" :=
    ⟨[], "k=new".toList, ["%=x".toList], by decide, by rfl, by rw [mentions_iff]; decide +kernel⟩
  have hl : LastSays "l" (.integer .int 1) "k=old,l=1;type=i" :=
    ⟨["k=old".toList], "l=1;type=i".toList, [], by decide, by rfl, by simp [Mentions]⟩
  have hunmentioned : ¬ ∃ s, bothHeaders.Holds header s ∧ Mentions "l" (pieces s) := by
    rw [said_mentions (by decide)]
    decide +kernel
  have hrejected := hpiece " a=b=c " _ (.insert legacyHeader "Correlation-Context" (by decide) (by decide) (by decide)
    (.between "k=old" "l=1;type=i")) (by decide)
  have hblank := hpiece " " _ (.insert header "baggage" (by decide) (by decide) (by decide) (.front "k=new,%=x"))
    (by decide)
  exact ⟨(hkeys "k" _).2 (.inl ⟨_, hnew, hk⟩), (hkeys "l" _).2 (.inr ⟨hunmentioned, _, hold, hl⟩),
    (hrejected.2 .notOnePair (by decide) (by rfl)).1, (hblank.1 (by decide)).2⟩

end Codec

end Ambient
