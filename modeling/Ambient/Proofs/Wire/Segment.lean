import Ambient.Proofs.Binary.ReadBack
import Ambient.Proofs.Text.Percent
import Ambient.Wire.Baggage

/-
One entry as one segment of a header. What is written of a portable value under a
key is read back as that key and value (`Baggage.readSegment_pair`), unless the
key is empty; and it holds neither a comma nor a blank, so joined segments are
cut apart where they were joined (`Baggage.segments_join`).
-/

namespace Ambient

open Text

/-! ## Values -/

/-- The same value; what is no number counts as one value in each format. -/
inductive Value.Alike : Value → Value → Prop
  | refl (v : Value) : Alike v v
  | single {x y} : x.isNaN = true → y.isNaN = true → Alike (.single x) (.single y)
  | double {x y} : x.isNaN = true → y.isNaN = true → Alike (.double x) (.double y)

namespace Value

theorem holds_toInt {w : Width} (n : BitVec w.bits) : w.holds n.toInt = true := by
  have hw : 0 < w.bits := by cases w <;> decide
  have hl : -Int.pow 2 (w.bits - 1) ≤ n.toInt := BitVec.le_toInt n
  have hu : n.toInt < Int.pow 2 (w.bits - 1) := BitVec.toInt_lt
  simp only [Width.holds, Bool.and_eq_true, decide_eq_true_iff]
  exact ⟨hl, hu⟩

/-- What is written of a value is read back under its type. -/
theorem read_wireText {v : Value} {s : String} (h : v.wireText = some s) :
    ∃ v', Value.read v.wireType s = some v' ∧ v.Alike v' := by
  cases v with
  | text t =>
    cases h
    exact ⟨_, rfl, .refl _⟩
  | flag b =>
    cases h
    refine ⟨.flag b, ?_, .refl _⟩
    cases b <;> rfl
  | integer w n =>
    cases h
    refine ⟨.integer w n, ?_, .refl _⟩
    simp only [read, wireType, String.toList_ofList, readSigned_integer, Option.bind_some, holds_toInt, if_true,
      BitVec.ofInt_toInt]
  | single x =>
    cases h
    obtain ⟨y, hy, ha⟩ := x.read?_text
    refine ⟨.single y, ?_, ?_⟩
    · simp only [read, wireType, String.toList_ofList, hy, Option.map_some]
    · rcases ha with rfl | ⟨hx, hy⟩
      · exact .refl _
      · exact .single hx hy
  | double x =>
    cases h
    obtain ⟨y, hy, ha⟩ := x.read?_text
    refine ⟨.double y, ?_, ?_⟩
    · simp only [read, wireType, String.toList_ofList, hy, Option.map_some]
    · rcases ha with rfl | ⟨hx, hy⟩
      · exact .refl _
      · exact .double hx hy
  | sealed o => cases h

/-! ## Values that are written alike -/

namespace Alike

variable {a b : Value}

theorem wireType (h : a.Alike b) : a.wireType = b.wireType := by
  cases h <;> rfl

/-- What is no number is written without its bits. -/
theorem wireText (h : a.Alike b) : a.wireText = b.wireText := by
  cases h with
  | refl => rfl
  | single hx hy => simp [Value.wireText, Binary.Number.text, hx, hy]
  | double hx hy => simp [Value.wireText, Binary.Number.text, hx, hy]

theorem isPortable (h : a.Alike b) : a.isPortable = b.isPortable := by
  rw [← isSome_wireText, ← isSome_wireText, h.wireText]

end Alike

end Value

namespace Baggage

/-! ## The parts of a segment -/

/-- The property that names a type. -/
def property (t : WireType) : List Char := typeAttribute ++ [t.letter]

/-- The key and the text of a segment. -/
def keyValue (key text : String) : List Char := percentEncode key ++ '=' :: percentEncode text

theorem pair_eq_some {key : String} {v : Value} {p : List Char} (h : pair key v = some p) :
    ∃ text, v.wireText = some text ∧
      p = keyValue key text ++ (v.wireType.toList.flatMap fun t => ';' :: property t) := by
  obtain ⟨text, ht, rfl⟩ := Option.map_eq_some_iff.1 h
  refine ⟨text, ht, ?_⟩
  cases v.wireType <;> simp [keyValue, property]

/-- The characters of a segment. -/
def isSegmentChar (c : Char) : Bool := isCoded c || c == '=' || c == ';'

theorem isCoded_ne {c : Char} (h : isCoded c = true) : c ≠ ';' ∧ c ≠ '=' := by
  constructor <;> rintro rfl <;> exact absurd h (by decide)

theorem isBlank_of_isSegmentChar {c : Char} (h : isSegmentChar c = true) : isBlank c = false ∧ c ≠ ',' := by
  simp only [isSegmentChar, Bool.or_eq_true, beq_iff_eq] at h
  rcases h with (h | rfl) | rfl
  · refine ⟨isBlank_of_isCoded h, ?_⟩
    rintro rfl
    exact absurd h (by decide)
  · decide
  · decide

theorem mem_property {t : WireType} {c : Char} (h : c ∈ property t) : (isCoded c || c == '=') = true := by
  have hp : (property t).all (fun c => isCoded c || c == '=') = true := by
    rcases t with _ | w | _ | _
    case integer => cases w <;> decide
    all_goals decide
  exact List.all_eq_true.1 hp c h

theorem mem_keyValue {key text : String} {c : Char} (h : c ∈ keyValue key text) :
    (isCoded c || c == '=') = true := by
  rcases List.mem_append.1 h with h | h
  · simp [isCoded_of_mem_percentEncode h]
  · rcases List.mem_cons.1 h with rfl | h
    · rfl
    · simp [isCoded_of_mem_percentEncode h]

theorem semicolon_notMem {s : List Char} (h : ∀ c ∈ s, (isCoded c || c == '=') = true) : ';' ∉ s :=
  fun hc => absurd (h _ hc) (by decide)

/-- A segment is cut into key and text, and the property that names the type. -/
theorem split_pair (key text : String) (t : Option WireType) :
    split ';' (keyValue key text ++ (t.toList.flatMap fun t => ';' :: property t)) =
      keyValue key text :: t.toList.map property := by
  have hk : ';' ∉ keyValue key text := semicolon_notMem fun _ => mem_keyValue
  cases t with
  | none =>
    simp only [Option.toList_none, List.flatMap_nil, List.append_nil, List.map_nil]
    exact split_of_not_mem hk
  | some t =>
    have ht : ';' ∉ property t := semicolon_notMem fun _ => mem_property
    simp only [Option.toList_some, List.flatMap_cons, List.flatMap_nil, List.append_nil, List.map_cons, List.map_nil]
    rw [split_append hk, split_of_not_mem ht]

theorem split_keyValue (key text : String) :
    split '=' (keyValue key text) = [percentEncode key, percentEncode text] := by
  have hne : ∀ s, '=' ∉ percentEncode s := fun s hc => (isCoded_ne (isCoded_of_mem_percentEncode hc)).2 rfl
  unfold keyValue
  rw [split_append (hne key), split_of_not_mem (hne text)]

theorem decodePart_percentEncode (s : String) : decodePart (percentEncode s) = .ok s := by
  have ht : trim (percentEncode s) = percentEncode s :=
    trim_of_all fun c hc => isBlank_of_isCoded (isCoded_of_mem_percentEncode hc)
  unfold decodePart
  rw [ht, percentDecode_percentEncode]

theorem readPair_parts (key text : String) :
    readPair [percentEncode key, percentEncode text] = if key = "" then .error .emptyKey else .ok (key, text) := by
  simp only [readPair, decodePart_percentEncode, bind, Except.bind]

theorem typeLetter_property (t : Option WireType) :
    typeLetter none (t.toList.map property) = .ok (t.map WireType.letter) := by
  rcases t with _ | _ | w | _ | _
  case some.integer => cases w <;> rfl
  all_goals rfl

theorem readTyped_letter {t : Option WireType} {s : String} {v : Value} (h : Value.read t s = some v) :
    readTyped (t.map WireType.letter) s = .ok v := by
  cases t with
  | none =>
    cases h
    rfl
  | some t => simp only [Option.map_some, readTyped, WireType.ofLetter?_letter, h]

/-! ## Segments -/

/-- An entry is read back from its segment. -/
theorem readSegment_pair {key : String} {v : Value} {p : List Char} (hk : key ≠ "") (h : pair key v = some p) :
    ∃ v', readSegment p = .ok (key, v') ∧ v.Alike v' := by
  obtain ⟨text, ht, rfl⟩ := pair_eq_some h
  obtain ⟨v', hv, ha⟩ := Value.read_wireText ht
  refine ⟨v', ?_, ha⟩
  simp only [readSegment, split_pair, split_keyValue, readPair_parts, if_neg hk, typeLetter_property,
    readTyped_letter hv, bind, Except.bind]

/-- The segment of an entry without a key is dropped. -/
theorem readSegment_pair_empty {v : Value} {p : List Char} (h : pair "" v = some p) :
    readSegment p = .error .emptyKey := by
  obtain ⟨text, -, rfl⟩ := pair_eq_some h
  simp only [readSegment, split_pair, split_keyValue, readPair_parts, if_true, bind, Except.bind]

theorem isSegmentChar_of_mem_pair {key : String} {v : Value} {p : List Char} (h : pair key v = some p) {c : Char}
    (hc : c ∈ p) : isSegmentChar c = true := by
  have weaken : (isCoded c || c == '=') = true → isSegmentChar c = true := fun h => by simp [isSegmentChar, h]
  obtain ⟨text, -, rfl⟩ := pair_eq_some h
  rcases List.mem_append.1 hc with hc | hc
  · exact weaken (mem_keyValue hc)
  · obtain ⟨t, -, hc⟩ := List.mem_flatMap.1 hc
    rcases List.mem_cons.1 hc with rfl | hc
    · rfl
    · exact weaken (mem_property hc)

theorem pair_ne_nil {key : String} {v : Value} {p : List Char} (h : pair key v = some p) : p ≠ [] := by
  obtain ⟨text, -, rfl⟩ := pair_eq_some h
  simp [keyValue]

/-- Values that are alike make the same segment. -/
theorem bind_pair {a b : Option Value} (h : Option.Rel Value.Alike a b) (key : String) :
    a.bind (pair key) = b.bind (pair key) := by
  cases h with
  | none => rfl
  | some h =>
    rw [Option.bind_some, Option.bind_some, pair, pair, h.wireText, h.wireType]

/-- Joined segments are cut apart where they were joined. -/
theorem segments_join {ps : List (List Char)} (hne : ps ≠ []) (h : ∀ p ∈ ps, p ≠ [] ∧ ∀ c ∈ p, isSegmentChar c = true) :
    segments (join ',' ps) = ps := by
  have hcomma : ∀ p ∈ ps, ',' ∉ p := fun p hp hc => (isBlank_of_isSegmentChar ((h p hp).2 _ hc)).2 rfl
  have htrim : ps.map trim = ps :=
    (List.map_congr_left fun p hp => trim_of_all fun c hc => (isBlank_of_isSegmentChar ((h p hp).2 c hc)).1).trans
      (List.map_id ps)
  unfold segments
  rw [split_join hne hcomma, htrim, List.filter_eq_self]
  intro p hp
  simp [(h p hp).1]

end Baggage

end Ambient
