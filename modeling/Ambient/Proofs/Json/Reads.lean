import Ambient.Config
import Ambient.Proofs.Json.Text

/-
Texts that are read back as what was written, in front of any rest (`Reads`):
scalars, lists of such texts (`Elements.reads`), objects of such members
(`Members.reads`), and records of which some fields are left out
(`Filled.reads`). Whatever the writer of configurations puts together is read back
by putting these together in the same way.
-/

namespace Ambient.Json

open Config

/-- A text is read as a value in front of any rest. -/
def Reads {α : Type} (read : Reader α) (text : List Char) (a : α) : Prop := ∀ rest, read (text ++ rest) = .ok (a, rest)

/-- How the values start that are written here. -/
def Opens (text : List Char) : Prop := ∃ c r, text = c :: r ∧ isSpace c = false ∧ c ≠ 'n' ∧ c ≠ ']'

theorem Opens.skipSpace_append {text : List Char} (h : Opens text) (rest : List Char) :
    skipSpace (text ++ rest) = text ++ rest := by
  obtain ⟨c, r, rfl, hc, -⟩ := h
  exact skipSpace_cons hc _

theorem opens_writeText (s : String) : Opens (writeText s) := ⟨'"', _, rfl, by decide⟩

theorem opens_bracketed_list (ts : List (List Char)) : Opens (bracketed '[' ']' ts) := ⟨'[', _, rfl, by decide⟩

theorem opens_object (ts : List (List Char)) : Opens (object ts) := ⟨'\x7b', _, rfl, by decide⟩

theorem opens_writeBool (b : Bool) : Opens (writeBool b) := by
  cases b
  · exact ⟨'f', _, rfl, by decide⟩
  · exact ⟨'t', _, rfl, by decide⟩

variable {α σ : Type}

/-! ## Scalars -/

theorem writeText_append (s : String) (rest : List Char) :
    writeText s ++ rest = '"' :: (s.toList.flatMap escapeChar ++ '"' :: rest) := by
  simp [writeText]

theorem reads_string (s : String) : Reads readString (writeText s) s := by
  intro rest
  rw [readString, (opens_writeText s).skipSpace_append, writeText_append]
  simp only [readText_append, Except.map, String.ofList_toList]

theorem reads_bool (b : Bool) : Reads readBool (writeBool b) b := by
  intro rest
  rw [readBool, (opens_writeBool b).skipSpace_append]
  cases b
  · show (readWord "alse".toList ("alse".toList ++ rest)).map _ = _
    rw [readWord_append]
    rfl
  · show (readWord "rue".toList ("rue".toList ++ rest)).map _ = _
    rw [readWord_append]
    rfl

theorem reads_choice {named : String → Option α} {name : String} {a : α} (h : named name = some a) :
    Reads (readChoice named) (writeText name) a := by
  intro rest
  have hname : readName named (writeText name ++ rest) = .ok (a, rest) := by
    simp only [readName, reads_string name rest, bind, Except.bind, h]
  rw [readChoice, (opens_writeText name).skipSpace_append]
  rw [writeText_append] at hname ⊢
  exact hname

theorem Reads.optional {read : Reader α} {text : List Char} {a : α} (h : Reads read text a) (ho : Opens text) :
    Reads (readOptional read) text (some a) := by
  intro rest
  have hread := h rest
  rw [readOptional, ho.skipSpace_append]
  obtain ⟨c, r, rfl, -, hn, -⟩ := ho
  split
  · rename_i hc
    exact absurd (List.cons.inj hc).1 hn
  · rw [hread]
    rfl

/-! ## Lists -/

theorem join_cons (sep : Char) (p : List Char) (ps : List (List Char)) :
    Text.join sep (p :: ps) = p ++ ps.flatMap fun q => sep :: q := by
  induction ps generalizing p with
  | nil => simp [Text.join]
  | cons q ps ih => rw [Text.join, ih, List.flatMap_cons, List.cons_append]; exact fun h => by cases h

/-- Joined parts are hardly more than the characters that they make. -/
theorem length_le_join (sep : Char) (ps : List (List Char)) : ps.length ≤ (Text.join sep ps).length + 1 := by
  have separated : ∀ ps : List (List Char), ps.length ≤ (ps.flatMap fun q => sep :: q).length := by
    intro ps
    induction ps with
    | nil => simp
    | cons p ps ih =>
      simp only [List.flatMap_cons, List.length_cons, List.length_append]
      omega
  cases ps with
  | nil => simp
  | cons p ps =>
    have := separated ps
    rw [join_cons, List.length_append, List.length_cons]
    omega

/-- The texts of elements, read one after another. -/
inductive Elements (element : σ → Reader σ) : List (List Char) → σ → σ → Prop
  | nil {s} : Elements element [] s s
  | cons {text ts s m s'} : Opens text → Reads (element s) text m → Elements element ts m s' →
      Elements element (text :: ts) s s'

section

variable {element : σ → Reader σ} {text : List Char} {ts : List (List Char)} {s s' : σ} {n : Nat}

theorem readElements_first (h : Opens text) (rest : List Char) :
    readElements element (n + 1) true s (text ++ rest) =
      (element s (text ++ rest)).bind fun p => readElements element n false p.1 p.2 := by
  have hskip := h.skipSpace_append rest
  obtain ⟨c, r, rfl, -, -, hc⟩ := h
  rw [readElements, hskip]
  split
  · rename_i he
    cases he
  · rename_i he
    exact absurd (List.cons.inj he).1 hc
  · rename_i he
    rw [if_pos rfl, ← he]
    rfl

theorem readElements_next (h : Opens text) (rest : List Char) :
    readElements element (n + 1) false s (',' :: (text ++ rest)) =
      (element s (text ++ rest)).bind fun p => readElements element n false p.1 p.2 := by
  have hskip := h.skipSpace_append rest
  obtain ⟨c, r, rfl, -, -, hc⟩ := h
  rw [readElements, skipSpace_cons (by decide)]
  split
  · rename_i he
    cases he
  · rename_i he
    exact absurd (List.cons.inj he).1 (by decide)
  · rename_i he
    obtain ⟨rfl, rfl⟩ := List.cons.inj he
    rw [if_neg Bool.false_ne_true, if_pos rfl, hskip]
    split
    · rename_i he
      cases he
    · rename_i he
      exact absurd (List.cons.inj he).1 hc
    · rfl

/-- Further elements, each behind a comma. -/
theorem Elements.next (h : Elements element ts s s') (hn : ts.length < n) (rest : List Char) :
    readElements element n false s ((ts.flatMap fun t => ',' :: t) ++ ']' :: rest) = .ok (s', rest) := by
  induction h generalizing n with
  | nil =>
    obtain _ | n := n
    · cases hn
    · rfl
  | cons ho hread _ ih =>
    obtain _ | n := n
    · cases hn
    · rw [List.flatMap_cons, List.append_assoc, List.cons_append, readElements_next ho, hread]
      exact ih (Nat.lt_of_succ_lt_succ hn)

/-- The elements of a list, from behind its bracket. -/
theorem Elements.first (h : Elements element ts s s') (hn : ts.length < n) (rest : List Char) :
    readElements element n true s (Text.join ',' ts ++ ']' :: rest) = .ok (s', rest) := by
  cases h with
  | nil =>
    obtain _ | n := n
    · cases hn
    · rfl
  | cons ho hread h =>
    obtain _ | n := n
    · cases hn
    · rw [join_cons, List.append_assoc, readElements_first ho, hread]
      exact h.next (Nat.lt_of_succ_lt_succ hn) rest

theorem Elements.reads (h : Elements element ts s s') : Reads (readList element s) (bracketed '[' ']' ts) s' := by
  intro rest
  have hl := length_le_join ',' ts
  rw [readList, (opens_bracketed_list ts).skipSpace_append]
  have hs : bracketed '[' ']' ts ++ rest = '[' :: (Text.join ',' ts ++ ']' :: rest) := by simp [bracketed]
  rw [hs]
  exact h.first (by simp; omega) rest

end

/-! ## Objects -/

theorem member_append (key : String) (value rest : List Char) :
    member key value ++ rest = '"' :: (key.toList.flatMap escapeChar ++ '"' :: ':' :: (value ++ rest)) := by
  simp [member, writeText]

theorem readColon_cons (rest : List Char) : readColon (':' :: rest) = .ok rest := rfl

/-- Members with their keys, the values of which are read one after another. -/
inductive Members (step : String → σ → Reader σ) : List (String × List Char) → σ → σ → Prop
  | nil {s} : Members step [] s s
  | cons {key value ms s m s'} : Reads (step key s) (':' :: value) m → Members step ms m s' →
      Members step ((key, value) :: ms) s s'

/-- The members of an object as they are written. -/
def writeMembers (ms : List (String × List Char)) : List (List Char) := ms.map fun m => member m.1 m.2

section

variable {step : String → σ → Reader σ} {ms : List (String × List Char)} {s s' : σ} {n : Nat}

theorem readMembers_first (key : String) (value rest : List Char) :
    readMembers step (n + 1) true s (member key value ++ rest) =
      (step key s (':' :: value ++ rest)).bind fun p => readMembers step n false p.1 p.2 := by
  rw [member_append]
  show ((readText _).bind fun k => (step (String.ofList k.1) s k.2).bind fun p =>
    readMembers step n false p.1 p.2) = _
  rw [readText_append, Except.bind, String.ofList_toList]
  rfl

theorem readMembers_next (key : String) (value rest : List Char) :
    readMembers step (n + 1) false s (',' :: (member key value ++ rest)) =
      (step key s (':' :: value ++ rest)).bind fun p => readMembers step n false p.1 p.2 := by
  rw [member_append]
  show ((readText _).bind fun k => (step (String.ofList k.1) s k.2).bind fun p =>
    readMembers step n false p.1 p.2) = _
  rw [readText_append, Except.bind, String.ofList_toList]
  rfl

/-- Further members, each behind a comma. -/
theorem Members.next (h : Members step ms s s') (hn : ms.length < n) (rest : List Char) :
    readMembers step n false s (((writeMembers ms).flatMap fun t => ',' :: t) ++ '\x7d' :: rest) = .ok (s', rest) := by
  induction h generalizing n with
  | nil =>
    obtain _ | n := n
    · cases hn
    · rfl
  | cons hread _ ih =>
    obtain _ | n := n
    · cases hn
    · rw [writeMembers, List.map_cons, List.flatMap_cons, List.append_assoc, List.cons_append, readMembers_next, hread]
      exact ih (Nat.lt_of_succ_lt_succ hn)

/-- The members of an object, from behind its bracket. -/
theorem Members.first (h : Members step ms s s') (hn : ms.length < n) (rest : List Char) :
    readMembers step n true s (Text.join ',' (writeMembers ms) ++ '\x7d' :: rest) = .ok (s', rest) := by
  cases h with
  | nil =>
    obtain _ | n := n
    · cases hn
    · rfl
  | cons hread h =>
    obtain _ | n := n
    · cases hn
    · rw [writeMembers, List.map_cons, join_cons, List.append_assoc, readMembers_first, hread]
      exact h.next (Nat.lt_of_succ_lt_succ hn) rest

theorem object_append (ts : List (List Char)) (rest : List Char) :
    object ts ++ rest = '\x7b' :: (Text.join ',' ts ++ '\x7d' :: rest) := by
  simp [object, bracketed]

/-- There are rounds enough for the members of an object. -/
theorem length_lt_rounds (ms : List (String × List Char)) (rest : List Char) :
    ms.length < (Text.join ',' (writeMembers ms) ++ '\x7d' :: rest).length + 1 := by
  have hl := length_le_join ',' (writeMembers ms)
  rw [writeMembers, List.length_map] at hl
  simp only [writeMembers, List.length_append, List.length_cons]
  omega

theorem Members.reads {value : String → σ → Reader σ}
    (h : Members (fun key s text => do value key s (← readColon text)) ms s s') :
    Reads (readObject value s) (object (writeMembers ms)) s' := by
  intro rest
  rw [readObject, (opens_object _).skipSpace_append, object_append]
  exact h.first (length_lt_rounds ms rest) rest

end

/-! ## Records -/

/-- Fields of a record, those that are written with the texts of their values, and the
record before and after they are read. -/
inductive Filled : List (RecordField σ) → List (String × List Char) → σ → σ → Prop
  | nil {s} : Filled [] [] s s
  | absent {f fs ms s s'} : Filled fs ms s s' → Filled (f :: fs) ms s s'
  | present {f fs ms text s m s'} : Reads (f.read s) text m → Filled fs ms m s' →
      Filled (f :: fs) ((f.key, text) :: ms) s s'

/-- The members of a field that may be left out. -/
def writeOptional (key : String) (write : α → List Char) (o : Option α) : List (String × List Char) :=
  (o.map fun a => (key, write a)).toList

/-- The member of a field that is left out if it holds nothing. -/
def writeListed {β : Type} (key : String) (write : List β → List Char) (l : List β) : List (String × List Char) :=
  if l = [] then [] else [(key, write l)]

theorem Reads.of {read : Reader α} {key : String} {text : List Char} {a : α} (h : Reads read text a)
    (set : σ → α → σ) (s : σ) : Reads ((RecordField.of key read set).read s) text (set s a) := by
  intro rest
  show (read (text ++ rest)).map _ = _
  rw [h rest]
  rfl

section

variable {read : Reader α} {fs : List (RecordField σ)} {ms : List (String × List Char)} {s s' : σ}

/-- A field that is always written. -/
theorem Filled.always {key : String} {text : List Char} {a : α} {set : σ → α → σ} (hread : Reads read text a)
    (h : Filled fs ms (set s a) s') : Filled (.of key read set :: fs) ((key, text) :: ms) s s' :=
  .present (f := .of key read set) (hread.of set s) h

/-- A field that is written if its value is there. -/
theorem Filled.optional {key : String} {write : α → List Char} {o : Option α} {set : σ → Option α → σ}
    (hread : ∀ a, Reads read (write a) a) (hopens : ∀ a, Opens (write a)) (hnone : set s none = s)
    (h : Filled fs ms (set s o) s') :
    Filled (.of key (readOptional read) set :: fs) (writeOptional key write o ++ ms) s s' := by
  cases o with
  | none => exact .absent (hnone ▸ h)
  | some a => exact .always ((hread a).optional (hopens a)) h

/-- A field that is written if it holds anything. -/
theorem Filled.listed {β : Type} {key : String} {write : List β → List Char} {g : List β → α} {l : List β}
    {set : σ → α → σ} (hread : Reads read (write l) (g l)) (hnil : set s (g []) = s)
    (h : Filled fs ms (set s (g l)) s') :
    Filled (.of key read set :: fs) (writeListed key write l ++ ms) s s' := by
  cases l with
  | nil => exact .absent (hnil ▸ h)
  | cons b l => exact .always hread h

end

theorem reads_field {fields : List (RecordField σ)} {f : RecordField σ} {seen : List String} {s m : σ}
    {text : List Char} (hf : fields.find? (fun g => g.key == f.key) = some f) (hseen : f.key ∉ seen)
    (h : Reads (f.read s) text m) :
    Reads (readField fields f.key (seen, s)) (':' :: text) (f.key :: seen, m) := by
  intro rest
  simp only [readField, hf, List.contains_eq_mem, hseen, decide_false, Bool.false_eq_true, if_false,
    List.cons_append, readColon_cons, bind, Except.bind, h rest]

/-- Filled fields are members, as long as none of them was there before. -/
theorem Filled.members {fields fs : List (RecordField σ)} {ms : List (String × List Char)} {s s' : σ}
    (h : Filled fs ms s s') (hfields : ∀ f ∈ fs, fields.find? (fun g => g.key == f.key) = some f)
    (hnodup : (fs.map RecordField.key).Nodup) (seen : List String) (hseen : ∀ f ∈ fs, f.key ∉ seen) :
    ∃ seen', Members (readField fields) ms (seen, s) (seen', s') := by
  induction h generalizing seen with
  | nil => exact ⟨seen, .nil⟩
  | absent _ ih =>
    exact ih (fun f hf => hfields f (.tail _ hf)) (List.nodup_cons.1 hnodup).2 seen fun f hf => hseen f (.tail _ hf)
  | @present f fs ms text s m s' hread _ ih =>
    obtain ⟨hhead, htail⟩ := List.nodup_cons.1 hnodup
    have hrest : ∀ g ∈ fs, g.key ∉ f.key :: seen := by
      intro g hg hmem
      rcases List.mem_cons.1 hmem with he | hmem
      · exact hhead (he ▸ List.mem_map_of_mem hg)
      · exact hseen g (.tail _ hg) hmem
    obtain ⟨seen', hmembers⟩ := ih (fun g hg => hfields g (.tail _ hg)) htail (f.key :: seen) hrest
    exact ⟨seen', .cons (reads_field (hfields f (.head _)) (hseen f (.head _)) hread) hmembers⟩

/-- The field with a key is found. -/
theorem find?_key {fields : List (RecordField σ)} (hnodup : (fields.map RecordField.key).Nodup) :
    ∀ f ∈ fields, fields.find? (fun g => g.key == f.key) = some f := by
  induction fields with
  | nil => simp
  | cons g fields ih =>
    obtain ⟨hhead, htail⟩ := List.nodup_cons.1 hnodup
    intro f hf
    rcases List.mem_cons.1 hf with rfl | hf
    · simp
    · have hne : g.key ≠ f.key := fun he => hhead (he ▸ List.mem_map_of_mem hf)
      rw [List.find?_cons_of_neg (by simpa using hne)]
      exact ih htail f hf

/-- **A record is read back** from the object of its filled fields. -/
theorem Filled.reads {fields : List (RecordField σ)} {ms : List (String × List Char)} {s s' : σ}
    (h : Filled fields ms s s') (hnodup : (fields.map RecordField.key).Nodup) :
    Reads (readRecord fields s) (object (writeMembers ms)) s' := by
  obtain ⟨seen, hmembers⟩ := h.members (find?_key hnodup) hnodup [] (by simp)
  intro rest
  rw [readRecord, (opens_object _).skipSpace_append, object_append]
  show (readMembers _ _ _ _ _).map _ = _
  rw [hmembers.first (length_lt_rounds ms rest) rest]
  rfl

end Ambient.Json
