import Ambient.Json.Skip

/-
Reading the parts of a document whose type is known: texts, truth values, names
of a closed set, optional values, lists, objects, and records. A value of
another type is a mismatch, reported when a scalar has been read to its end or a
bracket to its opening.
-/

namespace Ambient.Json

def unexpected : List Char → Fault
  | [] => .ended
  | c :: s =>
    let after (r : Except Fault (List Char)) : Fault :=
      match r with
      | .ok _ => .mismatch
      | .error e => e
    if c = 'n' then after (readWord "ull".toList s)
    else if c = 't' then after (readWord "rue".toList s)
    else if c = 'f' then after (readWord "alse".toList s)
    else if c = '"' then after ((readText s).map Prod.snd)
    else if c = '-' then misplacedUnsigned s
    else if c.isDigit then misplacedUnsigned (c :: s)
    else if c = '[' ∨ c = '\x7b' then .mismatch
    else .malformed

def readString : Reader String := fun s =>
  match skipSpace s with
  | '"' :: s => (readText s).map fun p => (String.ofList p.1, p.2)
  | s => .error (unexpected s)

def readBool : Reader Bool := fun s =>
  match skipSpace s with
  | 't' :: s => (readWord "rue".toList s).map fun s => (true, s)
  | 'f' :: s => (readWord "alse".toList s).map fun s => (false, s)
  | s => .error (unexpected s)

/-- Reads `null`. -/
def readNull (s : List Char) : Except Fault (List Char) :=
  match skipSpace s with
  | 'n' :: s => readWord "ull".toList s
  | s => .error (unexpected s)

/-- Reads a value that may be `null`. -/
def readOptional {α : Type} (read : Reader α) : Reader (Option α) := fun s =>
  match skipSpace s with
  | 'n' :: s => (readWord "ull".toList s).map fun s => (none, s)
  | s => (read s).map fun p => (some p.1, p.2)

def readColon (s : List Char) : Except Fault (List Char) :=
  match skipSpace s with
  | [] => .error .ended
  | ':' :: s => .ok s
  | _ => .error .malformed

/-- Reads a name, the text of an element of a closed set. -/
def readName {α : Type} (named : String → Option α) : Reader α := fun s => do
  let (name, s) ← readString s
  match named name with
  | some a => .ok (a, s)
  | none => .error .mismatch

/-- Reads an element of a closed set: its name, or an object whose one key is the
name and whose value is `null`. -/
def readChoice {α : Type} (named : String → Option α) : Reader α := fun s =>
  match skipSpace s with
  | [] => .error .ended
  | '"' :: s => readName named ('"' :: s)
  | '\x7b' :: s => do
    let (a, s) ← readName named s
    let s ← readNull (← readColon s)
    match skipSpace s with
    | [] => .error .ended
    | '\x7d' :: s => .ok (a, s)
    | _ => .error .malformed
  | _ => .error .malformed

/-- Reads the elements of a list from behind its bracket, by a step that reads one
element. Every round takes a character at least, which bounds their number. -/
def readElements {σ : Type} (element : σ → Reader σ) :
    (rounds : Nat) → (first : Bool) → σ → Reader σ
  | 0, _, _, _ => .error .ended
  | n + 1, first, state, s =>
    match skipSpace s with
    | [] => .error .ended
    | ']' :: s => .ok (state, s)
    | c :: s =>
      if first then do
        let (state, s) ← element state (c :: s)
        readElements element n false state s
      else if c = ',' then
        match skipSpace s with
        | [] => .error .ended
        | ']' :: _ => .error .malformed
        | s => do
          let (state, s) ← element state s
          readElements element n false state s
      else .error .malformed

def readList {σ : Type} (element : σ → Reader σ) (start : σ) : Reader σ := fun s =>
  match skipSpace s with
  | '[' :: s => readElements element (s.length + 1) true start s
  | s => .error (unexpected s)

/-- Reads the members of an object from behind its bracket, by a step that takes the
key and reads on from there. Every round takes a character at least. -/
def readMembers {σ : Type} (member : String → σ → Reader σ) :
    (rounds : Nat) → (first : Bool) → σ → Reader σ
  | 0, _, _, _ => .error .ended
  | n + 1, first, state, s =>
    match skipSpace s with
    | [] => .error .ended
    | '\x7d' :: s => .ok (state, s)
    | c :: s =>
      let rest := if first then c :: s else skipSpace s
      if !first && c != ',' then .error .malformed
      else match rest with
        | [] => .error .ended
        | '"' :: s => do
          let (key, s) ← readText s
          let (state, s) ← member (String.ofList key) state s
          readMembers member n false state s
        | _ => .error .malformed

def readObject {σ : Type} (value : String → σ → Reader σ) (start : σ) : Reader σ := fun s =>
  match skipSpace s with
  | '\x7b' :: s =>
    readMembers (fun key state s => do value key state (← readColon s)) (s.length + 1) true start s
  | s => .error (unexpected s)

/-- A field of a record: its key, and how its value changes the record. -/
structure RecordField (σ : Type) where
  key : String
  read : σ → Reader σ

namespace RecordField

def of {σ α : Type} (key : String) (read : Reader α) (set : σ → α → σ) : RecordField σ :=
  ⟨key, fun state s => (read s).map fun p => (set state p.1, p.2)⟩

end RecordField

/-- Reads a member of a record. A key that is no field's is skipped with its value; a
field that was there before is a mismatch. -/
def readField {σ : Type} (fields : List (RecordField σ)) (key : String) (state : List String × σ) :
    Reader (List String × σ) := fun s =>
  match fields.find? fun f => f.key == key with
  | none => do
    let s ← skipValue (← readColon s)
    .ok (state, s)
  | some f =>
    if state.1.contains key then .error .mismatch
    else do
      let (record, s) ← f.read state.2 (← readColon s)
      .ok ((key :: state.1, record), s)

def readListEnd (s : List Char) : Except Fault (List Char) :=
  match skipSpace s with
  | [] => .error .ended
  | ']' :: s => .ok s
  | _ => .error .malformed

/-- Reads the fields of a record one after another from behind a list's bracket;
missing fields at the end keep their defaults. -/
def readPositions {σ : Type} : List (RecordField σ) → (first : Bool) → σ → Reader σ
  | [], _, state, s => (readListEnd s).map fun s => (state, s)
  | f :: fs, first, state, s =>
    match skipSpace s with
    | [] => .error .ended
    | ']' :: s => .ok (state, s)
    | c :: s =>
      if first then do
        let (state, s) ← f.read state (c :: s)
        readPositions fs false state s
      else if c = ',' then
        match skipSpace s with
        | [] => .error .ended
        | ']' :: _ => .error .malformed
        | s => do
          let (state, s) ← f.read state s
          readPositions fs false state s
      else .error .malformed

/-- Reads a record: an object of its fields, or a list of them in order. Missing
fields keep their defaults. -/
def readRecord {σ : Type} (fields : List (RecordField σ)) (defaults : σ) : Reader σ := fun s =>
  match skipSpace s with
  | '\x7b' :: s =>
    (readMembers (readField fields) (s.length + 1) true ([], defaults) s).map fun p => (p.1.2, p.2)
  | '[' :: s => readPositions fields true defaults s
  | s => .error (unexpected s)

/-- Reads a whole document; nothing may follow but space. -/
def readDocument {α : Type} (read : Reader α) (s : List Char) : Except Fault α := do
  let (a, s) ← read s
  if skipSpace s = [] then .ok a else .error .malformed

end Ambient.Json
