/-
Finite maps as lists of entries with distinct keys. Entries keep the order in
which their keys first came; replacing a value keeps its key's place. Nothing
that reads a map through `get?` depends on that order, and what prints a map
sorts it first (`Dict.sorted`).
-/

namespace Ambient

def lookupEntry {κ α : Type} [DecidableEq κ] (k : κ) : List (κ × α) → Option α
  | [] => none
  | (k', v) :: rest => if k' = k then some v else lookupEntry k rest

/-- Replaces the value under a key, or adds the entry at the end. -/
def insertEntry {κ α : Type} [DecidableEq κ] (k : κ) (v : α) : List (κ × α) → List (κ × α)
  | [] => [(k, v)]
  | (k', v') :: rest => if k' = k then (k, v) :: rest else (k', v') :: insertEntry k v rest

theorem mem_keys_insertEntry {κ α : Type} [DecidableEq κ] {k x : κ} {v : α} {l : List (κ × α)} :
    x ∈ (insertEntry k v l).map Prod.fst ↔ x = k ∨ x ∈ l.map Prod.fst := by
  induction l with
  | nil => simp [insertEntry]
  | cons e l ih =>
    obtain ⟨k', v'⟩ := e
    by_cases h : k' = k
    · subst h; simp [insertEntry]
    · simp only [insertEntry, h, if_false, List.map_cons, List.mem_cons, ih]
      grind

theorem nodup_insertEntry {κ α : Type} [DecidableEq κ] {k : κ} {v : α} {l : List (κ × α)}
    (h : (l.map Prod.fst).Nodup) : ((insertEntry k v l).map Prod.fst).Nodup := by
  induction l with
  | nil => simp [insertEntry]
  | cons e l ih =>
    obtain ⟨k', v'⟩ := e
    rw [List.map_cons, List.nodup_cons] at h
    by_cases hk : k' = k
    · subst hk; simpa [insertEntry] using h
    · simp only [insertEntry, hk, if_false, List.map_cons, List.nodup_cons]
      exact ⟨fun hm => (mem_keys_insertEntry.1 hm).elim hk h.1, ih h.2⟩

theorem lookupEntry_insertEntry {κ α : Type} [DecidableEq κ] (k x : κ) (v : α) (l : List (κ × α)) :
    lookupEntry x (insertEntry k v l) = if k = x then some v else lookupEntry x l := by
  induction l with
  | nil => simp [insertEntry, lookupEntry]
  | cons e l ih =>
    obtain ⟨k', v'⟩ := e
    by_cases hk : k' = k
    · subst hk; by_cases hx : k' = x <;> simp [insertEntry, lookupEntry, hx]
    · by_cases hx : k' = x
      · subst hx; simp [insertEntry, lookupEntry, hk, Ne.symm hk]
      · simp [insertEntry, lookupEntry, hk, hx, ih]

/-- A finite map: entries with distinct keys. -/
structure Dict (κ α : Type) where
  entries : List (κ × α)
  nodup : (entries.map Prod.fst).Nodup

namespace Dict

variable {κ α β : Type}

theorem ext {a b : Dict κ α} (h : a.entries = b.entries) : a = b := by
  cases a; cases b; cases h; rfl

instance [DecidableEq κ] [DecidableEq α] : DecidableEq (Dict κ α) := fun a b =>
  if h : a.entries = b.entries then isTrue (ext h) else isFalse (fun he => h (he ▸ rfl))

def empty : Dict κ α := ⟨[], List.nodup_nil⟩

instance : Inhabited (Dict κ α) := ⟨empty⟩

/-- The keys, in the order of the entries. -/
def keys (d : Dict κ α) : List κ := d.entries.map Prod.fst

def size (d : Dict κ α) : Nat := d.entries.length

def isEmpty (d : Dict κ α) : Bool := d.entries.isEmpty

def filter (d : Dict κ α) (p : κ → α → Bool) : Dict κ α :=
  ⟨d.entries.filter fun e => p e.1 e.2, d.nodup.sublist (List.filter_sublist.map _)⟩

def map (d : Dict κ α) (f : κ → α → β) : Dict κ β :=
  ⟨d.entries.map fun e => (e.1, f e.1 e.2), by
    simpa [List.map_map, Function.comp_def] using d.nodup⟩

variable [DecidableEq κ]

def get? (d : Dict κ α) (k : κ) : Option α := lookupEntry k d.entries

def contains (d : Dict κ α) (k : κ) : Bool := (d.get? k).isSome

/-- Stores a value under a key, replacing what was there. -/
def insert (d : Dict κ α) (k : κ) (v : α) : Dict κ α :=
  ⟨insertEntry k v d.entries, nodup_insertEntry d.nodup⟩

def erase (d : Dict κ α) (k : κ) : Dict κ α := d.filter fun k' _ => decide (k' ≠ k)

/-- Stores entries one after another: the last value of a repeated key stays. -/
def insertAll (d : Dict κ α) (es : List (κ × α)) : Dict κ α :=
  es.foldl (fun d e => d.insert e.1 e.2) d

/-- The map of a list of entries: the last value of a repeated key stays. -/
def ofList (es : List (κ × α)) : Dict κ α := empty.insertAll es

@[simp] theorem get?_empty (k : κ) : (empty : Dict κ α).get? k = none := rfl

@[simp] theorem get?_insert (d : Dict κ α) (k x : κ) (v : α) :
    (d.insert k v).get? x = if k = x then some v else d.get? x :=
  lookupEntry_insertEntry k x v d.entries

theorem lookupEntry_filter_ne {k x : κ} (l : List (κ × α)) :
    lookupEntry x (l.filter fun e => decide (e.1 ≠ k)) = if k = x then none else lookupEntry x l := by
  induction l with
  | nil => simp [lookupEntry]
  | cons e l ih =>
    obtain ⟨k', v'⟩ := e
    by_cases hk : k' = k
    · subst hk
      by_cases hx : k' = x
      · simp [hx] at ih ⊢; exact ih
      · simp [lookupEntry, hx] at ih ⊢; exact ih
    · by_cases hx : k' = x
      · subst hx; simp [lookupEntry, hk, Ne.symm hk]
      · simp [lookupEntry, hk, hx] at ih ⊢; exact ih

@[simp] theorem get?_erase (d : Dict κ α) (k x : κ) :
    (d.erase k).get? x = if k = x then none else d.get? x :=
  lookupEntry_filter_ne d.entries

def sorted (d : Dict String α) : List (String × α) :=
  d.entries.mergeSort fun a b => decide (a.1 ≤ b.1)

end Dict

end Ambient
