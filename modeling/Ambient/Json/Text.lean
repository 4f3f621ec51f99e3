import Ambient.Json.Fault
import Ambient.Text.Hex

/-
Texts in a document. A written text escapes the quote, the backslash and the
control characters; reading takes every escape, and pairs of surrogates for the
characters that need two.
-/

namespace Ambient.Json

def escapeChar (c : Char) : List Char :=
  if c = '"' then ['\\', '"']
  else if c = '\\' then ['\\', '\\']
  else if c = '\x08' then ['\\', 'b']
  else if c = '\x0c' then ['\\', 'f']
  else if c = '\n' then ['\\', 'n']
  else if c = '\r' then ['\\', 'r']
  else if c = '\t' then ['\\', 't']
  else if c < ' ' then '\\' :: 'u' :: Text.hex 4 c.toNat
  else [c]

/-- A written text, with its quotes. -/
def writeText (s : String) : List Char := '"' :: s.toList.flatMap escapeChar ++ ['"']

def escapeLetter? (c : Char) : Option Char :=
  if c = '"' ∨ c = '\\' ∨ c = '/' then some c
  else if c = 'b' then some '\x08'
  else if c = 'f' then some '\x0c'
  else if c = 'n' then some '\n'
  else if c = 'r' then some '\r'
  else if c = 't' then some '\t'
  else none

def byteCount (s : List Char) : Nat := s.foldr (fun c n => c.utf8Size + n) 0

/-- Reads the four digits of an escape; fewer than four bytes are too few. -/
def readFourHex (s : List Char) : Except Fault (Nat × List Char) :=
  if byteCount (s.take 4) < 4 then .error .ended
  else
    match Text.readHex 4 (s.take 4) with
    | some n => .ok (n, s.drop 4)
    | none => .error .malformed

def isUpperSurrogate (n : Nat) : Bool := decide (0xD800 ≤ n) && decide (n < 0xDC00)

def isLowerSurrogate (n : Nat) : Bool := decide (0xDC00 ≤ n) && decide (n < 0xE000)

def surrogatePair (upper lower : Nat) : Char :=
  Char.ofNat ((upper - 0xD800) * 0x400 + (lower - 0xDC00) + 0x10000)

def readLowerSurrogate (upper : Nat) : List Char → Except Fault (Char × List Char)
  | [] => .error .ended
  | ['\\'] => .error .ended
  | '\\' :: 'u' :: s => do
    let (lower, s) ← readFourHex s
    if isLowerSurrogate lower then .ok (surrogatePair upper lower, s) else .error .malformed
  | _ => .error .malformed

def readNumbered (s : List Char) : Except Fault (Char × List Char) := do
  let (n, s) ← readFourHex s
  if isLowerSurrogate n then .error .malformed
  else if isUpperSurrogate n then readLowerSurrogate n s
  else .ok (Char.ofNat n, s)

def readEscape : List Char → Except Fault (Char × List Char)
  | [] => .error .ended
  | c :: s =>
    if c = 'u' then readNumbered s
    else match escapeLetter? c with
      | some d => .ok (d, s)
      | none => .error .malformed

theorem length_readFourHex {s r : List Char} {n : Nat} (h : readFourHex s = .ok (n, r)) :
    r.length ≤ s.length := by
  unfold readFourHex at h
  split at h
  · cases h
  · split at h
    · cases h; simp
    · cases h

theorem length_readNumbered {s r : List Char} {c : Char} (h : readNumbered s = .ok (c, r)) :
    r.length ≤ s.length := by
  unfold readNumbered at h
  cases h1 : readFourHex s with
  | error e => rw [h1] at h; cases h
  | ok p =>
    obtain ⟨n, t⟩ := p
    have ht := length_readFourHex h1
    rw [h1] at h
    simp only [bind, Except.bind] at h
    split at h
    · cases h
    split at h
    · unfold readLowerSurrogate at h
      split at h
      · cases h
      · cases h
      · rename_i s'
        cases h2 : readFourHex s' with
        | error e => rw [h2] at h; cases h
        | ok p =>
          obtain ⟨m, u⟩ := p
          have hu := length_readFourHex h2
          rw [h2] at h
          simp only [bind, Except.bind] at h
          split at h
          · obtain ⟨_, rfl⟩ := Prod.mk.inj (Except.ok.inj h)
            simp only [List.length_cons] at ht; omega
          · cases h
      · cases h
    · obtain ⟨_, rfl⟩ := Prod.mk.inj (Except.ok.inj h)
      exact ht

theorem length_readEscape {s r : List Char} {c : Char} (h : readEscape s = .ok (c, r)) :
    r.length < s.length := by
  cases s with
  | nil => cases h
  | cons d s =>
    simp only [readEscape] at h
    split at h
    · have := length_readNumbered h; simp only [List.length_cons]; omega
    · split at h
      · cases h; simp
      · cases h

def readText : List Char → Except Fault (List Char × List Char)
  | [] => .error .ended
  | '"' :: s => .ok ([], s)
  | '\\' :: s =>
    match h : readEscape s with
    | .error e => .error e
    | .ok (c, r) =>
      have := length_readEscape h
      (readText r).map fun p => (c :: p.1, p.2)
  | c :: s => if c < ' ' then .error .malformed else (readText s).map fun p => (c :: p.1, p.2)
termination_by s => s.length

/-- Skips what follows a backslash; numbers are checked for their digits only. -/
def skipEscape : List Char → Except Fault (List Char)
  | [] => .error .ended
  | c :: s =>
    if c = 'u' then (readFourHex s).map Prod.snd
    else if (escapeLetter? c).isSome then .ok s else .error .malformed

theorem length_skipEscape {s r : List Char} (h : skipEscape s = .ok r) : r.length < s.length := by
  cases s with
  | nil => cases h
  | cons d s =>
    simp only [skipEscape] at h
    split at h
    · cases h1 : readFourHex s with
      | error e => rw [h1] at h; cases h
      | ok p =>
        have := length_readFourHex (r := p.2) (n := p.1) h1
        rw [h1] at h; cases h
        simp only [List.length_cons]; omega
    · split at h
      · cases h; simp
      · cases h

def skipText : List Char → Except Fault (List Char)
  | [] => .error .ended
  | '"' :: s => .ok s
  | '\\' :: s =>
    match h : skipEscape s with
    | .error e => .error e
    | .ok r =>
      have := length_skipEscape h
      skipText r
  | c :: s => if c < ' ' then .error .malformed else skipText s
termination_by s => s.length

end Ambient.Json
