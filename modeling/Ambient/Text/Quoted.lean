import Ambient.Text.Printable

/-
Text between double quotes, as diagnostics show it. Quotes and backslashes are
escaped, so are the control characters that have a letter; every other hidden
character is written by its number in base sixteen. The quoted form is read off
character by character, so quoting a text is quoting its parts (`escape_append`).
-/

namespace Ambient.Text

/-- The number of a character in base sixteen, between braces. -/
def codePointEscape (c : Char) : List Char :=
  ['\\', 'u', '\x7b'] ++ Nat.toDigits 16 c.toNat ++ ['\x7d']

def escapeChar (c : Char) : List Char :=
  if c = '\x00' then ['\\', '0']
  else if c = '\t' then ['\\', 't']
  else if c = '\r' then ['\\', 'r']
  else if c = '\n' then ['\\', 'n']
  else if c = '"' then ['\\', '"']
  else if c = '\\' then ['\\', '\\']
  else if isPrintable c then [c]
  else codePointEscape c

def escape (s : List Char) : List Char := s.flatMap escapeChar

def quoted (s : String) : String := String.ofList ('"' :: escape s.toList ++ ['"'])

@[simp] theorem escape_append (s t : List Char) : escape (s ++ t) = escape s ++ escape t := by
  simp [escape]

end Ambient.Text
