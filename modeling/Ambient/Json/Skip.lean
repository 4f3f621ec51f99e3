import Ambient.Json.Number
import Ambient.Json.Text

/-
Skipping a value of any type and any depth. The value must be well formed, but
its texts and numbers are only checked for their form.
-/

namespace Ambient.Json

/-- The brackets that may be open around a value. -/
inductive Bracket where
  | list
  | object
deriving DecidableEq

def Bracket.close : Bracket → Char
  | list => ']'
  | object => '\x7d'

/-- Skips a value that is no list and no object, from its first character on. -/
def skipScalar (c : Char) (s : List Char) : Except Fault (List Char) :=
  if c = 'n' then readWord "ull".toList s
  else if c = 't' then readWord "rue".toList s
  else if c = 'f' then readWord "alse".toList s
  else if c = '"' then skipText s
  else if c = '-' then skipUnsigned s
  else if c.isDigit then skipUnsigned (c :: s)
  else .error .malformed

def skipKey (s : List Char) : Except Fault (List Char) :=
  match skipSpace s with
  | [] => .error .ended
  | '"' :: s => do
    match skipSpace (← skipText s) with
    | [] => .error .ended
    | ':' :: s => .ok s
    | _ => .error .malformed
  | _ => .error .malformed

def skipMemberKey (inside : List Bracket) (s : List Char) : Except Fault (List Char) :=
  match inside with
  | .object :: _ => skipKey s
  | _ => .ok s

/-- What is skipped next. -/
inductive Expected where
  /-- A value. -/
  | value
  /-- The first member of the innermost bracket, or its end. -/
  | firstMember
  /-- A comma and a further member, or the end of the innermost bracket. -/
  | nextMember

/-- Skips the rest of a value inside open brackets, innermost first. Every two steps
take a character at least, which bounds their number. -/
def skipInside : (steps : Nat) → Expected → List Bracket → List Char → Except Fault (List Char)
  | 0, _, _, _ => .error .ended
  | n + 1, .value, inside, s =>
    match skipSpace s with
    | [] => .error .ended
    | '[' :: s => skipInside n .firstMember (.list :: inside) s
    | '\x7b' :: s => skipInside n .firstMember (.object :: inside) s
    | c :: s => do skipInside n .nextMember inside (← skipScalar c s)
  | _ + 1, .firstMember, [], s => .ok s
  | n + 1, .firstMember, b :: inside, s =>
    match skipSpace s with
    | [] => .error .ended
    | c :: s =>
      if c = b.close then skipInside n .nextMember inside s
      else do skipInside n .value (b :: inside) (← skipMemberKey (b :: inside) (c :: s))
  | _ + 1, .nextMember, [], s => .ok s
  | n + 1, .nextMember, b :: inside, s =>
    match skipSpace s with
    | [] => .error .ended
    | c :: s =>
      if c = b.close then skipInside n .nextMember inside s
      else if c = ',' then do skipInside n .value (b :: inside) (← skipMemberKey (b :: inside) s)
      else .error .malformed

def skipValue (s : List Char) : Except Fault (List Char) :=
  skipInside (2 * s.length + 2) .value [] s

end Ambient.Json
