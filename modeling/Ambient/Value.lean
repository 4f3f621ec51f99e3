import Ambient.Binary.Decimal
import Ambient.SpanContext
import Ambient.Text.Quoted

/-
Values of context data. Texts, truth values, integers of four widths and floats
of two formats are portable: they have a text that travels in headers and tags,
and all but texts a type letter that tells how to read it. A sealed value holds
an object of the process and never leaves it.
-/

namespace Ambient

open Text

/-- The widths of integers. -/
inductive Width where
  | byte
  | short
  | int
  | long
deriving DecidableEq

namespace Width

def bits : Width → Nat
  | byte => 8
  | short => 16
  | int => 32
  | long => 64

def holds (w : Width) (n : Int) : Bool :=
  decide (-Int.pow 2 (w.bits - 1) ≤ n) && decide (n < Int.pow 2 (w.bits - 1))

end Width

/-- The types that a type letter names. -/
inductive WireType where
  | flag
  | integer (width : Width)
  | single
  | double
deriving DecidableEq

namespace WireType

def letter : WireType → Char
  | flag => 'z'
  | integer .byte => 'b'
  | integer .short => 's'
  | integer .int => 'i'
  | integer .long => 'l'
  | single => 'f'
  | double => 'd'

def ofLetter? (c : Char) : Option WireType :=
  [flag, integer .byte, integer .short, integer .int, integer .long, single, double].find?
    fun t => t.letter == c

@[simp] theorem ofLetter?_letter (t : WireType) : ofLetter? t.letter = some t := by
  rcases t with _ | w | _ | _ <;> try rfl
  cases w <;> rfl

end WireType

/-- What a sealed object holds: something that only its label tells apart, or a span context. -/
inductive Content where
  | label (name : String)
  | span (context : SpanContext)
deriving DecidableEq

/-- An object of the process; its serial number tells it from all others. -/
structure Sealed where
  serial : Nat
  content : Content
deriving DecidableEq

/-- A value of context data. -/
inductive Value where
  | text (s : String)
  | flag (b : Bool)
  | integer (width : Width) (n : BitVec width.bits)
  | single (x : Binary.Number Binary.single)
  | double (x : Binary.Number Binary.double)
  | sealed (object : Sealed)
deriving DecidableEq

namespace Value

def wireType : Value → Option WireType
  | text _ => none
  | flag _ => some .flag
  | integer w _ => some (.integer w)
  | single _ => some .single
  | double _ => some .double
  | sealed _ => none

def isPortable : Value → Bool
  | sealed _ => false
  | _ => true

def flagText (b : Bool) : String := if b then "true" else "false"

def wireText : Value → Option String
  | text s => some s
  | flag b => some (flagText b)
  | integer _ n => some (String.ofList (Text.integer n.toInt))
  | single x => some (String.ofList x.text)
  | double x => some (String.ofList x.text)
  | sealed _ => none

/-- Reads the text of a value of a type; without a type it is a text. -/
def read (type : Option WireType) (s : String) : Option Value :=
  match type with
  | none => some (text s)
  | some .flag => if s = "true" then some (flag true) else if s = "false" then some (flag false) else none
  | some (.integer w) =>
    (readSigned s.toList).bind fun n => if w.holds n then some (integer w (BitVec.ofInt w.bits n)) else none
  | some .single => (Binary.Number.read? Binary.single s.toList).map single
  | some .double => (Binary.Number.read? Binary.double s.toList).map double

def text? : Value → Option String
  | text s => some s
  | _ => none

def span? : Value → Option SpanContext
  | sealed ⟨_, .span s⟩ => some s
  | _ => none

/-- Equality of values: floats by value, sealed objects by identity. -/
def same : Value → Value → Bool
  | text s, text t => s == t
  | flag a, flag b => a == b
  | integer v m, integer w n => v == w && m.toInt == n.toInt
  | single x, single y => x.sameValue y
  | double x, double y => x.sameValue y
  | sealed a, sealed b => a.serial == b.serial
  | _, _ => false

def widthName : Width → String
  | .byte => "i8"
  | .short => "i16"
  | .int => "i32"
  | .long => "i64"

def diagnostic : Value → String
  | text s => quoted s
  | flag b => flagText b
  | integer w n => String.ofList (Text.integer n.toInt) ++ widthName w
  | single x => String.ofList x.text ++ "f32"
  | double x => String.ofList x.text ++ "f64"
  | sealed _ => "<opaque>"

theorem isSome_wireText (v : Value) : v.wireText.isSome = v.isPortable := by cases v <;> rfl

end Value

def sameValue? : Option Value → Option Value → Bool
  | none, none => true
  | some a, some b => a.same b
  | _, _ => false

end Ambient
