import Ambient.Text.Hex

/-
Percent coding of text. The unreserved characters (ASCII letters, digits, and
`-`, `_`, `.`, `~`) stand for themselves; every other byte of the UTF-8 form is
written as `%` and two digits in base sixteen, with capital letters. Decoding
takes either case, leaves a `%` that no two digits follow as it is, and fails if
the bytes it yields are not UTF-8.
-/

namespace Ambient.Text

def isUnreserved (c : Char) : Bool :=
  c.isAlphanum || c == '-' || c == '_' || c == '.' || c == '~'

/-- `%` and two digits, with capital letters. -/
def percentByte (b : UInt8) : List Char :=
  '%' :: (hex 2 b.toNat).map Char.toUpper

def percentEncodeByte (b : UInt8) : List Char :=
  let c := Char.ofNat b.toNat
  if b < 128 && isUnreserved c then [c] else percentByte b

def percentEncodeBytes (bs : List UInt8) : List Char := bs.flatMap percentEncodeByte

def percentEncode (s : String) : List Char := percentEncodeBytes s.toUTF8.toList

def percentDecodeBytes : List Char → List UInt8
  | [] => []
  | '%' :: a :: b :: rest =>
    match hexValue? a, hexValue? b with
    | some x, some y => UInt8.ofNat (16 * x + y) :: percentDecodeBytes rest
    | _, _ => '%'.toNat.toUInt8 :: percentDecodeBytes (a :: b :: rest)
  | c :: rest => String.utf8EncodeChar c ++ percentDecodeBytes rest

/-- The text that a written text stands for, if its bytes are UTF-8. -/
def percentDecode (s : List Char) : Option String :=
  String.fromUTF8? (percentDecodeBytes s).toByteArray

end Ambient.Text
