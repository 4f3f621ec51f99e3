/-
Case in ASCII: the letters A to Z and their small forms, no other character.
-/

namespace Ambient.Text

def lower (s : List Char) : List Char := s.map Char.toLower

def sameIgnoringCase (a b : String) : Bool := lower a.toList == lower b.toList

end Ambient.Text
