import Ambient.Dict
import Ambient.Text.Ascii

/-
Headers of a message: values under names. Writing uses the exact name. Reading
looks for the exact name first, then for a name that differs in the case of
ASCII letters only.
-/

namespace Ambient

abbrev Headers := Dict String String

namespace Headers

/-- The value of a header, whatever the case of its name. -/
def lookup (h : Headers) (name : String) : Option String :=
  (h.get? name).or ((h.entries.find? fun e => Text.sameIgnoringCase e.1 name).map Prod.snd)

/-- A header that is there under its exact name is read there. -/
theorem lookup_insert_self (h : Headers) (name value : String) :
    lookup (h.insert name value) name = some value := by
  simp [lookup]

end Headers

end Ambient
