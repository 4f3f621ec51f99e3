import Ambient.Config
import Ambient.Continuation
import Ambient.Tagging
import Ambient.Wire.Codec

/-
An engine: the policy and the process identity that new roots get, a bridge, a
codec and a table of parked contexts. A configuration changes the policy and the
identity, in two steps.
-/

namespace Ambient

abbrev EngineId := Nat

/-- What contexts are entered through. -/
structure Engine where
  policy : Policy
  /-- The configured process identity. -/
  identity : List (String × String)
  bridge : Option BridgeId
  codec : Codec
  table : TableId

namespace Engine

def withPolicy (e : Engine) (p : Policy) : Engine := { e with policy := p }

def withIdentity (e : Engine) (identity : List (String × String)) : Engine := { e with identity }

/-- Takes a configuration over, whose settings made the policy. -/
def configure (e : Engine) (p : Policy) (c : Config) : Engine := (e.withPolicy p).withIdentity c.identity

def seedData (e : Engine) : List (String × Value) := e.identity.map fun i => (i.1, .text i.2)

/-- An engine as diagnostics show it, with the number of entries in its table; its
policy is not told apart from others. -/
def diagnostic (e : Engine) (parked : Nat) : String :=
  "ContextEngine \x7b policy_version: V, tag_bridge: " ++ (if e.bridge.isSome then "true" else "false") ++
    ", continuations: " ++ Nat.repr parked ++ ", .. \x7d"

end Engine

end Ambient
