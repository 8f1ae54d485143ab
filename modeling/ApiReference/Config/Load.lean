import ApiReference.Config.Default
import ApiReference.Json.Merge

/-!
# Loading configurations

What a configuration file says is laid over the standard configuration.
-/

namespace ApiReference.Config

/-- The standard configuration with the value of a configuration file over it. A file that holds
nothing changes nothing. -/
def load (file? : Option Json) : Except Fault Json :=
  match file? with
  | none => .ok standard
  | some value => Json.merge standard (value.orElse (.object []))

end ApiReference.Config
