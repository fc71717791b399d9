import SpecMatch.Registry.Config
import SpecMatch.Yaml.Value

/-!
# Configurations written as text

A registry configuration may be written in YAML. An empty document is an empty configuration.
-/

namespace SpecMatch.RegistryConfig

/-- Reads a configuration from a YAML text. -/
def ofText (text : String) : Except Fault RegistryConfig :=
  match Yaml.parse text with
  | .error error => .error (.malformedText error)
  | .ok term =>
    let data := match term with
      | .null => .map .plain []
      | other => other
    (parse data).mapError .malformedConfig

end SpecMatch.RegistryConfig
