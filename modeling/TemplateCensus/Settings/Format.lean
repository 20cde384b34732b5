import TemplateCensus.Settings.FromJson
import TemplateCensus.Settings.FromToml

/-!
The two formats of settings.
-/

namespace TemplateCensus.Settings

inductive Format where
  | json
  | toml
  deriving DecidableEq, Repr

def Format.name : Format → String
  | json => "JSON"
  | toml => "TOML"

def Format.parse? (e : Toml.Edition) : Format → String → Option Settings
  | json => ofJson?
  | toml => ofToml? e

def Format.message (f : Format) : String := "config error: failed to parse " ++ f.name

end TemplateCensus.Settings
