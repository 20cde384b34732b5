import TemplateCensus.Settings.Basic
import TemplateCensus.Json.Parser
import TemplateCensus.Json.Field

/-!
Settings in JSON. Fields that are left out keep their defaults.
-/

namespace TemplateCensus.Settings

open Json

def headers? (old : Keyed String) (v : Json) : Option (Keyed String) :=
  (texts? old.entries v).map Keyed.ofList

def jsonField? (s : Settings) (k : String) (v : Json) : Option Settings :=
  if sameName k "cflags" then (text? s.cflags v).map ({ s with cflags := · })
  else if sameName k "std" then (text? s.std v).map ({ s with std := · })
  else if sameName k "clang" then (text? s.clang v).map ({ s with clang := · })
  else if sameName k "headerMap" then (headers? s.headers v).map ({ s with headers := · })
  else if sameName k "jobs" then (int? s.jobs v).map ({ s with jobs := · })
  else some s

def amend? (s : Settings) : Json → Option Settings
  | .null => some s
  | .object ms => ms.foldlM (fun s (k, v) => jsonField? s k v) s
  | _ => none

def ofJson? (text : String) : Option Settings := (Json.parse? text).bind ({} : Settings).amend?

end TemplateCensus.Settings
