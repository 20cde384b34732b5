import TemplateCensus.Settings.Basic
import TemplateCensus.Toml.Table
import TemplateCensus.Json.Value

/-!
Settings in TOML. Keys are compared without regard to case. A header map that is no table is passed
over.
-/

namespace TemplateCensus.Settings

open Toml

def tomlText? : Value → Option String
  | .text s => some s
  | _ => none

def tomlInteger? : Value → Option Int
  | .integer n => some n
  | _ => none

def tomlHeaders? (old : Keyed String) : Value → Option (Keyed String)
  | .table es => es.foldlM (fun m (k, v) => (tomlText? v).map (m.insert k)) old
  | _ => some old

def tomlField? (s : Settings) (k : String) (v : Value) : Option Settings :=
  if Json.sameName k "cflags" then (tomlText? v).map ({ s with cflags := · })
  else if Json.sameName k "std" then (tomlText? v).map ({ s with std := · })
  else if Json.sameName k "clang" then (tomlText? v).map ({ s with clang := · })
  else if Json.sameName k "headerMap" then (tomlHeaders? s.headers v).map ({ s with headers := · })
  else if Json.sameName k "jobs" then (tomlInteger? v).map ({ s with jobs := · })
  else some s

def ofToml? (e : Edition) (text : String) : Option Settings :=
  (table? e text).bind fun t => t.foldlM (fun s (k, v) => tomlField? s k v) {}

end TemplateCensus.Settings
