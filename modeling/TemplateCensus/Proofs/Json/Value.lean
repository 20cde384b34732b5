import TemplateCensus.Json.Parser

/-! Values of the data format can be compared, and with them what is read from a text. -/

namespace TemplateCensus.Json

mutual

def same : Json → Json → Bool
  | .null, .null => true
  | .bool a, .bool b => a = b
  | .number s, .number t => s = t
  | .string s, .string t => s = t
  | .array vs, .array ws => sameItems vs ws
  | .object ms, .object ns => sameMembers ms ns
  | _, _ => false

def sameItems : List Json → List Json → Bool
  | [], [] => true
  | v :: vs, w :: ws => same v w && sameItems vs ws
  | _, _ => false

def sameMembers : List (String × Json) → List (String × Json) → Bool
  | [], [] => true
  | (k, v) :: ms, (l, w) :: ns => k = l && same v w && sameMembers ms ns
  | _, _ => false

end

mutual

theorem same_iff : (v w : Json) → same v w ↔ v = w
  | .null, w => by cases w <;> simp [same]
  | .bool a, w => by cases w <;> simp [same]
  | .number s, w => by cases w <;> simp [same]
  | .string s, w => by cases w <;> simp [same]
  | .array vs, w => by cases w <;> simp [same, sameItems_iff vs]
  | .object ms, w => by cases w <;> simp [same, sameMembers_iff ms]

theorem sameItems_iff : (vs ws : List Json) → sameItems vs ws ↔ vs = ws
  | [], ws => by cases ws <;> simp [sameItems]
  | v :: vs, ws => by cases ws <;> simp [sameItems, same_iff v, sameItems_iff vs]

theorem sameMembers_iff : (ms ns : List (String × Json)) → sameMembers ms ns ↔ ms = ns
  | [], ns => by cases ns <;> simp [sameMembers]
  | (k, v) :: ms, ns => by
    cases ns <;> simp [sameMembers, Prod.ext_iff, same_iff v, sameMembers_iff ms]

end

instance : DecidableEq Json := fun v w => decidable_of_iff _ (same_iff v w)

deriving instance DecidableEq for Reading

end TemplateCensus.Json
