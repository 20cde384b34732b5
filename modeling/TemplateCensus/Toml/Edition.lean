/-!
The editions of TOML. A later edition accepts more texts and gives the others the same meaning.
-/

namespace TemplateCensus.Toml

/-- The edition that a text is read by. Edition 1.1 has two more escapes, keys with letters beyond
ASCII, inline tables over several lines, and times without seconds. -/
inductive Edition where
  | v10
  | v11
  deriving DecidableEq, Repr

namespace Edition

def switch : String := "BURNTSUSHI_TOML_110"

def select (isSet : Bool) : Edition := if isSet then v11 else v10

end Edition

def keyRanges : List (Nat × Nat) :=
  [(0xb2, 0xb3), (0xb9, 0xb9), (0xbc, 0xbe), (0xc0, 0xd6), (0xd8, 0xf6), (0xf8, 0x37d),
    (0x37f, 0x1fff), (0x200c, 0x200d), (0x203f, 0x2040), (0x2070, 0x218f), (0x2460, 0x24ff),
    (0x2c00, 0x2fef), (0x3001, 0xd7ff), (0xf900, 0xfdcf), (0xfdf0, 0xfffd), (0x10000, 0xeffff)]

def isBareKeyChar (e : Edition) (c : Char) : Bool :=
  c.isAlphanum || c = '_' || c = '-' ||
    (e = .v11 && keyRanges.any fun (lo, hi) => lo ≤ c.toNat && c.toNat ≤ hi)

end TemplateCensus.Toml
