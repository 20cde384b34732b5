/-!
Values of the JSON data format. Objects keep their members in order, repeated names included, and
numbers keep their text: what a repeated name or an exponent means is for the reader of the value.
-/

namespace TemplateCensus

inductive Json where
  | null
  | bool (b : Bool)
  | number (text : String)
  | string (s : String)
  | array (items : List Json)
  | object (members : List (String × Json))
  deriving Inhabited, Repr

namespace Json

/-- Field names are compared without regard to case; the long s and the kelvin sign fold to the
letters they are variants of. -/
def foldChar (c : Char) : Char :=
  if c = '\u017f' then 's' else if c = '\u212a' then 'k' else c.toLower

def sameName (a b : String) : Bool := a.toList.map foldChar = b.toList.map foldChar

end Json

end TemplateCensus
