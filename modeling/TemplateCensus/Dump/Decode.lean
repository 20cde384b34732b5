import TemplateCensus.Json.Parser
import TemplateCensus.Json.Field
import TemplateCensus.Dump.Node

/-!
From JSON to the tree of a dump. Attributes are found by name without regard to case, unknown ones
are passed over, and a known one of the wrong type makes the dump unreadable, wherever it stands.
A repeated attribute amends what the first one said.
-/

namespace TemplateCensus.Dump

open Json

def includer? (old : String) : Json → Option String
  | .null => some ""
  | .object ms => ms.foldlM (fun f (k, v) => if sameName k "file" then text? f v else some f) old
  | _ => none

def offset? : Json → Option (Option Int)
  | .null => some none
  | v => (int? 0 v).map some

mutual

def spot? (old : Option Spot) : Json → Option (Option Spot)
  | .null => some none
  | .object ms => (spotMembers? (old.getD default) ms).map some
  | _ => none

def spotMembers? (s : Spot) : List (String × Json) → Option Spot
  | [] => some s
  | (k, v) :: ms =>
    let p := s.point
    let set (p : Point) : Spot := .mk p s.spelling s.expansion
    if sameName k "offset" then
      match offset? v with
      | some n => spotMembers? (set { p with offset := n }) ms
      | none => none
    else if sameName k "file" then
      match text? p.file v with
      | some f => spotMembers? (set { p with file := f }) ms
      | none => none
    else if sameName k "line" then
      match int? p.line v with
      | some n => spotMembers? (set { p with line := n }) ms
      | none => none
    else if sameName k "col" then
      match int? p.column v with
      | some n => spotMembers? (set { p with column := n }) ms
      | none => none
    else if sameName k "includedFrom" then
      match includer? p.includedFrom v with
      | some f => spotMembers? (set { p with includedFrom := f }) ms
      | none => none
    else if sameName k "spellingLoc" then
      match spot? s.spelling v with
      | some t => spotMembers? (.mk p t s.expansion) ms
      | none => none
    else if sameName k "expansionLoc" then
      match spot? s.expansion v with
      | some t => spotMembers? (.mk p s.spelling t) ms
      | none => none
    else spotMembers? s ms

end

def range? (old : Option Spot × Option Spot) : Json → Option (Option Spot × Option Spot)
  | .null => some (none, none)
  | .object ms => ms.foldlM (fun r (k, v) =>
      if sameName k "begin" then (spot? r.1 v).map (·, r.2)
      else if sameName k "end" then (spot? r.2 v).map (r.1, ·)
      else some r) old
  | _ => none

def type? (old : Option TypeText) : Json → Option (Option TypeText)
  | .null => some none
  | .object ms => (ms.foldlM (fun (t : TypeText) (k, v) =>
      if sameName k "qualType" then (text? t.spelling v).map ({ t with spelling := · })
      else if sameName k "desugaredQualType" then
        (text? t.desugared v).map ({ t with desugared := · })
      else some t) (old.getD ⟨"", ""⟩)).map some
  | _ => none

def attribute? (a : Attributes) (k : String) (v : Json) : Option Attributes :=
  if sameName k "id" then (text? a.id v).map ({ a with id := · })
  else if sameName k "kind" then (text? a.kind v).map ({ a with kind := · })
  else if sameName k "name" then (text? a.name v).map ({ a with name := · })
  else if sameName k "loc" then (spot? a.location v).map ({ a with location := · })
  else if sameName k "range" then
    (range? (a.start, a.stop) v).map fun r => { a with start := r.1, stop := r.2 }
  else if sameName k "type" then (type? a.type v).map ({ a with type := · })
  else if sameName k "value" then (text? a.value v).map ({ a with value := · })
  else if sameName k "tagUsed" then (text? a.tag v).map ({ a with tag := · })
  else if sameName k "isInline" then (bool? a.isInline v).map ({ a with isInline := · })
  else if sameName k "isImplicit" then (bool? a.isImplicit v).map ({ a with isImplicit := · })
  else if sameName k "completeDefinition" then
    (bool? a.isComplete v).map ({ a with isComplete := · })
  else some a

/-- A node under construction. Behind its children stand the slots of an earlier, longer list of
children, which a repeated list amends. -/
inductive Draft where
  | null
  | mk (attrs : Attributes) (children spare : List Draft)
  deriving Inhabited

namespace Draft

def started : Draft → Draft
  | null => mk {} [] []
  | d => d

def attrs : Draft → Attributes
  | null => {}
  | mk a _ _ => a

def slots : Draft → List Draft
  | null => []
  | mk _ cs sp => cs ++ sp

def withAttrs : Draft → Attributes → Draft
  | null, a => mk a [] []
  | mk _ cs sp, a => mk a cs sp

def withChildren (d : Draft) (children spare : List Draft) : Draft := mk d.attrs children spare

mutual

def fill (d : Draft) : Json → Option Draft
  | .null => some null
  | .object ms => fillMembers d.started ms
  | _ => none

def fillMembers (d : Draft) : List (String × Json) → Option Draft
  | [] => some d
  | (k, v) :: ms =>
    if sameName k "inner" then
      match v with
      | .null => fillMembers (d.withChildren [] []) ms
      | .array [] => fillMembers (d.withChildren [] []) ms
      | .array vs =>
        match fillItems d.slots vs with
        | some (children, spare) => fillMembers (d.withChildren children spare) ms
        | none => none
      | _ => none
    else
      match attribute? d.attrs k v with
      | some a => fillMembers (d.withAttrs a) ms
      | none => none

def fillItems (slots : List Draft) : List Json → Option (List Draft × List Draft)
  | [] => some ([], slots)
  | v :: vs =>
    match fill (slots.headD null) v with
    | none => none
    | some d =>
      match fillItems slots.tail vs with
      | none => none
      | some (ds, rest) => some (d :: ds, rest)

end

mutual

def node : Draft → Node
  | null => .null
  | mk a cs _ => .mk a (nodes cs)

def nodes : List Draft → List Node
  | [] => []
  | d :: ds => d.node :: nodes ds

end

end Draft

def node? (v : Json) : Option Node := ((Draft.mk {} [] []).fill v).map Draft.node

end TemplateCensus.Dump
