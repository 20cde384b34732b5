import TemplateCensus.Json.Value
import TemplateCensus.Text.Decimal

/-!
Reading a field that already has a value. `null` leaves a text, a number or a truth value as it
was; a value of another type is refused. A list is read slot by slot into what the field held
before, so that a repeated list amends the items of the earlier one.
-/

namespace TemplateCensus.Json

def text? (old : String) : Json → Option String
  | .null => some old
  | .string s => some s
  | _ => none

def bool? (old : Bool) : Json → Option Bool
  | .null => some old
  | .bool b => some b
  | _ => none

def int? (old : Int) : Json → Option Int
  | .null => some old
  | .number t => Text.decimal? t.toList
  | _ => none

def texts? (old : List (String × String)) : Json → Option (List (String × String))
  | .null => some []
  | .object ms => ms.foldlM (fun acc (k, v) => (text? "" v).map fun s => acc ++ [(k, s)]) old
  | _ => none

/-- A list under construction: the items, and the slots of an earlier, longer list behind them. -/
structure Slots (α : Type) where
  items : List α := []
  spare : List α := []

def fillSlots {α : Type} (fresh : α) (read : α → Json → Option α) :
    List α → List Json → Option (Slots α)
  | slots, [] => some ⟨[], slots⟩
  | slots, v :: vs =>
    (read (slots.headD fresh) v).bind fun a =>
      (fillSlots fresh read slots.tail vs).map fun s => { s with items := a :: s.items }

def list? {α : Type} (fresh : α) (read : α → Json → Option α) (old : Slots α) :
    Json → Option (Slots α)
  | .null => some {}
  | .array [] => some {}
  | .array vs => fillSlots fresh read (old.items ++ old.spare) vs
  | _ => none

end TemplateCensus.Json
