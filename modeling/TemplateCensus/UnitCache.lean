/-!
A cache of limited size for the results of expensive work. When it is full, the entry that was not
used for the longest time makes room. Failures are not kept and do not count as a use.
-/

namespace TemplateCensus

structure UnitCache (α : Type) where
  capacity : Nat
  entries : List (String × α) := []
  deriving Repr

namespace UnitCache

variable {α ε : Type}

def sizeMessage : String := "must provide a positive size"

def ofSize? (size : Int) : Option (UnitCache α) :=
  if 0 < size then some ⟨size.toNat, []⟩ else none

def size (c : UnitCache α) : Nat := c.entries.length

def use (c : UnitCache α) (k : String) (a : α) : UnitCache α :=
  { c with entries := ((k, a) :: c.entries.filter (·.1 ≠ k)).take c.capacity }

structure Fetched (ε α : Type) where
  result : Except ε α
  cache : UnitCache α
  ran : Bool

def fetch (c : UnitCache α) (k : String) (work : Unit → Except ε α) : Fetched ε α :=
  match c.entries.lookup k with
  | some a => ⟨.ok a, c.use k a, false⟩
  | none =>
    match work () with
    | .ok a => ⟨.ok a, c.use k a, true⟩
    | .error e => ⟨.error e, c, true⟩

end UnitCache

end TemplateCensus
