/-! # Caches of limited size

A cache keeps what was stored most recently under each name, up to a number of entries. Every
use of an entry makes it the most recent one, and the least recent one is dropped first.
-/

namespace GatedExpr

/-- Named entries, the least recently used one first. -/
structure Cache (α : Type) where
  entries : List (String × α)

namespace Cache

variable {α : Type}

def empty : Cache α :=
  { entries := [] }

def names (cache : Cache α) : List String :=
  cache.entries.map (·.1)

def find? (cache : Cache α) (name : String) : Option α :=
  cache.entries.lookup name

/-- The entries without one. -/
def without (cache : Cache α) (name : String) : List (String × α) :=
  cache.entries.filter (·.1 != name)

/-- Makes an entry the most recently used one. -/
def touch (cache : Cache α) (name : String) : Cache α :=
  match cache.find? name with
  | some value => { entries := cache.without name ++ [(name, value)] }
  | none => cache

/-- Drops the least recently used entries beyond the capacity. -/
def trim (cache : Cache α) (capacity : Nat) : Cache α :=
  { entries := cache.entries.drop (cache.entries.length - capacity) }

/-- Stores an entry as the most recent one. Without capacity nothing is stored. -/
def store (cache : Cache α) (capacity : Int) (name : String) (value : α) : Cache α :=
  if capacity ≤ 0 then cache
  else trim { entries := cache.without name ++ [(name, value)] } capacity.toNat

end Cache

end GatedExpr
