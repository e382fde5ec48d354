/-!
# Identities

Two sets or records with the same contents may still be different objects, and callers can ask
which of the two holds. An object is therefore created with a serial number from a supply that
never issues a number twice. A kind of record that has canonical instances gives these an identity
of their own, outside the supply.

## Main definitions

* `PluginClosure.Serial`, `PluginClosure.Supply`: serial numbers and what is left of them.
* `PluginClosure.Fresh`: computations that may create objects.
* `PluginClosure.Identity`: canonical, or issued by the supply.
-/

namespace PluginClosure

/-- A serial number. -/
structure Serial where
  /-- The position in the sequence of numbers issued. -/
  index : Nat
deriving DecidableEq, Hashable, Repr

/-- The serial numbers that have not been issued yet. -/
structure Supply where
  /-- The index of the next number; all smaller ones have been issued. -/
  next : Nat := 0
deriving Repr

/-- Computations that may create objects with identities of their own. -/
abbrev Fresh := StateM Supply

/-- Issues a serial number. -/
def Fresh.serial : Fresh Serial := fun s => (⟨s.next⟩, ⟨s.next + 1⟩)

/-- The identity of a record of a kind whose canonical instances are indexed by `ι`. -/
inductive Identity (ι : Type) where
  /-- The canonical instance with this index. -/
  | canonical (i : ι)
  /-- An instance that was created with this serial number. -/
  | issued (s : Serial)
deriving DecidableEq, Repr

/-- Issues an identity other than every canonical and every earlier one. -/
def Identity.issue {ι : Type} : Fresh (Identity ι) := do
  return .issued (← Fresh.serial)

end PluginClosure
