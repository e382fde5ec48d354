import PluginClosure.TransitiveSet.Walk

/-!
# Listing the elements of a transitive set

A cursor lists the distinct elements of a set in its order, from the front. It walks the graph only
as far as it is asked to, except in the topological order: there the first element is the last one
that the walk yields, so the whole walk is made, and its result kept, when that element is asked
for.

## Main definitions

* `PluginClosure.Cursor`, with `Cursor.next`, `Cursor.nth`, `Cursor.rest`.
* `PluginClosure.TransitiveSet.cursor`: the cursor in front of the first element.
* `PluginClosure.TransitiveSet.toList`: all distinct elements in the order of the set.

Two sets are equal in the sense of `==` if they have the same order and list the same elements,
whatever nodes they are made of.
-/

namespace PluginClosure

variable {α : Type} [BEq α] [Hashable α]

/-- A position in the list of the elements of a set. -/
inductive Cursor (α : Type) [BEq α] [Hashable α] where
  /-- The set is empty. -/
  | empty
  /-- The walk yields the elements in the order of the set. -/
  | walking (w : Walk α)
  /-- The walk, not begun, yields the elements back to front. -/
  | pending (w : Walk α)
  /-- The walk has been made; these elements are left. -/
  | buffered (l : List α)

namespace Cursor

/-- The name of the state in debug text. -/
def stateName : Cursor α → String
  | empty => "empty"
  | walking _ => "walking"
  | pending _ => "pending"
  | buffered _ => "buffered"

/-- The element at the cursor, and the cursor after it. -/
def next : Cursor α → Option α × Cursor α
  | empty => (none, empty)
  | walking w => match w.next with
    | (a, w) => (a, walking w)
  | pending w => match (w.drain []).1 with
    | [] => (none, buffered [])
    | a :: l => (some a, buffered l)
  | buffered [] => (none, buffered [])
  | buffered (a :: l) => (some a, buffered l)

/-- Skips `n` elements and reads the one after them. -/
def nth : Nat → Cursor α → Option α × Cursor α
  | 0, c => c.next
  | n + 1, c => match c.next with
    | (none, c) => (none, c)
    | (some _, c) => nth n c

/-- All elements that are left, and the cursor behind them. -/
def rest : Cursor α → List α × Cursor α
  | empty => ([], empty)
  | walking w => match w.drain [] with
    | (l, w) => (l.reverse, walking w)
  | pending w => ((w.drain []).1, buffered [])
  | buffered l => (l, buffered [])

end Cursor

namespace TransitiveSet

/-- The cursor in front of the first element. -/
def cursor (s : TransitiveSet α) : Cursor α :=
  match s.root with
  | none => .empty
  | some n =>
    let w := Walk.start s.order.plan n
    match s.order with
    | .topological => .pending w
    | _ => .walking w

/-- The distinct elements in the order of the set. -/
def toList (s : TransitiveSet α) : List α := s.cursor.rest.1

instance : BEq (TransitiveSet α) where
  beq s t := s.order = t.order && (s.same t || s.toList == t.toList)

end TransitiveSet

end PluginClosure
