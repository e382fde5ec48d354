import PluginClosure.TransitiveSet.Basic

/-!
# Making transitive sets

A draft collects own elements and imported sets for a set of a fixed order. Importing keeps a
reference to the imported node, whatever its size. Sets of another order are refused, the empty
ones too, since listing their elements in the order of the importer would rearrange them.

A new node is made only if it has something to say: a draft without branches gives the empty set,
and a draft with a single import and nothing else gives the imported node itself.

## Main definitions

* `PluginClosure.Draft`, with `Draft.add`, `Draft.addList`, `Draft.addSet`.
* `PluginClosure.Draft.finish`: the set collected so far. The draft can go on collecting.
* `PluginClosure.TransitiveSet.ofList`: the set that holds a list of elements directly.
* `PluginClosure.OrderMismatch`: the error for an import of another order.

## Main results

* `PluginClosure.Draft.branches_add`, `branches_addList`, `branches_of_addSet`: every operation
  appends to the branches.
-/

namespace PluginClosure

variable {α : Type}

/-- A set of one order was to be imported into a set of another. -/
structure OrderMismatch where
  /-- The order of the set being made. -/
  expected : Order
  /-- The order of the set to be imported. -/
  actual : Order
deriving DecidableEq, Repr

/-- The text of the error. -/
def OrderMismatch.message (e : OrderMismatch) : String :=
  s!"Order mismatch: cannot import a {e.actual} depset into a {e.expected} depset"

namespace TransitiveSet

/-- The set whose root has the given branches, under a new serial number unless it is empty. -/
def ofBranches (o : Order) : List (Branch α (Node α)) → Fresh (TransitiveSet α)
  | [] => return empty o
  | b :: bs => return ⟨o, some (.mk (← Fresh.serial) (b :: bs))⟩

/-- The set that holds the given elements directly. -/
def ofList (o : Order) (l : List α) : Fresh (TransitiveSet α) :=
  ofBranches o (l.map .own)

end TransitiveSet

/-- What has been collected for a set in the making. -/
structure Draft (α : Type) where
  /-- The order of the set. -/
  order : Order
  /-- The branches so far, the latest first. -/
  latest : List (Branch α (Node α)) := []

namespace Draft

/-- The branches so far, in the sequence in which they were added. -/
def branches (d : Draft α) : List (Branch α (Node α)) := d.latest.reverse

/-- Whether nothing that contributes an element has been added. Takes constant time. -/
def isEmpty (d : Draft α) : Bool := d.latest.isEmpty

/-- Adds an own element. -/
def add (d : Draft α) (a : α) : Draft α :=
  { d with latest := .own a :: d.latest }

/-- Adds own elements in the sequence given. -/
def addList (d : Draft α) (l : List α) : Draft α :=
  l.foldl add d

/-- Imports a set of the same order. An empty one leaves no trace. -/
def addSet (d : Draft α) (s : TransitiveSet α) : Except OrderMismatch (Draft α) :=
  if s.order = d.order then
    match s.root with
    | none => .ok d
    | some n => .ok { d with latest := .imported n :: d.latest }
  else
    .error ⟨d.order, s.order⟩

/-- The set collected so far. -/
def finish (d : Draft α) : Fresh (TransitiveSet α) :=
  match d.branches with
  | [.imported n] => return ⟨d.order, some n⟩
  | bs => TransitiveSet.ofBranches d.order bs

@[simp] theorem isEmpty_iff {d : Draft α} : d.isEmpty = true ↔ d.branches = [] := by
  simp [isEmpty, branches]

@[simp] theorem order_add (d : Draft α) (a : α) : (d.add a).order = d.order := rfl

@[simp] theorem branches_add (d : Draft α) (a : α) :
    (d.add a).branches = d.branches ++ [.own a] := by
  simp [add, branches]

@[simp] theorem order_addList (d : Draft α) (l : List α) : (d.addList l).order = d.order := by
  induction l generalizing d with
  | nil => rfl
  | cons a l ih => exact ih (d.add a)

@[simp] theorem branches_addList (d : Draft α) (l : List α) :
    (d.addList l).branches = d.branches ++ l.map .own := by
  induction l generalizing d with
  | nil => simp [addList]
  | cons a l ih => simpa [addList] using ih (d.add a)

theorem addSet_eq_error_iff {d : Draft α} {s : TransitiveSet α} {e : OrderMismatch} :
    d.addSet s = .error e ↔ s.order ≠ d.order ∧ e = ⟨d.order, s.order⟩ := by
  unfold addSet
  split
  · next h => cases s.root <;> simp [h]
  · next h => simp [h, eq_comm]

/-- An import that is accepted appends the imported root, if there is one. -/
theorem branches_of_addSet {d e : Draft α} {s : TransitiveSet α} (h : d.addSet s = .ok e) :
    s.order = d.order ∧ e.order = d.order ∧
      e.branches = d.branches ++ s.root.toList.map .imported := by
  unfold addSet at h
  split at h
  · next ho =>
    split at h
    · next hr => cases h; simp [ho, hr]
    · next n hr => cases h; simp [ho, hr, branches]
  · cases h

end Draft

end PluginClosure
