import PluginClosure.Order
import PluginClosure.Identity

/-!
# Transitive sets

A transitive set gathers elements along a dependency graph without copying them. Its root is a node
with a list of branches, and each branch is an own element or an imported node. Imported nodes are
shared: the same node may be reached along many paths, and it keeps its serial number on all of
them. Repeated elements are not removed when a set is made, only when it is walked.

## Main definitions

* `PluginClosure.Branch`, `PluginClosure.Node`: the graph. It is acyclic, since a node is made of
  nodes that are already there.
* `PluginClosure.Node.fold`: the value of a node, computed from the values of the nodes it imports.
* `PluginClosure.TransitiveSet`: an order, together with a root unless the set is empty.

## Main results

* `PluginClosure.Node.fold_mk`: the equation of `Node.fold`, through `Branch.map`.
* `PluginClosure.Node.induction`: what passes from imported nodes to their importer holds of all.
-/

namespace PluginClosure

variable {α β γ : Type}

/-- One entry of a node: an own element, or something imported. -/
inductive Branch (α β : Type) where
  /-- An own element. -/
  | own (a : α)
  /-- An import. -/
  | imported (b : β)
deriving DecidableEq, Repr

namespace Branch

/-- Replaces an import by its value under `f`. -/
def map (f : β → γ) : Branch α β → Branch α γ
  | own a => own a
  | imported b => imported (f b)

@[simp] theorem map_own (f : β → γ) (a : α) : (own a).map f = own a := rfl

@[simp] theorem map_imported (f : β → γ) (b : β) :
    (imported b : Branch α β).map f = imported (f b) := rfl

/-- The own element, if the branch is one. -/
def own? : Branch α β → Option α
  | own a => some a
  | imported _ => none

/-- The import, if the branch is one. -/
def imported? : Branch α β → Option β
  | own _ => none
  | imported b => some b

end Branch

/-- A node of the graph behind a set: its serial number and its branches in the sequence in which
they were added. -/
inductive Node (α : Type) where
  | mk (id : Serial) (branches : List (Branch α (Node α)))

namespace Node

/-- The serial number. Nodes that are one and the same object have it in common. -/
def id : Node α → Serial
  | mk i _ => i

/-- The branches, in the sequence in which they were added. -/
def branches : Node α → List (Branch α (Node α))
  | mk _ bs => bs

@[simp] theorem id_mk (i : Serial) (bs : List (Branch α (Node α))) : (mk i bs).id = i := rfl

@[simp] theorem branches_mk (i : Serial) (bs : List (Branch α (Node α))) :
    (mk i bs).branches = bs := rfl

mutual

/-- The value of a node: `f` is given its serial number and its branches, with every import
replaced by its own value. -/
def fold (f : Serial → List (Branch α β) → β) : Node α → β
  | mk i bs => f i (foldBranches f bs)

/-- The branches of a node, with every import replaced by its value. -/
def foldBranches (f : Serial → List (Branch α β) → β) :
    List (Branch α (Node α)) → List (Branch α β)
  | [] => []
  | .own a :: bs => .own a :: foldBranches f bs
  | .imported n :: bs => .imported (fold f n) :: foldBranches f bs

end

theorem foldBranches_eq_map (f : Serial → List (Branch α β) → β)
    (bs : List (Branch α (Node α))) : foldBranches f bs = bs.map (Branch.map (fold f)) := by
  induction bs with
  | nil => rfl
  | cons b bs ih => cases b <;> simp [foldBranches, ih]

theorem fold_mk (f : Serial → List (Branch α β) → β) (i : Serial)
    (bs : List (Branch α (Node α))) :
    fold f (mk i bs) = f i (bs.map (Branch.map (fold f))) := by
  rw [fold, foldBranches_eq_map]

theorem fold_eq (f : Serial → List (Branch α β) → β) (n : Node α) :
    n.fold f = f n.id (n.branches.map (Branch.map (fold f))) := by
  cases n; exact fold_mk ..

theorem sizeOf_lt_of_imported_mem {n : Node α} {i : Serial} {bs : List (Branch α (Node α))}
    (h : .imported n ∈ bs) : sizeOf n < sizeOf (mk i bs) := by
  have := List.sizeOf_lt_of_mem h
  simp only [Branch.imported.sizeOf_spec] at this
  simp only [mk.sizeOf_spec]
  omega

/-- Induction on the graph: what holds of a node as soon as it holds of the nodes that it imports
holds of every node. -/
theorem induction {p : Node α → Prop}
    (step : ∀ i bs, (∀ n, .imported n ∈ bs → p n) → p (mk i bs)) : ∀ n, p n
  | mk i bs => step i bs fun m _ => induction step m
termination_by n => sizeOf n
decreasing_by exact sizeOf_lt_of_imported_mem ‹_›

end Node

/-- An ordered set of elements that shares the structure of the sets it was made of. It is empty
exactly when it has no root. -/
structure TransitiveSet (α : Type) where
  /-- The order in which the elements are listed. -/
  order : Order
  /-- The node that holds the elements, if there are any. -/
  root : Option (Node α)

namespace TransitiveSet

/-- The empty set of an order. -/
def empty (o : Order) : TransitiveSet α := ⟨o, none⟩

/-- Whether the set has no elements. Takes constant time. -/
def isEmpty (s : TransitiveSet α) : Bool := s.root.isNone

@[simp] theorem isEmpty_empty (o : Order) : (empty o : TransitiveSet α).isEmpty = true := rfl

/-- Whether two sets are one and the same object. There is one empty set for each order. -/
def same (s t : TransitiveSet α) : Bool :=
  match s.root, t.root with
  | none, none => s.order = t.order
  | some m, some n => m.id = n.id
  | _, _ => false

end TransitiveSet

end PluginClosure
