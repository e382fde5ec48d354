import PluginClosure.Proofs.TransitiveSet.Graph
import PluginClosure.TransitiveSet.Walk

/-!
# Unfolding a graph along a plan

The expansion of a node is written in terms of an order, and a walk in terms of a plan: the passes
over the branches of every node, and the end from which the branches are read. The *unfolding* of a
node along a plan is the list that the walk would yield if it remembered nothing, neither the nodes
that it has visited nor the elements that it has yielded. Along the plan of an order the unfolding
is the expansion.

## Main definitions

* `PluginClosure.Pass.offers`: the elements that a pass finds in branches.
* `PluginClosure.Node.unfold`: the unfolding of a node along a plan.

## Main results

* `PluginClosure.Node.unfold_eq`: a node unfolds pass by pass.
* `PluginClosure.Node.unfold_plan`, `PluginClosure.Node.mem_unfold_plan`: along the plan of an order
  this is the expansion, and it lists what the node contains.
-/

namespace PluginClosure

variable {α β : Type}

namespace Branch

/-- The elements that a branch stands for, when its import stands for a list. -/
def elements : Branch α (List α) → List α
  | own a => [a]
  | imported l => l

end Branch

namespace Pass

/-- The elements that a pass finds in branches whose imports stand for lists. -/
def offers (q : Pass) (bs : List (Branch α (List α))) : List α :=
  (bs.filter q.accepts).flatMap Branch.elements

@[simp] theorem offers_nil (q : Pass) : q.offers ([] : List (Branch α (List α))) = [] := rfl

theorem offers_cons (q : Pass) (b : Branch α (List α)) (bs : List (Branch α (List α))) :
    q.offers (b :: bs) = (if q.accepts b then b.elements else []) ++ q.offers bs := by
  rw [offers, List.filter_cons]
  split <;> rfl

theorem offers_all (bs : List (Branch α (List α))) :
    all.offers bs = bs.flatMap Branch.elements := by
  have h : bs.filter all.accepts = bs := List.filter_eq_self.mpr fun _ _ => rfl
  rw [offers, h]

theorem offers_own (bs : List (Branch α (List α))) : own.offers bs = bs.filterMap Branch.own? := by
  induction bs with
  | nil => rfl
  | cons b bs ih => cases b <;> rw [offers_cons, ih] <;> rfl

theorem offers_imported (bs : List (Branch α (List α))) :
    imported.offers bs = (bs.filterMap Branch.imported?).flatten := by
  induction bs with
  | nil => rfl
  | cons b bs ih => cases b <;> rw [offers_cons, ih] <;> rfl

end Pass

namespace Plan

/-- The elements that the passes of a plan find in branches, pass by pass. -/
def arrange (p : Plan) (bs : List (Branch α (List α))) : List α :=
  p.passes.flatMap fun q => q.offers (p.sweep bs)

theorem sweep_map {γ : Type} (p : Plan) (f : β → γ) (l : List β) :
    p.sweep (l.map f) = (p.sweep l).map f := by
  unfold sweep
  split <;> simp

theorem mem_sweep {p : Plan} {l : List β} {b : β} : b ∈ p.sweep l ↔ b ∈ l := by
  rw [sweep]
  split <;> simp

end Plan

theorem Order.arrange_plan (o : Order) (bs : List (Branch α (List α))) :
    o.plan.arrange bs = o.arrange bs := by
  cases o with
  | insertion =>
    simp only [Plan.arrange, plan, Plan.sweep, List.flatMap_singleton, Pass.offers_all]
    rfl
  | postorder => simp [Plan.arrange, plan, Plan.sweep, arrange, Pass.offers_own,
      Pass.offers_imported]
  | preorder => simp [Plan.arrange, plan, Plan.sweep, arrange, Pass.offers_own,
      Pass.offers_imported]
  | topological => simp [Plan.arrange, plan, Plan.sweep, arrange, Pass.offers_own,
      Pass.offers_imported, List.filterMap_reverse]

namespace Node

/-- The elements under a node in the sequence in which a walk without memory comes upon them. -/
def unfold (p : Plan) : Node α → List α :=
  fold fun _ bs => p.arrange bs

theorem unfold_plan (o : Order) (n : Node α) : n.unfold o.plan = n.expand o := by
  simp only [unfold, expand, Order.arrange_plan]

/-- Along the plan of an order the unfolding of a node lists what the node contains. -/
theorem mem_unfold_plan {o : Order} {n : Node α} {a : α} :
    a ∈ n.unfold o.plan ↔ n.Contains a := by
  rw [unfold_plan, mem_expand]

end Node

namespace Plan

/-- The elements that a pass finds in branches, everything below imported nodes included. -/
def offers (p : Plan) (q : Pass) (bs : List (Branch α (Node α))) : List α :=
  q.offers (bs.map (Branch.map (Node.unfold p)))

@[simp] theorem offers_nil (p : Plan) (q : Pass) :
    p.offers q ([] : List (Branch α (Node α))) = [] := rfl

theorem offers_own_cons (p : Plan) (q : Pass) (a : α) (bs : List (Branch α (Node α))) :
    p.offers q (.own a :: bs) =
      (if q.accepts (.own a : Branch α (Node α)) then [a] else []) ++ p.offers q bs := by
  cases q <;> exact Pass.offers_cons ..

theorem offers_imported_cons (p : Plan) (q : Pass) (m : Node α) (bs : List (Branch α (Node α))) :
    p.offers q (.imported m :: bs) =
      (if q.accepts (.imported m : Branch α (Node α)) then m.unfold p else []) ++
        p.offers q bs := by
  cases q <;> exact Pass.offers_cons ..

end Plan

/-- A node unfolds pass by pass, and in each pass branch by branch. -/
theorem Node.unfold_eq (p : Plan) (n : Node α) :
    n.unfold p = p.passes.flatMap fun q => p.offers q (p.sweep n.branches) := by
  rw [unfold, fold_eq, Plan.arrange]
  simp only [Plan.sweep_map]
  rfl

end PluginClosure
