import PluginClosure.TransitiveSet.Basic
import Std.Data.HashSet

/-!
# Walking a graph of shared nodes

A walk visits the nodes under a root depth first and yields every element once. It keeps its own
stack, so the depth of the graph is no limit, and it remembers which nodes it has visited, so a
node that is reached along many paths is visited on the first of them only. An order is carried out
by a plan: which branches a node offers in each of its passes, and from which end they are read.

A walk advances in turns. Each turn leaves a node, begins its next pass, or examines one branch.

## Main definitions

* `PluginClosure.Pass`, `PluginClosure.Plan`, `PluginClosure.Order.plan`.
* `PluginClosure.Walk`, `PluginClosure.Walk.start`: the state of a walk.
* `PluginClosure.Walk.turn`: a single turn.
* `PluginClosure.Walk.next`, `PluginClosure.Walk.drain`: turns up to the next element, or to the
  end.

## Main results

* `PluginClosure.Walk.weight_lt_of_rest?`: every turn but the last makes the walk lighter, so a walk
  ends.

## Implementation notes

The weight of a walk counts the turns that would be left if no node were skipped. It may be
exponential in the size of the graph and is never computed. `Walk.turn` gives the walk back in every
case, so that the tables of a walk have one owner and are updated in place.
-/

namespace PluginClosure

variable {α β : Type}

/-- Which branches of a node are looked at. -/
inductive Pass where
  /-- Every branch. -/
  | all
  /-- The own elements. -/
  | own
  /-- The imports. -/
  | imported
deriving DecidableEq, Repr

/-- Whether the pass looks at a branch. -/
def Pass.accepts : Pass → Branch α β → Bool
  | all, _ => true
  | own, .own _ => true
  | own, .imported _ => false
  | imported, .own _ => false
  | imported, .imported _ => true

/-- How nodes are visited. -/
structure Plan where
  /-- The passes over the branches of each node. -/
  passes : List Pass
  /-- Whether each pass reads the branches from the last to the first. -/
  backward : Bool
deriving DecidableEq, Repr

/-- The branches of a node in the sequence in which a pass reads them. -/
def Plan.sweep (p : Plan) (l : List β) : List β :=
  if p.backward then l.reverse else l

/-- The plan for an order. For the topological order it yields the elements back to front. -/
def Order.plan : Order → Plan
  | insertion => ⟨[.all], false⟩
  | postorder => ⟨[.imported, .own], false⟩
  | preorder => ⟨[.own, .imported], false⟩
  | topological => ⟨[.imported, .own], true⟩

/-- A node in the middle of its visit. -/
structure Visit (α : Type) where
  /-- The node. -/
  node : Node α
  /-- The passes that are not completed; the first one is under way. -/
  passes : List Pass
  /-- The branches that the pass under way has not examined. -/
  rest : List (Branch α (Node α))

/-- The visit of a node that is about to begin. -/
def Visit.start (p : Plan) (n : Node α) : Visit α :=
  ⟨n, p.passes, p.sweep n.branches⟩

/-- A walk under way. -/
structure Walk (α : Type) [BEq α] [Hashable α] where
  /-- How nodes are visited. -/
  plan : Plan
  /-- The nodes in the middle of their visits, each reached from the one after it. -/
  stack : List (Visit α)
  /-- The elements that have been yielded. -/
  yielded : Std.HashSet α
  /-- The serial numbers of the nodes whose visits have begun. -/
  visited : Std.HashSet Serial

namespace Walk

variable [BEq α] [Hashable α]

/-- The walk of a plan from a root. -/
def start (p : Plan) (n : Node α) : Walk α :=
  ⟨p, [Visit.start p n], ∅, {n.id}⟩

/-- What a turn brings, with the walk after it. -/
inductive Turn (α : Type) [BEq α] [Hashable α] where
  /-- The walk is over. -/
  | done (w : Walk α)
  /-- The walk goes on, without an element. -/
  | quiet (w : Walk α)
  /-- The walk goes on, and yields an element. -/
  | yield (a : α) (w : Walk α)

/-- The walk after a turn, unless it is over. -/
def Turn.rest? : Turn α → Option (Walk α)
  | done _ => none
  | quiet w => some w
  | yield _ w => some w

/-- One turn: leaves the innermost node after its last pass, begins its next pass after the last
branch, or else examines a branch. An own element is yielded unless it was yielded before, and a
visit to an imported node begins unless one began before. -/
def turn : Walk α → Turn α
  | ⟨p, [], yielded, visited⟩ => .done ⟨p, [], yielded, visited⟩
  | ⟨p, ⟨_, [], _⟩ :: stack, yielded, visited⟩ => .quiet ⟨p, stack, yielded, visited⟩
  | ⟨p, ⟨n, _ :: passes, []⟩ :: stack, yielded, visited⟩ =>
    .quiet ⟨p, ⟨n, passes, p.sweep n.branches⟩ :: stack, yielded, visited⟩
  | ⟨p, ⟨n, pass :: passes, .own a :: rest⟩ :: stack, yielded, visited⟩ =>
    if pass.accepts (.own a : Branch α (Node α)) && !yielded.contains a then
      .yield a ⟨p, ⟨n, pass :: passes, rest⟩ :: stack, yielded.insert a, visited⟩
    else
      .quiet ⟨p, ⟨n, pass :: passes, rest⟩ :: stack, yielded, visited⟩
  | ⟨p, ⟨n, pass :: passes, .imported m :: rest⟩ :: stack, yielded, visited⟩ =>
    if pass.accepts (.imported m : Branch α (Node α)) && !visited.contains m.id then
      .quiet ⟨p, Visit.start p m :: ⟨n, pass :: passes, rest⟩ :: stack, yielded,
        visited.insert m.id⟩
    else
      .quiet ⟨p, ⟨n, pass :: passes, rest⟩ :: stack, yielded, visited⟩

end Walk

/-! ### Weights -/

/-- The sum of weights. -/
def totalWeight (l : List Nat) : Nat := l.foldr (· + ·) 0

theorem totalWeight_cons (n : Nat) (l : List Nat) :
    totalWeight (n :: l) = n + totalWeight l := rfl

theorem totalWeight_append (l k : List Nat) :
    totalWeight (l ++ k) = totalWeight l + totalWeight k := by
  induction l with
  | nil => exact (Nat.zero_add _).symm
  | cons n l ih => rw [List.cons_append, totalWeight_cons, totalWeight_cons, ih, Nat.add_assoc]

theorem totalWeight_reverse (l : List Nat) : totalWeight l.reverse = totalWeight l := by
  induction l with
  | nil => rfl
  | cons n l ih =>
    rw [List.reverse_cons, totalWeight_append, ih, totalWeight_cons, Nat.add_comm]
    rfl

/-- One turn for the branch itself, and what its import takes. -/
def Branch.weight (f : β → Nat) : Branch α β → Nat
  | own _ => 1
  | imported b => 1 + f b

/-- The turns of a whole visit in `k` passes, everything below the node included. -/
def Node.weight (k : Nat) : Node α → Nat :=
  fold fun _ bs => 1 + k * (1 + totalWeight (bs.map (Branch.weight fun w => w)))

/-- The turns that it takes to examine branches. -/
def Plan.weight (p : Plan) (bs : List (Branch α (Node α))) : Nat :=
  totalWeight (bs.map (Branch.weight (Node.weight p.passes.length)))

/-- The turns that are left in a visit. -/
def Visit.weight (p : Plan) : Visit α → Nat
  | ⟨_, [], _⟩ => 1
  | ⟨n, _ :: passes, rest⟩ => 2 + p.weight rest + passes.length * (1 + p.weight n.branches)

theorem Node.weight_eq (p : Plan) (n : Node α) :
    n.weight p.passes.length = 1 + p.passes.length * (1 + p.weight n.branches) := by
  rw [Node.weight, fold_eq, Plan.weight, List.map_map]
  congr 5
  funext b
  cases b <;> rfl

theorem Plan.weight_sweep (p : Plan) (bs : List (Branch α (Node α))) :
    p.weight (p.sweep bs) = p.weight bs := by
  rw [weight, weight, sweep]
  split
  · rw [List.map_reverse, totalWeight_reverse]
  · rfl

theorem Plan.weight_nil (p : Plan) : p.weight ([] : List (Branch α (Node α))) = 0 := rfl

theorem Plan.weight_cons (p : Plan) (b : Branch α (Node α)) (bs : List (Branch α (Node α))) :
    p.weight (b :: bs) = b.weight (Node.weight p.passes.length) + p.weight bs := rfl

theorem Visit.weight_nil (p : Plan) (n : Node α) (rest : List (Branch α (Node α))) :
    Visit.weight p ⟨n, [], rest⟩ = 1 := rfl

theorem Visit.weight_cons (p : Plan) (n : Node α) (q : Pass) (qs : List Pass)
    (rest : List (Branch α (Node α))) :
    Visit.weight p ⟨n, q :: qs, rest⟩ =
      2 + p.weight rest + qs.length * (1 + p.weight n.branches) := rfl

/-- A pass that begins takes one turn for each branch and a turn to end. -/
theorem Visit.weight_pass (p : Plan) (n : Node α) (passes : List Pass) :
    Visit.weight p ⟨n, passes, p.sweep n.branches⟩ =
      1 + passes.length * (1 + p.weight n.branches) := by
  cases passes with
  | nil => simp [weight_nil]
  | cons q qs =>
    simp only [weight_cons, Plan.weight_sweep, List.length_cons, Nat.add_mul, Nat.one_mul]
    omega

theorem Visit.weight_start (p : Plan) (n : Node α) :
    Visit.weight p (Visit.start p n) = n.weight p.passes.length := by
  rw [start, weight_pass, Node.weight_eq]

namespace Walk

variable [BEq α] [Hashable α]

/-- The turns that are left if no node is skipped. -/
def weight (w : Walk α) : Nat :=
  totalWeight (w.stack.map (Visit.weight w.plan))

/-- Every turn but the last leaves a lighter walk. -/
theorem weight_lt_of_rest? {w v : Walk α} (h : w.turn.rest? = some v) : v.weight < w.weight := by
  revert h
  fun_cases turn w
  case case1 => simp [Turn.rest?]
  all_goals
    intro h
    obtain rfl := Option.some.inj h
    simp only [weight, List.map_cons, totalWeight_cons, Visit.weight_pass, Visit.weight_start,
      Visit.weight_nil, Visit.weight_cons, Plan.weight_nil, Plan.weight_cons, Branch.weight]
    omega

/-! ### Runs of turns -/

/-- Takes turns up to the next element, or to the end of the walk. -/
def next (w : Walk α) : Option α × Walk α :=
  match _h : w.turn with
  | .done v => (none, v)
  | .quiet v => next v
  | .yield a v => (some a, v)
termination_by w.weight
decreasing_by exact weight_lt_of_rest? (by simp only [‹w.turn = _›, Turn.rest?])

/-- Takes turns to the end of the walk and puts the elements in front of `l`, the last one first. -/
def drain (w : Walk α) (l : List α) : List α × Walk α :=
  match _h : w.turn with
  | .done v => (l, v)
  | .quiet v => drain v l
  | .yield a v => drain v (a :: l)
termination_by w.weight
decreasing_by all_goals exact weight_lt_of_rest? (by simp only [‹w.turn = _›, Turn.rest?])

end Walk

end PluginClosure
