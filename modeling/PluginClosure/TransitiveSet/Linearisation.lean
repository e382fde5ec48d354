import PluginClosure.TransitiveSet.Basic

/-!
# The elements of a transitive set, by recursion

What a set lists can be said without walks: expand the graph into a tree, repeating a shared node on
every path that reaches it, write out the elements as the order asks, and remove repetitions at the
very end. This takes a time exponential in the depth of the graph, and says what the walk has to
find.

## Main definitions

* `PluginClosure.Order.arrange`: the own elements of a node and the lists of its imports, put
  together.
* `PluginClosure.Node.expand`: the elements under a node, repetitions included.
* `PluginClosure.TransitiveSet.linearise`: the first occurrences of the expansion; for the
  topological order they are read back to front.

## Main results

* `PluginClosure.Node.expand_eq`: the expansion of a node in terms of the nodes that it imports.
-/

namespace PluginClosure

variable {α β : Type}

/-- Puts together the own elements of a node and the lists of its imports. The topological order is
arranged back to front. -/
def Order.arrange : Order → List (Branch α (List α)) → List α
  | insertion, bs => bs.flatMap fun
    | .own a => [a]
    | .imported l => l
  | postorder, bs => (bs.filterMap Branch.imported?).flatten ++ bs.filterMap Branch.own?
  | preorder, bs => bs.filterMap Branch.own? ++ (bs.filterMap Branch.imported?).flatten
  | topological, bs =>
    (bs.filterMap Branch.imported?).reverse.flatten ++ (bs.filterMap Branch.own?).reverse

/-- The elements under a node, each as often as there are paths and own elements that lead to it. -/
def Node.expand (o : Order) : Node α → List α :=
  fold fun _ bs => o.arrange bs

theorem Node.expand_eq (o : Order) (n : Node α) :
    n.expand o = o.arrange (n.branches.map (Branch.map (expand o))) :=
  fold_eq ..

/-- The first occurrences in a list that an order has arranged, read in the direction of the
order. -/
def Order.finish [BEq α] : Order → List α → List α
  | topological, l => l.eraseDups.reverse
  | _, l => l.eraseDups

/-- The distinct elements in the order of the set. -/
def TransitiveSet.linearise [BEq α] (s : TransitiveSet α) : List α :=
  match s.root with
  | none => []
  | some n => s.order.finish (n.expand s.order)

end PluginClosure
