import PluginClosure.TransitiveSet.Cursor
import PluginClosure.Proofs.TransitiveSet.WalkInvariant

/-!
# What a cursor lists

A cursor over a set whose graph is coherent stands in front of a definite list, the elements that it
will produce. The operations of a cursor are operations on that list. In front of the first element
the list is the linearisation of the set, found by recursion over the graph.

## Main definitions

* `PluginClosure.TransitiveSet.Coherent`: serial numbers behind the set identify nodes.
* `PluginClosure.Cursor.Lists`: the list that a cursor stands in front of.

## Main results

* `PluginClosure.Cursor.Lists.next`, `PluginClosure.Cursor.Lists.nth`,
  `PluginClosure.Cursor.Lists.rest`.
* `PluginClosure.TransitiveSet.Coherent.toList_eq`: the list of a set is its linearisation.
-/

namespace PluginClosure

variable {α : Type}

/-- Nodes behind the set with the same serial number are the same. -/
def TransitiveSet.Coherent (s : TransitiveSet α) : Prop := ∀ r, s.root = some r → r.Coherent

variable [BEq α] [Hashable α]

namespace Cursor

/-- The elements that the cursor has still to produce are those of the list. -/
def Lists : Cursor α → List α → Prop
  | empty, l => l = []
  | walking w, l => ∃ root : Node α, root.Coherent ∧ w.Sound root ∧ w.remaining = l
  | pending w, l => ∃ root : Node α, root.Coherent ∧ w.Sound root ∧ w.remaining.reverse = l
  | buffered k, l => k = l

variable [EquivBEq α] [LawfulHashable α] {c : Cursor α} {l : List α}

theorem Lists.next (h : c.Lists l) : c.next.1 = l.head? ∧ c.next.2.Lists l.tail := by
  cases c with
  | empty => cases h; exact ⟨rfl, rfl⟩
  | walking w =>
    obtain ⟨root, hc, hw, rfl⟩ := h
    obtain ⟨ha, hn, hr⟩ := hw.next hc
    exact ⟨ha, root, hc, hn, hr⟩
  | pending w =>
    obtain ⟨root, hc, hw, rfl⟩ := h
    obtain ⟨hd, -⟩ := hw.drain hc []
    rw [List.append_nil] at hd
    rw [Cursor.next, hd]
    cases w.remaining.reverse with
    | nil => exact ⟨rfl, rfl⟩
    | cons a k => exact ⟨rfl, rfl⟩
  | buffered k =>
    cases h
    cases l with
    | nil => exact ⟨rfl, rfl⟩
    | cons a k => exact ⟨rfl, rfl⟩

theorem Lists.nth (h : c.Lists l) (n : Nat) :
    (c.nth n).1 = l[n]? ∧ (c.nth n).2.Lists (l.drop (n + 1)) := by
  induction n generalizing c l with
  | zero =>
    obtain ⟨ha, hn⟩ := h.next
    rw [← List.head?_eq_getElem?, List.drop_one]
    exact ⟨ha, hn⟩
  | succ n ih =>
    obtain ⟨ha, hn⟩ := h.next
    rw [Cursor.nth]
    cases l with
    | nil =>
      rw [show c.next = (none, c.next.2) from Prod.ext ha rfl]
      exact ⟨rfl, hn⟩
    | cons a l =>
      rw [show c.next = (some a, c.next.2) from Prod.ext ha rfl]
      exact ih hn

theorem Lists.rest (h : c.Lists l) : c.rest.1 = l ∧ c.rest.2.Lists [] := by
  cases c with
  | empty => cases h; exact ⟨rfl, rfl⟩
  | walking w =>
    obtain ⟨root, hc, hw, rfl⟩ := h
    obtain ⟨hd, hn, hr⟩ := hw.drain hc []
    rw [List.append_nil] at hd
    refine ⟨?_, root, hc, hn, hr⟩
    show (w.drain []).1.reverse = w.remaining
    rw [hd, List.reverse_reverse]
  | pending w =>
    obtain ⟨root, hc, hw, rfl⟩ := h
    obtain ⟨hd, -⟩ := hw.drain hc []
    exact ⟨by rw [Cursor.rest, hd, List.append_nil], rfl⟩
  | buffered k => cases h; exact ⟨rfl, rfl⟩

end Cursor

namespace TransitiveSet

variable {s : TransitiveSet α}

omit [Hashable α] in
/-- No element is listed twice. -/
theorem pairwise_linearise [EquivBEq α] (s : TransitiveSet α) :
    s.linearise.Pairwise fun a b => (a == b) = false := by
  obtain ⟨o, _ | n⟩ := s
  · exact List.Pairwise.nil
  · cases o with
    | topological =>
      refine List.pairwise_reverse.mpr ((pairwise_eraseDups _).imp fun h => ?_)
      exact BEq.symm_false h
    | insertion | postorder | preorder => exact pairwise_eraseDups _

/-- The cursor of a set stands in front of the linearisation of the set. -/
theorem Coherent.lists_cursor (h : s.Coherent) : s.cursor.Lists s.linearise := by
  obtain ⟨o, _ | n⟩ := s
  · exact rfl
  · have hc : n.Coherent := h n rfl
    have hs : (Walk.start o.plan n).Sound n := .start o.plan hc
    have hr : (Walk.start o.plan n).remaining = (n.expand o).eraseDups := by
      rw [Walk.remaining_start, Node.unfold_plan]
    cases o with
    | topological => exact ⟨n, hc, hs, congrArg List.reverse hr⟩
    | insertion | postorder | preorder => exact ⟨n, hc, hs, hr⟩

/-- The list of a set is its linearisation. -/
theorem Coherent.toList_eq [EquivBEq α] [LawfulHashable α] (h : s.Coherent) :
    s.toList = s.linearise :=
  h.lists_cursor.rest.1

end TransitiveSet

end PluginClosure
