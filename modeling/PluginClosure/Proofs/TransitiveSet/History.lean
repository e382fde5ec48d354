import PluginClosure.TransitiveSet.Draft
import PluginClosure.Proofs.TransitiveSet.Listing

/-!
# Histories of sets

Sets are made one after the other, and a later one may import any that is at hand. A *stock* holds
the sets that are at hand and the serial numbers that have not been issued. A history starts from
the empty stock. Each of its steps makes an empty set, a set of own elements, or the set that a
draft comes to after a sequence of calls. A draft is a value, so that the calls on it may be spread
over the history and mixed with other steps: what counts is that the sets it imports are at hand
when it is finished. In a step the supply may also pass over numbers, which objects of other kinds
have taken.

## Main definitions

* `PluginClosure.Draft.Call`, `PluginClosure.Draft.perform`: the calls on a draft.
* `PluginClosure.Draft.ofCalls`, `PluginClosure.TransitiveSet.ofCalls`: the draft, and the set, that
  calls lead to.
* `PluginClosure.Stock`, `PluginClosure.Stock.Step`, `PluginClosure.Stock.Reachable`: histories.
* `PluginClosure.Stock.Brings`: what a step may bring.

## Main results

* `PluginClosure.Stock.Step.brings`: a step brings a set that was at hand, an empty one, or one new
  node over sets at hand.
* `PluginClosure.Stock.Reachable.sound`: serial numbers tell the nodes of a stock apart.
* `PluginClosure.Stock.toList_eq_linearise`: the walk finds the linearisation.
-/

namespace PluginClosure

variable {α : Type}

/-! ### Drafts -/

namespace Draft

/-- A call on a draft. -/
inductive Call (α : Type) where
  /-- Adds an own element. -/
  | add (a : α)
  /-- Adds own elements. -/
  | addList (l : List α)
  /-- Imports a set. -/
  | addSet (s : TransitiveSet α)
  /-- Makes the set collected so far. -/
  | finish

/-- The draft after a call. It stays as it is when a set is refused, and when it is finished. -/
def perform (d : Draft α) : Call α → Fresh (Draft α)
  | .add a => return d.add a
  | .addList l => return d.addList l
  | .addSet s => match d.addSet s with
    | .ok e => return e
    | .error _ => return d
  | .finish => do
    let _ ← d.finish
    return d

/-- The branches that a call adds to a draft of the order. -/
def Call.branches (o : Order) : Call α → List (Branch α (Node α))
  | add a => [.own a]
  | addList l => l.map .own
  | addSet s => if s.order = o then s.root.toList.map .imported else []
  | finish => []

/-- Finishing gives the empty set, the set that was imported, or a set with a new node. -/
theorem finish_spec (d : Draft α) (supply : Supply) :
    (d.branches = [] ∧ d.finish.run supply = (.empty d.order, supply)) ∨
    (∃ n, d.branches = [.imported n] ∧ d.finish.run supply = (⟨d.order, some n⟩, supply)) ∨
    (d.branches ≠ [] ∧ d.finish.run supply =
      (⟨d.order, some (.mk ⟨supply.next⟩ d.branches)⟩, ⟨supply.next + 1⟩)) := by
  rw [finish]
  split
  · next n h => exact Or.inr (Or.inl ⟨n, h, rfl⟩)
  · next bs h =>
    cases hd : d.branches with
    | nil => exact Or.inl ⟨rfl, rfl⟩
    | cons b bs => exact Or.inr (Or.inr ⟨List.cons_ne_nil b bs, rfl⟩)

theorem finish_next_le (d : Draft α) (supply : Supply) :
    supply.next ≤ (d.finish.run supply).2.next := by
  obtain ⟨-, h⟩ | ⟨n, -, h⟩ | ⟨-, h⟩ := d.finish_spec supply
  · rw [h]
  · rw [h]
  · rw [h]
    exact Nat.le_succ _

theorem perform_spec (d : Draft α) (c : Call α) (supply : Supply) :
    ((d.perform c).run supply).1.order = d.order ∧
      ((d.perform c).run supply).1.branches = d.branches ++ c.branches d.order ∧
      supply.next ≤ ((d.perform c).run supply).2.next := by
  cases c with
  | add a => exact ⟨rfl, d.branches_add a, Nat.le_refl _⟩
  | addList l => exact ⟨d.order_addList l, d.branches_addList l, Nat.le_refl _⟩
  | addSet s =>
    rw [perform, Call.branches]
    cases h : d.addSet s with
    | ok e =>
      obtain ⟨ho, he, hb⟩ := branches_of_addSet h
      exact ⟨he, by rw [if_pos ho]; exact hb, Nat.le_refl _⟩
    | error e =>
      rw [if_neg (addSet_eq_error_iff.mp h).1, List.append_nil]
      exact ⟨rfl, rfl, Nat.le_refl _⟩
  | finish => exact ⟨rfl, (List.append_nil _).symm, d.finish_next_le supply⟩

theorem performAll_spec (d : Draft α) (calls : List (Call α)) (supply : Supply) :
    ((calls.foldlM perform d).run supply).1.order = d.order ∧
      ((calls.foldlM perform d).run supply).1.branches =
        d.branches ++ calls.flatMap (Call.branches d.order) ∧
      supply.next ≤ ((calls.foldlM perform d).run supply).2.next := by
  induction calls generalizing d supply with
  | nil => exact ⟨rfl, (List.append_nil _).symm, Nat.le_refl _⟩
  | cons c calls ih =>
    obtain ⟨ho, hb, hs⟩ := d.perform_spec c supply
    obtain ⟨ho', hb', hs'⟩ := ih ((d.perform c).run supply).1 ((d.perform c).run supply).2
    refine ⟨ho'.trans ho, hb'.trans ?_, hs.trans hs'⟩
    rw [hb, ho, List.append_assoc, List.flatMap_cons]

/-- What a new draft of an order comes to after a sequence of calls. -/
def ofCalls (o : Order) (calls : List (Call α)) : Fresh (Draft α) :=
  calls.foldlM perform { order := o }

theorem ofCalls_spec (o : Order) (calls : List (Call α)) (supply : Supply) :
    ((ofCalls o calls).run supply).1.order = o ∧
      ((ofCalls o calls).run supply).1.branches = calls.flatMap (Call.branches o) ∧
      supply.next ≤ ((ofCalls o calls).run supply).2.next :=
  performAll_spec { order := o } calls supply

end Draft

namespace TransitiveSet

/-- The set that a new draft comes to after a sequence of calls. -/
def ofCalls (o : Order) (calls : List (Draft.Call α)) : Fresh (TransitiveSet α) := do
  let d ← Draft.ofCalls o calls
  d.finish

theorem ofCalls_run (o : Order) (calls : List (Draft.Call α)) (supply : Supply) :
    ∃ (d : Draft α) (supply' : Supply), d.order = o ∧
      d.branches = calls.flatMap (Draft.Call.branches o) ∧ supply.next ≤ supply'.next ∧
      (ofCalls o calls).run supply = d.finish.run supply' := by
  obtain ⟨ho, hb, hs⟩ := Draft.ofCalls_spec o calls supply
  exact ⟨_, _, ho, hb, hs, rfl⟩

theorem ofCalls_next_le (o : Order) (calls : List (Draft.Call α)) (supply : Supply) :
    supply.next ≤ ((ofCalls o calls).run supply).2.next := by
  obtain ⟨d, supply', -, -, hs, hd⟩ := ofCalls_run o calls supply
  rw [hd]
  exact hs.trans (d.finish_next_le supply')

/-- A set of own elements is what a draft comes to that has no imports. -/
theorem ofList_eq_finish (o : Order) (l : List α) :
    ofList o l = (({ order := o } : Draft α).addList l).finish := by
  have hb : (({ order := o } : Draft α).addList l).branches = l.map .own :=
    Draft.branches_addList _ l
  rw [Draft.finish]
  split
  · next n h =>
    have hn : .imported n ∈ l.map (Branch.own : α → Branch α (Node α)) := by simp [← hb, h]
    obtain ⟨a, -, ha⟩ := List.mem_map.mp hn
    cases ha
  · rw [hb, Draft.order_addList]
    rfl

end TransitiveSet

/-! ### Stocks -/

/-- The sets that are at hand, and the serial numbers that have not been issued. -/
structure Stock (α : Type) where
  /-- The serial numbers that are left. -/
  supply : Supply := {}
  /-- The sets at hand, the latest first. -/
  sets : List (TransitiveSet α) := []

namespace Stock

/-- Makes a set and puts it into the stock. -/
def put (st : Stock α) (x : Fresh (TransitiveSet α)) : Stock α :=
  ⟨(x.run st.supply).2, (x.run st.supply).1 :: st.sets⟩

/-- A step of a history. -/
inductive Step : Stock α → Stock α → Prop
  /-- An empty set. -/
  | empty (st : Stock α) (o : Order) : Step st (st.put (return .empty o))
  /-- A set of own elements. -/
  | ofList (st : Stock α) (o : Order) (l : List α) : Step st (st.put (TransitiveSet.ofList o l))
  /-- The set that a draft comes to. -/
  | ofCalls (st : Stock α) (o : Order) (calls : List (Draft.Call α))
      (h : ∀ s, .addSet s ∈ calls → s ∈ st.sets) :
        Step st (st.put (TransitiveSet.ofCalls o calls))
  /-- Another handle of a set. -/
  | copy (st : Stock α) (s : TransitiveSet α) (h : s ∈ st.sets) : Step st (st.put (return s))
  /-- Objects of other kinds take serial numbers. -/
  | pass (st : Stock α) (next : Nat) (h : st.supply.next ≤ next) : Step st ⟨⟨next⟩, st.sets⟩

/-- The stocks that histories lead to. -/
def Reachable (st : Stock α) : Prop := Relation.ReflTransGen Step {} st

/-- What a step may bring before which the stock was `st`, and after which `next` is the index of
the next serial number. -/
inductive Brings (st : Stock α) (next : Nat) : TransitiveSet α → Prop
  /-- A set that was at hand. -/
  | old {s : TransitiveSet α} (h : s ∈ st.sets) : Brings st next s
  /-- An empty set. -/
  | empty (o : Order) : Brings st next (.empty o)
  /-- A set with a new node, whose imports are the roots of sets at hand. -/
  | node {o : Order} {i : Serial} {bs : List (Branch α (Node α))} (hb : bs ≠ [])
      (hi : st.supply.next ≤ i.index) (hn : i.index < next)
      (hs : ∀ n, .imported n ∈ bs → ⟨o, some n⟩ ∈ st.sets) : Brings st next ⟨o, some (.mk i bs)⟩

theorem brings_finish {st : Stock α} {d : Draft α} {supply : Supply}
    (hs : st.supply.next ≤ supply.next)
    (hd : ∀ n, .imported n ∈ d.branches → ⟨d.order, some n⟩ ∈ st.sets) :
    st.Brings (d.finish.run supply).2.next (d.finish.run supply).1 := by
  obtain ⟨-, h⟩ | ⟨n, hb, h⟩ | ⟨hb, h⟩ := d.finish_spec supply
  · rw [h]
    exact .empty d.order
  · rw [h]
    exact .old (hd n (hb ▸ List.mem_cons_self))
  · rw [h]
    exact .node hb hs (Nat.lt_succ_self _) hd

/-- The imports of a draft are the roots of sets that its calls import. -/
theorem mem_of_imported_branches {st : Stock α} {o : Order} {calls : List (Draft.Call α)}
    (h : ∀ s, .addSet s ∈ calls → s ∈ st.sets) {n : Node α}
    (hn : .imported n ∈ calls.flatMap (Draft.Call.branches o)) : ⟨o, some n⟩ ∈ st.sets := by
  obtain ⟨c, hc, hn⟩ := List.mem_flatMap.mp hn
  cases c with
  | add a => cases List.mem_singleton.mp hn
  | addList l =>
    obtain ⟨a, -, ha⟩ := List.mem_map.mp hn
    cases ha
  | addSet s =>
    rw [Draft.Call.branches] at hn
    split at hn
    · next ho =>
      obtain ⟨r, hr, hn⟩ := List.mem_map.mp hn
      cases hn
      obtain ⟨_, root⟩ := s
      cases ho
      cases Option.mem_toList.mp hr
      exact h _ hc
    · cases hn
  | finish => cases hn

theorem brings_ofCalls {st : Stock α} {o : Order} {calls : List (Draft.Call α)} {supply : Supply}
    (hs : st.supply.next ≤ supply.next) (h : ∀ s, .addSet s ∈ calls → s ∈ st.sets) :
    st.Brings ((TransitiveSet.ofCalls o calls).run supply).2.next
      ((TransitiveSet.ofCalls o calls).run supply).1 := by
  obtain ⟨d, supply', rfl, hb, hs', hd⟩ := TransitiveSet.ofCalls_run o calls supply
  rw [hd]
  exact brings_finish (hs.trans hs') fun n hn => mem_of_imported_branches h (hb ▸ hn)

theorem brings_ofList (st : Stock α) (o : Order) (l : List α) :
    st.Brings ((TransitiveSet.ofList o l).run st.supply).2.next
      ((TransitiveSet.ofList o l).run st.supply).1 := by
  rw [TransitiveSet.ofList_eq_finish]
  refine brings_finish (Nat.le_refl _) fun n hn => ?_
  rw [Draft.branches_addList] at hn
  simp [Draft.branches] at hn

/-- A step brings at most one set, and the supply never takes a number back. -/
theorem Step.brings {st st' : Stock α} (h : Step st st') :
    st.supply.next ≤ st'.supply.next ∧
      (st'.sets = st.sets ∨ ∃ s, st'.sets = s :: st.sets ∧ st.Brings st'.supply.next s) := by
  cases h with
  | empty o => exact ⟨Nat.le_refl _, Or.inr ⟨_, rfl, .empty o⟩⟩
  | ofList o l =>
    refine ⟨?_, Or.inr ⟨_, rfl, brings_ofList st o l⟩⟩
    rw [put, TransitiveSet.ofList_eq_finish]
    exact Draft.finish_next_le _ _
  | ofCalls o calls h =>
    exact ⟨TransitiveSet.ofCalls_next_le o calls st.supply,
      Or.inr ⟨_, rfl, brings_ofCalls (Nat.le_refl _) h⟩⟩
  | copy s h => exact ⟨Nat.le_refl _, Or.inr ⟨_, rfl, .old h⟩⟩
  | pass next h => exact ⟨h, Or.inl rfl⟩

theorem Step.sets_subset {st st' : Stock α} (h : Step st st') : st.sets ⊆ st'.sets := by
  obtain ⟨-, hsets | ⟨s, hsets, -⟩⟩ := h.brings
  · rw [hsets]
    exact List.Subset.refl _
  · rw [hsets]
    exact List.subset_cons_self s _

/-! ### Serial numbers -/

/-- The node is behind a set at hand. -/
def Reaches (st : Stock α) (n : Node α) : Prop := ∃ s ∈ st.sets, s.Reaches n

/-- The serial numbers of the nodes at hand have been issued, and tell these nodes apart. No node is
without branches. -/
structure Sound (st : Stock α) : Prop where
  lt_next : ∀ n, st.Reaches n → n.id.index < st.supply.next
  eq_of_id : ∀ m n, st.Reaches m → st.Reaches n → m.id = n.id → m = n
  branches_ne_nil : ∀ n, st.Reaches n → n.branches ≠ []

/-- A node behind a set that a step brings was at hand, or it is the root, under a new number. -/
theorem Brings.reaches {st : Stock α} {next : Nat} {s : TransitiveSet α} (h : st.Brings next s)
    {n : Node α} (hn : s.Reaches n) : st.Reaches n ∨ s.root = some n ∧ n.branches ≠ [] ∧
      st.supply.next ≤ n.id.index ∧ n.id.index < next := by
  cases h with
  | old h => exact Or.inl ⟨s, h, hn⟩
  | empty o => exact absurd hn TransitiveSet.not_reaches_empty
  | node hb hi hi' hs =>
    rw [TransitiveSet.reaches_root rfl] at hn
    obtain rfl | ⟨m, hm, hn⟩ := Node.reaches_iff.mp hn
    · exact Or.inr ⟨rfl, hb, hi, hi'⟩
    · exact Or.inl ⟨_, hs m hm, m, rfl, hn⟩

theorem Sound.put {st : Stock α} {next : Nat} {s : TransitiveSet α} (h : st.Sound)
    (hn : st.supply.next ≤ next) (hs : st.Brings next s) : Sound ⟨⟨next⟩, s :: st.sets⟩ := by
  have hcases (n : Node α) (hr : Reaches ⟨⟨next⟩, s :: st.sets⟩ n) : st.Reaches n ∨
      s.root = some n ∧ n.branches ≠ [] ∧ st.supply.next ≤ n.id.index ∧ n.id.index < next := by
    obtain ⟨t, ht, hr⟩ := hr
    obtain rfl | ht := List.mem_cons.mp ht
    · exact hs.reaches hr
    · exact Or.inl ⟨t, ht, hr⟩
  constructor
  · intro n hr
    obtain hr | ⟨-, -, -, hr⟩ := hcases n hr
    · exact (h.lt_next n hr).trans_le hn
    · exact hr
  · intro m n hm hn hid
    obtain hm | ⟨hm, -, hm', -⟩ := hcases m hm <;> obtain hn | ⟨hn, -, hn', -⟩ := hcases n hn
    · exact h.eq_of_id m n hm hn hid
    · exact absurd (h.lt_next m hm) (by rw [hid]; exact Nat.not_lt.mpr hn')
    · exact absurd (h.lt_next n hn) (by rw [← hid]; exact Nat.not_lt.mpr hm')
    · exact Option.some.inj (hm.symm.trans hn)
  · intro n hr
    obtain hr | ⟨-, hr, -⟩ := hcases n hr
    · exact h.branches_ne_nil n hr
    · exact hr

theorem Sound.step {st st' : Stock α} (h : st.Sound) (hs : Step st st') : st'.Sound := by
  obtain ⟨hn, hsets | ⟨s, hsets, hb⟩⟩ := hs.brings
  · obtain ⟨⟨next⟩, sets⟩ := st'
    cases hsets
    exact ⟨fun n hr => (h.lt_next n hr).trans_le hn, h.eq_of_id, h.branches_ne_nil⟩
  · obtain ⟨⟨next⟩, sets⟩ := st'
    cases hsets
    exact h.put hn hb

/-- Whatever the history, serial numbers tell the nodes at hand apart. -/
theorem Reachable.sound {st : Stock α} (h : st.Reachable) : st.Sound := by
  induction h with
  | refl => exact ⟨fun n ⟨_, h, _⟩ => absurd h List.not_mem_nil,
      fun m n ⟨_, h, _⟩ => absurd h List.not_mem_nil, fun n ⟨_, h, _⟩ => absurd h List.not_mem_nil⟩
  | tail _ hs ih => exact ih.step hs

theorem Sound.coherent {st : Stock α} (h : st.Sound) {s : TransitiveSet α} (hs : s ∈ st.sets) :
    s.Coherent :=
  fun r hr m n hm hn => h.eq_of_id m n ⟨s, hs, r, hr, hm⟩ ⟨s, hs, r, hr, hn⟩

/-- Of one order there is one set at hand with a given root, and one that is empty. -/
theorem Sound.eq_of_same {st : Stock α} (h : st.Sound) {s t : TransitiveSet α} (hs : s ∈ st.sets)
    (ht : t ∈ st.sets) (ho : s.order = t.order) (hsame : s.same t = true) : s = t := by
  obtain ⟨o, _ | m⟩ := s <;> obtain ⟨o', _ | n⟩ := t <;> cases ho
  · rfl
  · cases hsame
  · cases hsame
  · have hid : m.id = n.id := of_decide_eq_true hsame
    rw [h.eq_of_id m n ⟨_, hs, m, rfl, .refl m⟩ ⟨_, ht, n, rfl, .refl n⟩ hid]

/-! ### Walks and recursion -/

variable [BEq α] [Hashable α] [EquivBEq α] [LawfulHashable α]

theorem Sound.pairwise_toList {st : Stock α} (h : st.Sound) {s : TransitiveSet α}
    (hs : s ∈ st.sets) : s.toList.Pairwise fun a b => (a == b) = false := by
  rw [(h.coherent hs).toList_eq]
  exact s.pairwise_linearise

/-- A set lists nothing only if it has no root. -/
theorem Sound.isEmpty_iff {st : Stock α} (h : st.Sound) {s : TransitiveSet α} (hs : s ∈ st.sets) :
    s.isEmpty = true ↔ s.toList = [] := by
  rw [(h.coherent hs).toList_eq]
  cases hr : s.root with
  | none => simp [TransitiveSet.isEmpty, TransitiveSet.linearise, hr]
  | some n =>
    obtain ⟨a, ha⟩ := Node.exists_contains fun m hm => h.branches_ne_nil m ⟨s, hs, n, hr, hm⟩
    have hne : (n.expand s.order).eraseDups ≠ [] := by
      intro hnil
      have hc := contains_eraseDups (n.expand s.order) a
      rw [hnil, List.contains_iff_exists_mem_beq.mpr ⟨a, Node.mem_expand.mpr ha, BEq.rfl⟩] at hc
      cases hc
    cases ho : s.order <;>
      simpa [TransitiveSet.isEmpty, TransitiveSet.linearise, hr, ho, Order.finish] using ho ▸ hne

/-- **The walk finds the linearisation.** Whatever a set was made of, its list is the one that is
found by recursion, visiting shared nodes as often as they are reached and removing repetitions at
the very end. A cursor produces this list element by element. -/
theorem toList_eq_linearise {st : Stock α} (h : st.Reachable) {s : TransitiveSet α}
    (hs : s ∈ st.sets) :
    s.toList = s.linearise ∧ ∀ k, (s.cursor.nth k).1 = s.linearise[k]? :=
  have hc := h.sound.coherent hs
  ⟨hc.toList_eq, fun k => (hc.lists_cursor.nth k).1⟩

namespace Shared

/-- A node without imports. -/
def base : Node Nat := .mk ⟨0⟩ [.own 1, .own 2]

/-- A node that repeats an element of its import. -/
def side : Node Nat := .mk ⟨1⟩ [.imported base, .own 3, .own 1]

/-- A node with two paths to `base`. -/
def top : Node Nat := .mk ⟨2⟩ [.imported base, .imported side, .own 4]

/-- The set of a node. -/
def setOf (n : Node Nat) : TransitiveSet Nat := ⟨.topological, some n⟩

/-- The stock with the sets of two nodes. -/
def pair : Stock Nat := ⟨⟨2⟩, [setOf side, setOf base]⟩

/-- The stock with the sets of all three nodes. -/
def triangle : Stock Nat := ⟨⟨3⟩, [setOf top, setOf side, setOf base]⟩

theorem setOf_mem_pair {s : TransitiveSet Nat} (h : s = setOf base ∨ s = setOf side) :
    s ∈ pair.sets := by
  rcases h with rfl | rfl <;> simp [pair]

theorem reachable_pair : pair.Reachable := by
  refine (Relation.ReflTransGen.single (.ofList {} .topological [1, 2])).tail
    (.ofCalls _ .topological [.addSet (setOf base), .addList [3, 1]] fun s hs => ?_)
  have hs' : s = setOf base := by simpa using hs
  exact hs' ▸ List.mem_singleton_self _

theorem reachable_triangle : triangle.Reachable := by
  refine reachable_pair.tail (.ofCalls _ .topological
    [.addSet (setOf base), .addSet (setOf side), .add 4] fun s hs => setOf_mem_pair ?_)
  simpa using hs

end Shared

theorem toList_eq_linearise_top :
    Shared.triangle.Reachable ∧ (Shared.setOf Shared.top).toList = [4, 3, 1, 2] ∧
      ((Shared.setOf Shared.top).cursor.nth 2).1 = some 1 := by
  obtain ⟨hl, hn⟩ := toList_eq_linearise Shared.reachable_triangle (s := Shared.setOf Shared.top)
    List.mem_cons_self
  rw [hl, hn]
  exact ⟨Shared.reachable_triangle, by rfl, by rfl⟩

end Stock

end PluginClosure
