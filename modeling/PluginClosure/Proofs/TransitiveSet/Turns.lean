import Mathlib.Algebra.Ring.Nat
import PluginClosure.Proofs.TransitiveSet.History

/-!
# The turns of a walk

A walk is called for one element after the other, and in each call it takes turns until there is an
element, or until it is over. All calls together visit every node below the root once, however many
paths lead to it, and examine each branch of a node once in every pass. So the number of turns is
found by adding up over the nodes: a turn to leave the node, and in every pass a turn for each
branch and one to end the pass.

The argument keeps an account of the acts that were done and of those that the visits on the stack
have before them. A turn moves an act from the second part to the first. It changes the account only
when a visit begins, and then by all acts on the node that is entered.

## Main definitions

* `PluginClosure.Act`, `PluginClosure.Walk.act?`: what a turn does.
* `PluginClosure.Walk.entered?`, `PluginClosure.Walk.entries`: the nodes whose visits begin.
* `PluginClosure.Walk.spell`, `PluginClosure.Walk.turns`: the turns of one call, and of several.
* `PluginClosure.Node.acts`, `PluginClosure.Visit.acts`: all acts on a node, and those that are left.
* `PluginClosure.Walk.Progress`: the invariant.
* `PluginClosure.Walk.Covers`: the turns deal with every node below a root, once.

## Main results

* `PluginClosure.Walk.takes_turns`: the turns of calls follow upon each other.
* `PluginClosure.Walk.Progress.turn`, `PluginClosure.Walk.Progress.takes`: one turn, and any number
  of them.
* `PluginClosure.Stock.covers_turns`: the walk below any set at hand.
-/

namespace PluginClosure

variable {α : Type}

/-! ### Acts -/

/-- What a turn does. -/
inductive Act (α : Type) where
  /-- Examines a branch of the node in a pass. -/
  | examine (n : Node α) (q : Pass) (b : Branch α (Node α))
  /-- Ends a pass over the node. -/
  | endPass (n : Node α) (q : Pass)
  /-- Leaves the node. -/
  | leave (n : Node α)

namespace Node

/-- The acts of a pass over a node. -/
def passActs (p : Plan) (n : Node α) (q : Pass) : List (Act α) :=
  (p.sweep n.branches).map (.examine n q) ++ [.endPass n q]

/-- The acts of a whole visit of a node, but not of the nodes that it imports. -/
def acts (p : Plan) (n : Node α) : List (Act α) :=
  p.passes.flatMap (n.passActs p) ++ [.leave n]

theorem length_acts (p : Plan) (n : Node α) :
    (n.acts p).length = 1 + p.passes.length * (1 + n.branches.length) := by
  have hq (q : Pass) : (n.passActs p q).length = 1 + n.branches.length := by
    have hs : (p.sweep n.branches).length = n.branches.length := by
      rw [Plan.sweep]
      split <;> simp
    rw [passActs, List.length_append, List.length_map, hs, List.length_singleton, Nat.add_comm]
  rw [acts, List.length_append, List.length_flatMap, List.length_singleton, Nat.add_comm]
  simp only [hq, List.map_const', List.sum_replicate_nat]

theorem examine_mem_acts {p : Plan} {n : Node α} {q : Pass} {b : Branch α (Node α)}
    (hq : q ∈ p.passes) (hb : b ∈ n.branches) : .examine n q b ∈ n.acts p := by
  refine List.mem_append_left _ (List.mem_flatMap.mpr ⟨q, hq, List.mem_append_left _ ?_⟩)
  exact List.mem_map_of_mem (Plan.mem_sweep.mpr hb)

end Node

namespace Visit

/-- The acts on its node that a visit has before it. -/
def acts (p : Plan) : Visit α → List (Act α)
  | ⟨n, [], _⟩ => [.leave n]
  | ⟨n, q :: passes, rest⟩ =>
    rest.map (.examine n q) ++ .endPass n q :: (passes.flatMap (n.passActs p) ++ [.leave n])

/-- A pass that begins has all its acts before it. -/
theorem acts_pass (p : Plan) (n : Node α) (passes : List Pass) :
    acts p ⟨n, passes, p.sweep n.branches⟩ = passes.flatMap (n.passActs p) ++ [.leave n] := by
  cases passes with
  | nil => rfl
  | cons q passes => simp [acts, Node.passActs]

theorem acts_start (p : Plan) (n : Node α) : (start p n).acts p = n.acts p :=
  acts_pass p n p.passes

end Visit

/-- The plan of an order has a pass that follows imports. -/
theorem Order.exists_accepts_imported {β : Type} (o : Order) (b : β) :
    ∃ q ∈ o.plan.passes, q.accepts (.imported b : Branch α β) = true := by
  cases o with
  | insertion => exact ⟨.all, List.mem_cons_self, rfl⟩
  | postorder | topological => exact ⟨.imported, List.mem_cons_self, rfl⟩
  | preorder => exact ⟨.imported, List.mem_cons_of_mem _ List.mem_cons_self, rfl⟩

namespace Walk

variable [BEq α] [Hashable α]

/-- What the next turn of the walk does, unless the walk is over. -/
def act? (w : Walk α) : Option (Act α) :=
  match w.stack with
  | [] => none
  | ⟨n, [], _⟩ :: _ => some (.leave n)
  | ⟨n, q :: _, []⟩ :: _ => some (.endPass n q)
  | ⟨n, q :: _, b :: _⟩ :: _ => some (.examine n q b)

/-- The node whose visit the next turn puts on the stack, if there is one. -/
def entered? (w : Walk α) : Option (Node α) := do
  let v ← w.turn.rest?
  if w.stack.length < v.stack.length then v.stack.head?.map Visit.node else none

/-- The nodes whose visits begin when a walk from the root takes the turns. -/
def entries (root : Node α) (turns : List (Walk α)) : List (Node α) :=
  root :: turns.filterMap entered?

/-! ### Calls -/

/-- The walks at the turns of a call for the next element. The turn at which a walk turns out to be
over is not among them. -/
def spell (w : Walk α) : List (Walk α) :=
  match _h : w.turn with
  | .done _ => []
  | .quiet v => w :: spell v
  | .yield _ _ => [w]
termination_by w.weight
decreasing_by exact weight_lt_of_rest? (by simp only [‹w.turn = _›, Turn.rest?])

/-- The walk after a number of calls for the next element. -/
def after (w : Walk α) : Nat → Walk α
  | 0 => w
  | k + 1 => w.next.2.after k

/-- The walks at the turns of a number of calls for the next element. -/
def turns (w : Walk α) : Nat → List (Walk α)
  | 0 => []
  | k + 1 => w.spell ++ w.next.2.turns k

/-- The walk takes turns one after the other, and is left as another walk. -/
inductive Takes : Walk α → List (Walk α) → Walk α → Prop
  | none (w : Walk α) : Takes w [] w
  | turn {w v u : Walk α} {turns : List (Walk α)} (hw : w.turn.rest? = some v)
      (h : Takes v turns u) : Takes w (w :: turns) u

theorem Takes.append {w v u : Walk α} {l k : List (Walk α)} (h : Takes w l v) (h' : Takes v k u) :
    Takes w (l ++ k) u := by
  induction h with
  | none w => exact h'
  | turn hw _ ih => exact .turn hw (ih h')

theorem eq_of_turn_done {w v : Walk α} (h : w.turn = .done v) : v = w ∧ w.stack = [] := by
  revert h
  fun_cases turn w with
  | case1 =>
    intro h
    cases h
    exact ⟨rfl, rfl⟩
  | case2 | case3 | case4 | case5 | case6 | case7 => intro h; cases h

theorem spell_of_done {w v : Walk α} (h : w.turn = .done v) : w.spell = [] := by
  rw [spell]
  split <;> simp_all

theorem spell_of_quiet {w v : Walk α} (h : w.turn = .quiet v) : w.spell = w :: v.spell := by
  rw [spell]
  split <;> simp_all

theorem spell_of_yield {w v : Walk α} {a : α} (h : w.turn = .yield a v) : w.spell = [w] := by
  rw [spell]
  split <;> simp_all

/-- The turns of a call. -/
theorem takes_spell (w : Walk α) : Takes w w.spell w.next.2 := by
  fun_induction next w with
  | case1 w v hw =>
    rw [spell_of_done hw, (eq_of_turn_done hw).1]
    exact .none w
  | case2 w v hw ih =>
    rw [spell_of_quiet hw]
    exact .turn (by rw [hw]; rfl) ih
  | case3 w a v hw =>
    rw [spell_of_yield hw]
    exact .turn (by rw [hw]; rfl) (.none v)

theorem takes_turns (w : Walk α) (k : Nat) : Takes w (w.turns k) (w.after k) := by
  induction k generalizing w with
  | zero => exact .none w
  | succ k ih => exact w.takes_spell.append (ih w.next.2)

/-- A call that brings no element leaves nothing on the stack. -/
theorem stack_of_next_eq_none {w : Walk α} (h : w.next.1 = none) : w.next.2.stack = [] := by
  revert h
  fun_induction next w with
  | case1 w v hw =>
    intro _
    obtain ⟨rfl, hs⟩ := eq_of_turn_done hw
    exact hs
  | case2 w v hw ih => exact ih
  | case3 w a v hw => intro h; cases h

/-! ### Progress -/

/-- The acts that the visits on the stack have before them. -/
def ahead (p : Plan) (w : Walk α) : List (Act α) := w.stack.flatMap (Visit.acts p)

theorem ahead_mk (p p' : Plan) (v : Visit α) (stack : List (Visit α)) (yielded : Std.HashSet α)
    (visited : Std.HashSet Serial) :
    ahead p ⟨p', v :: stack, yielded, visited⟩ = v.acts p ++ stack.flatMap (Visit.acts p) := rfl

/-- How far a walk has come that has taken turns since it began at a root. -/
structure Progress (p : Plan) (root : Node α) (past : List (Walk α)) (w : Walk α) : Prop where
  sound : w.Sound root
  plan : w.plan = p
  /-- No node was entered twice. -/
  nodup : ((entries root past).map Node.id).Nodup
  reaches : ∀ n ∈ entries root past, root.Reaches n
  mem_visited : ∀ i, i ∈ w.visited ↔ i ∈ (entries root past).map Node.id
  /-- Every turn has done something. -/
  length : (past.filterMap act?).length = past.length
  /-- The acts that were done, and those ahead, are all acts on the nodes that were entered. -/
  acts : (past.filterMap act? ++ w.ahead p).Perm ((entries root past).flatMap (Node.acts p))
  /-- Imports that were examined in a pass that follows them were entered, then or before. -/
  followed : ∀ n q m, .examine n q (.imported m) ∈ past.filterMap act? →
    q.accepts (.imported m : Branch α (Node α)) = true → m.id ∈ w.visited

namespace Progress

variable {p : Plan} {root m : Node α} {past : List (Walk α)} {w v : Walk α} {a : Act α}

theorem start (p : Plan) (hc : root.Coherent) : Progress p root [] (Walk.start p root) where
  sound := .start p hc
  plan := rfl
  nodup := List.nodup_singleton _
  reaches := List.forall_mem_singleton.mpr (.refl root)
  mem_visited i := by
    have hi : i ∈ (Walk.start p root).visited ↔ root.id = i := by simp [Walk.start]
    rw [hi, eq_comm]
    exact List.mem_singleton.symm
  length := rfl
  acts := by simp [Walk.start, ahead, entries, Visit.acts_start]
  followed n q m h := absurd h List.not_mem_nil

/-- An act was done that had been ahead. -/
theorem advance (h : Progress p root past w) (hs : v.Sound root) (hp : v.plan = w.plan)
    (hv : v.visited = w.visited) (ha : w.act? = some a) (he : w.entered? = none)
    (hw : w.ahead p = a :: v.ahead p)
    (hf : ∀ n q m, a = .examine n q (.imported m) →
      q.accepts (.imported m : Branch α (Node α)) = true → m.id ∈ w.visited) :
    Progress p root (past ++ [w]) v := by
  have hentries : entries root (past ++ [w]) = entries root past := by
    simp [entries, List.filterMap_append, he]
  have hacts : (past ++ [w]).filterMap act? = past.filterMap act? ++ [a] := by
    simp [List.filterMap_append, ha]
  refine ⟨hs, hp.trans h.plan, ?_, ?_, ?_, ?_, ?_, ?_⟩
  · rw [hentries]
    exact h.nodup
  · rw [hentries]
    exact h.reaches
  · rw [hentries, hv]
    exact h.mem_visited
  · rw [hacts, List.length_append, List.length_append, h.length]
    rfl
  · rw [hacts, hentries, List.append_assoc, List.singleton_append, ← hw]
    exact h.acts
  · intro n q m hm hq
    rw [hv]
    rw [hacts] at hm
    obtain hm | hm := List.mem_append.mp hm
    · exact h.followed n q m hm hq
    · exact hf n q m (List.mem_singleton.mp hm).symm hq

/-- A node was entered that had not been entered before. -/
theorem enter (h : Progress p root past w) (hs : v.Sound root) (hp : v.plan = w.plan)
    (hm : m.id ∉ w.visited) (hr : root.Reaches m) (hv : v.visited = w.visited.insert m.id)
    {n : Node α} {q : Pass} {l : List (Act α)} (ha : w.act? = some (.examine n q (.imported m)))
    (he : w.entered? = some m) (hw : w.ahead p = .examine n q (.imported m) :: l)
    (hl : v.ahead p = m.acts p ++ l) : Progress p root (past ++ [w]) v := by
  have hentries : entries root (past ++ [w]) = entries root past ++ [m] := by
    simp [entries, List.filterMap_append, he]
  have hacts : (past ++ [w]).filterMap act? =
      past.filterMap act? ++ [.examine n q (.imported m)] := by
    simp [List.filterMap_append, ha]
  refine ⟨hs, hp.trans h.plan, ?_, ?_, ?_, ?_, ?_, ?_⟩
  · rw [hentries, List.map_append, List.nodup_append]
    refine ⟨h.nodup, List.nodup_singleton _, fun i hi j hj hij => hm ?_⟩
    obtain rfl := List.mem_singleton.mp hj
    exact (h.mem_visited _).mpr (hij ▸ hi)
  · rw [hentries]
    exact List.forall_mem_append.mpr ⟨h.reaches, List.forall_mem_singleton.mpr hr⟩
  · intro i
    rw [hv, hentries, Std.HashSet.mem_insert, h.mem_visited, List.map_append, List.mem_append,
      or_comm, List.map_singleton, List.mem_singleton, beq_iff_eq, eq_comm (a := i)]
  · rw [hacts, List.length_append, List.length_append, h.length]
    rfl
  · rw [hacts, hentries, hl, List.flatMap_append, List.flatMap_singleton, List.append_assoc,
      List.singleton_append]
    refine List.Perm.trans ?_ (h.acts.append_right (m.acts p))
    rw [hw, List.append_assoc, List.cons_append]
    exact (List.perm_append_comm.cons _).append_left _
  · intro n' q' m' hm' hq
    rw [hv, Std.HashSet.mem_insert]
    rw [hacts] at hm'
    obtain hm' | hm' := List.mem_append.mp hm'
    · exact Or.inr (h.followed n' q' m' hm' hq)
    · cases List.mem_singleton.mp hm'
      exact Or.inl BEq.rfl

variable [EquivBEq α] [LawfulHashable α]

/-- One turn. -/
theorem turn (h : Progress p root past w) (hc : root.Coherent) (hv : w.turn.rest? = some v) :
    Progress p root (past ++ [w]) v := by
  have hs : v.Sound root := by
    have ht := h.sound.turn hc
    rcases hw : w.turn with u | u | ⟨a, u⟩ <;> rw [hw] at ht hv <;> cases hv
    · exact ht.1
    · exact ht.1
  have hentered : w.entered? =
      if w.stack.length < v.stack.length then v.stack.head?.map Visit.node else none := by
    rw [entered?, hv]
    rfl
  have hplan := h.plan
  revert hv
  fun_cases Walk.turn w with
  | case1 => intro hv; cases hv
  | case2 p' n rest stack yielded visited =>
    intro hv
    cases hv
    exact h.advance hs rfl rfl rfl (hentered.trans (by simp)) rfl (by simp)
  | case3 p' n q passes stack yielded visited =>
    intro hv
    cases hv
    obtain rfl : p' = p := hplan
    refine h.advance hs rfl rfl rfl (hentered.trans (by simp)) ?_ (by simp)
    rw [ahead_mk, ahead_mk, Visit.acts_pass]
    rfl
  | case4 p' n q passes a rest stack yielded visited ha =>
    intro hv
    cases hv
    exact h.advance hs rfl rfl rfl (hentered.trans (by simp)) rfl (by simp)
  | case5 p' n q passes a rest stack yielded visited ha =>
    intro hv
    cases hv
    exact h.advance hs rfl rfl rfl (hentered.trans (by simp)) rfl (by simp)
  | case6 p' n q passes m rest stack yielded visited hm =>
    intro hv
    cases hv
    obtain rfl : p' = p := hplan
    obtain ⟨hq, hm⟩ := Bool.and_eq_true_iff.mp hm
    have hm : m.id ∉ visited := by simpa using hm
    refine h.enter hs rfl hm (hs.reaches _ List.mem_cons_self) rfl rfl
      (hentered.trans (if_pos (Nat.lt_succ_self _))) rfl ?_
    rw [ahead_mk, Visit.acts_start]
    rfl
  | case7 p' n q passes m rest stack yielded visited hm =>
    intro hv
    cases hv
    refine h.advance hs rfl rfl rfl (hentered.trans (by simp)) rfl ?_
    intro n' q' m' he hq
    cases he
    simpa [hq] using hm

/-- Any number of turns. -/
theorem takes (h : Progress p root past w) (hc : root.Coherent) {l : List (Walk α)}
    (hl : Takes w l v) : Progress p root (past ++ l) v := by
  induction hl generalizing past with
  | none w => rwa [List.append_nil]
  | turn hw _ ih =>
    rw [List.append_cons]
    exact ih (h.turn hc hw)

end Progress

/-! ### Whole walks -/

/-- The turns visit every node below the root once, and examine each of its branches once in every
pass. -/
structure Covers (p : Plan) (root : Node α) (turns : List (Walk α)) : Prop where
  /-- No node is entered twice. -/
  nodup : ((entries root turns).map Node.id).Nodup
  mem_entries : ∀ n, n ∈ entries root turns ↔ root.Reaches n
  acts : (turns.filterMap act?).Perm ((entries root turns).flatMap (Node.acts p))
  length : turns.length = ((entries root turns).map fun n =>
    1 + p.passes.length * (1 + n.branches.length)).sum

namespace Progress

variable {o : Order} {root n : Node α} {past : List (Walk α)} {w : Walk α}

/-- At the end of a walk every node below the root was entered. -/
theorem mem_entries (h : Progress o.plan root past w) (hc : root.Coherent) (hw : w.stack = [])
    (hn : root.Reaches n) : n ∈ entries root past := by
  have hacts : (past.filterMap act?).Perm ((entries root past).flatMap (Node.acts o.plan)) := by
    have ha := h.acts
    rwa [ahead, hw, List.flatMap_nil, List.append_nil] at ha
  induction hn with
  | refl => exact List.mem_cons_self
  | @tail n m hn hm ih =>
    obtain ⟨q, hq, hqm⟩ := o.exists_accepts_imported (α := α) m
    have hexamine : .examine n q (.imported m) ∈ past.filterMap act? :=
      hacts.mem_iff.mpr (List.mem_flatMap.mpr ⟨n, ih, Node.examine_mem_acts hq hm⟩)
    obtain ⟨m', hm', hid⟩ := List.mem_map.mp
      ((h.mem_visited _).mp (h.followed n q m hexamine hqm))
    rwa [← hc m' m (h.reaches m' hm') (hn.tail hm) hid]

theorem covers (h : Progress o.plan root past w) (hc : root.Coherent) (hw : w.stack = []) :
    Covers o.plan root past := by
  have hacts : (past.filterMap act?).Perm ((entries root past).flatMap (Node.acts o.plan)) := by
    have ha := h.acts
    rwa [ahead, hw, List.flatMap_nil, List.append_nil] at ha
  refine ⟨h.nodup, fun n => ⟨h.reaches n, h.mem_entries hc hw⟩, hacts, ?_⟩
  rw [← h.length, hacts.length_eq, List.length_flatMap]
  simp only [Node.length_acts]

end Progress

/-! ### Calls -/

theorem after_succ (w : Walk α) (k : Nat) : w.after (k + 1) = (w.after k).next.2 := by
  induction k generalizing w with
  | zero => rfl
  | succ k ih => exact ih w.next.2

theorem turns_succ (w : Walk α) (k : Nat) : w.turns (k + 1) = w.turns k ++ (w.after k).spell := by
  induction k generalizing w with
  | zero => exact List.append_nil _
  | succ k ih =>
    rw [turns, ih, ← List.append_assoc]
    rfl

/-- A walk that is over takes no turns. -/
theorem spell_of_stack_eq_nil {w : Walk α} (h : w.stack = []) : w.spell = [] := by
  obtain ⟨p, stack, yielded, visited⟩ := w
  cases h
  exact spell_of_done rfl

variable [EquivBEq α] [LawfulHashable α] {root : Node α} {w : Walk α}

/-- Calls bring the elements that are left, one after the other. -/
theorem Sound.after (h : w.Sound root) (hc : root.Coherent) (k : Nat) :
    (w.after k).Sound root ∧ (w.after k).remaining = w.remaining.drop k := by
  induction k with
  | zero => exact ⟨h, rfl⟩
  | succ k ih =>
    obtain ⟨hs, hr⟩ := ih
    obtain ⟨-, hs', hr'⟩ := hs.next hc
    rw [after_succ]
    exact ⟨hs', by rw [hr', hr, List.tail_drop]⟩

theorem Sound.next_after (h : w.Sound root) (hc : root.Coherent) (k : Nat) :
    (w.after k).next.1 = w.remaining[k]? := by
  obtain ⟨hs, hr⟩ := h.after hc k
  rw [(hs.next hc).1, hr, List.head?_drop]

end Walk

namespace Stock

variable [BEq α] [Hashable α] [EquivBEq α] [LawfulHashable α]

/-- **A walk enters every node once.** Whatever the set was made of and in whatever order it is
walked, the calls bring elements that differ from each other, and after finitely many of them no
more. By then the turns have entered every node below the root once and examined each of its
branches once in every pass, and later calls take no turns. -/
theorem covers_turns {st : Stock α} (h : st.Reachable) {s : TransitiveSet α} (hs : s ∈ st.sets)
    {root : Node α} (hr : s.root = some root) (o : Order) :
    ∃ (count : Nat) (turns : List (Walk α)),
      (∀ k, ((Walk.start o.plan root).after k).next.1 = none ↔ count ≤ k) ∧
      (∀ i j a b, i < j → ((Walk.start o.plan root).after i).next.1 = some a →
        ((Walk.start o.plan root).after j).next.1 = some b → (a == b) = false) ∧
      (∀ k, (Walk.start o.plan root).Takes ((Walk.start o.plan root).turns k)
        ((Walk.start o.plan root).after k)) ∧
      (∀ k, count < k → (Walk.start o.plan root).turns k = turns) ∧
      Walk.Covers o.plan root turns := by
  have hc : root.Coherent := h.sound.coherent hs root hr
  have hnext := (Walk.Sound.start o.plan hc).next_after hc
  generalize hw : Walk.start o.plan root = w at hnext ⊢
  have hnone (k : Nat) : (w.after k).next.1 = none ↔ w.remaining.length ≤ k := by
    rw [hnext, List.getElem?_eq_none_iff]
  have hover (k : Nat) (hk : w.remaining.length ≤ k) : (w.after (k + 1)).stack = [] := by
    rw [Walk.after_succ]
    exact Walk.stack_of_next_eq_none ((hnone k).mpr hk)
  refine ⟨w.remaining.length, w.turns (w.remaining.length + 1), hnone, ?_, w.takes_turns, ?_, ?_⟩
  · intro i j a b hij ha hb
    rw [hnext, List.getElem?_eq_some_iff] at ha hb
    obtain ⟨hi, rfl⟩ := ha
    obtain ⟨hj, rfl⟩ := hb
    exact List.pairwise_iff_getElem.mp (pairwise_eraseDups _) i j hi hj hij
  · intro k hk
    induction k, hk using Nat.le_induction with
    | base => rfl
    | succ k hk ih =>
      obtain ⟨k, rfl⟩ := Nat.exists_eq_add_one_of_ne_zero (Nat.ne_zero_of_lt hk)
      rw [Walk.turns_succ, Walk.spell_of_stack_eq_nil (hover k (Nat.le_of_lt_succ hk)),
        List.append_nil, ih]
  · have hp := (hw ▸ Walk.Progress.start o.plan hc).takes hc (w.takes_turns (w.remaining.length + 1))
    exact hp.covers hc (hover _ (Nat.le_refl _))

namespace Shared

theorem reaches_top (n : Node Nat) : top.Reaches n ↔ n ∈ [top, side, base] := by
  have hbase (n : Node Nat) : base.Reaches n ↔ n = base := by
    rw [Node.reaches_iff]
    simp [base]
  have hside (n : Node Nat) : side.Reaches n ↔ n = side ∨ n = base := by
    rw [Node.reaches_iff]
    simp [side, hbase]
  have htop (m : Node Nat) : top.Imports m ↔ m = base ∨ m = side := by simp [top]
  rw [Node.reaches_iff]
  simp only [htop, or_and_right, exists_or, exists_eq_left, hbase, hside, List.mem_cons,
    List.not_mem_nil, or_false]
  rw [or_comm (a := n = base), or_assoc, or_self]

end Shared

/-- Two paths lead to `Shared.base`, whose seven turns are taken once. -/
theorem covers_turns_top : ∃ count : Nat,
    ∀ k, count < k → ((Walk.start Order.postorder.plan Shared.top).turns k).length = 25 := by
  obtain ⟨count, turns, -, -, -, hturns, hcovers⟩ := covers_turns Shared.reachable_triangle
    (s := Shared.setOf Shared.top) List.mem_cons_self rfl .postorder
  have hperm : (Walk.entries Shared.top turns).Perm [Shared.top, Shared.side, Shared.base] := by
    refine (List.perm_ext_iff_of_nodup (hcovers.nodup.of_map _) ?_).mpr fun n => ?_
    · simp [Shared.top, Shared.side, Shared.base]
    · rw [hcovers.mem_entries, Shared.reaches_top]
  refine ⟨count, fun k hk => ?_⟩
  rw [hturns k hk, hcovers.length, (hperm.map _).sum_nat]
  rfl

end Stock

end PluginClosure
