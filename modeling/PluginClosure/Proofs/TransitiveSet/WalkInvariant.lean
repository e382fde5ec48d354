import Mathlib.Data.List.Chain
import PluginClosure.Proofs.KeepFirst
import PluginClosure.Proofs.TransitiveSet.Unfolding

/-!
# What a walk remembers

A walk skips a node that was visited before. It loses nothing by that: the node is not on the stack,
since the graph has no cycles, and when a visit ends everything below its node has been yielded.
This file states the invariant behind the argument, shows that every turn keeps it, and concludes
that a walk yields the unfolding of its root without repetitions.

The elements that are left in a walk are those of the unfolding that would follow if nothing were
skipped, less the elements that were yielded before. A turn yields the first of them, or leaves them
as they are.

## Main definitions

* `PluginClosure.Visit.pending`, `PluginClosure.Walk.pending`: what would follow if nothing were
  skipped.
* `PluginClosure.Walk.remaining`: the elements that are left.
* `PluginClosure.Linked`: on a stack, every node is imported by the next one.
* `PluginClosure.Covered`: on a stack, what lies below a node is known, or pending further up.
* `PluginClosure.Walk.Sound`: the invariant.

## Main results

* `PluginClosure.Walk.Sound.mem_yielded_of_skip`: below a node that is skipped nothing is new.
* `PluginClosure.Walk.Sound.turn`: one turn.
* `PluginClosure.Walk.Sound.drain`, `PluginClosure.Walk.Sound.next`: runs of turns.
-/

namespace PluginClosure

variable {α : Type}

/-! ### What is left -/

namespace Visit

/-- The elements that a visit would still come upon if nothing were skipped. -/
def pending (p : Plan) : Visit α → List α
  | ⟨_, [], _⟩ => []
  | ⟨n, q :: passes, rest⟩ =>
    p.offers q rest ++ passes.flatMap fun q => p.offers q (p.sweep n.branches)

theorem pending_cons (p : Plan) (n : Node α) (q : Pass) (passes : List Pass)
    (rest : List (Branch α (Node α))) :
    pending p ⟨n, q :: passes, rest⟩ =
      p.offers q rest ++ passes.flatMap fun q => p.offers q (p.sweep n.branches) := rfl

theorem pending_own (p : Plan) (n : Node α) (q : Pass) (passes : List Pass) (a : α)
    (rest : List (Branch α (Node α))) :
    pending p ⟨n, q :: passes, .own a :: rest⟩ =
      (if q.accepts (.own a : Branch α (Node α)) then [a] else []) ++
        pending p ⟨n, q :: passes, rest⟩ := by
  rw [pending_cons, pending_cons, Plan.offers_own_cons, List.append_assoc]

theorem pending_imported (p : Plan) (n : Node α) (q : Pass) (passes : List Pass) (m : Node α)
    (rest : List (Branch α (Node α))) :
    pending p ⟨n, q :: passes, .imported m :: rest⟩ =
      (if q.accepts (.imported m : Branch α (Node α)) then m.unfold p else []) ++
        pending p ⟨n, q :: passes, rest⟩ := by
  rw [pending_cons, pending_cons, Plan.offers_imported_cons, List.append_assoc]

/-- A pass that begins has all its branches before it. -/
theorem pending_pass (p : Plan) (n : Node α) (passes : List Pass) :
    pending p ⟨n, passes, p.sweep n.branches⟩ =
      passes.flatMap fun q => p.offers q (p.sweep n.branches) := by
  cases passes <;> rfl

theorem pending_start (p : Plan) (n : Node α) : (start p n).pending p = n.unfold p := by
  rw [start, pending_pass, Node.unfold_eq]

theorem rest_start_subset (p : Plan) (n : Node α) : (start p n).rest ⊆ n.branches :=
  fun _ h => Plan.mem_sweep.mp h

end Visit

/-- Every node on a stack, whose uppermost visit comes first, is imported by the next one. -/
def Linked (stack : List (Visit α)) : Prop := stack.IsChain fun v u => u.node.Imports v.node

namespace Linked

variable {v v' : Visit α} {stack : List (Visit α)}

theorem singleton (v : Visit α) : Linked [v] := List.isChain_singleton v

theorem tail (h : Linked (v :: stack)) : Linked stack := List.IsChain.tail h

theorem push {m : Node α} (h : Linked (v :: stack)) (hm : v.node.Imports m) (p : Plan) :
    Linked (Visit.start p m :: v :: stack) :=
  List.isChain_cons_cons.mpr ⟨hm, h⟩

theorem replace (h : Linked (v :: stack)) (hn : v'.node = v.node) : Linked (v' :: stack) := by
  cases stack with
  | nil => exact singleton v'
  | cons u stack =>
    obtain ⟨hu, hs⟩ := List.isChain_cons_cons.mp h
    exact List.isChain_cons_cons.mpr ⟨hn ▸ hu, hs⟩

/-- Every node on the stack reaches the uppermost one. -/
theorem reaches (h : Linked (v :: stack)) : ∀ u ∈ v :: stack, u.node.Reaches v.node := by
  induction stack generalizing v with
  | nil =>
    intro u hu
    obtain rfl := List.mem_singleton.mp hu
    exact Node.Reaches.refl _
  | cons t stack ih =>
    obtain ⟨hv, hs⟩ := List.isChain_cons_cons.mp h
    intro u hu
    obtain rfl | hu := List.mem_cons.mp hu
    · exact Node.Reaches.refl _
    · exact (ih hs u hu).tail hv

end Linked

/-- On a stack whose uppermost visit comes first, each element below the node of a visit is `known`,
or pending in the visit or in one further up. -/
def Covered (p : Plan) (known : α → Prop) : List (Visit α) → Prop
  | [] => True
  | v :: stack =>
    (∀ a ∈ v.node.unfold p, known a ∨ a ∈ v.pending p) ∧
      Covered p (fun a => known a ∨ a ∈ v.pending p) stack

namespace Covered

variable {p : Plan} {known known' : α → Prop} {v v' : Visit α} {stack : List (Visit α)}

theorem mono (hk : ∀ a, known a → known' a) (h : Covered p known stack) :
    Covered p known' stack := by
  induction stack generalizing known known' with
  | nil => trivial
  | cons v stack ih =>
    refine ⟨fun a ha => (h.1 a ha).imp_left (hk a), ih (fun a ha => ?_) h.2⟩
    exact ha.imp_left (hk a)

/-- The uppermost visit may go on, if what is no longer pending has become known. -/
theorem advance (h : Covered p known (v :: stack)) (hn : v'.node = v.node)
    (hk : ∀ a, known a → known' a)
    (hv : ∀ a ∈ v.pending p, known' a ∨ a ∈ v'.pending p) : Covered p known' (v' :: stack) := by
  have hs (a : α) (ha : known a ∨ a ∈ v.pending p) : known' a ∨ a ∈ v'.pending p :=
    ha.elim (fun ha => Or.inl (hk a ha)) (hv a)
  refine ⟨fun a ha => hs a (h.1 a ?_), h.2.mono hs⟩
  rwa [← hn]

/-- A visit may begin on top, if what is no longer pending lies below its node. -/
theorem enter {m : Node α} (h : Covered p known (v :: stack)) (hn : v'.node = v.node)
    (hv : ∀ a ∈ v.pending p, a ∈ m.unfold p ∨ a ∈ v'.pending p) :
    Covered p known (Visit.start p m :: v' :: stack) := by
  refine ⟨fun a ha => Or.inr ?_, h.advance hn (fun a ha => Or.inl ha) fun a ha => ?_⟩
  · rwa [Visit.pending_start]
  · rw [Visit.pending_start]
    exact (hv a ha).imp_left Or.inr

end Covered

namespace Walk

variable [BEq α] [Hashable α]

/-- The elements that the walk would still come upon if nothing were skipped. -/
def pending (w : Walk α) : List α := w.stack.flatMap (Visit.pending w.plan)

/-- The elements that the walk has still to yield. -/
def remaining (w : Walk α) : List α :=
  (w.pending.filter fun a => !w.yielded.contains a).eraseDups

/-- The invariant of a walk from a root. -/
structure Sound (root : Node α) (w : Walk α) : Prop where
  /-- The walk stays below its root. -/
  reaches : ∀ v ∈ w.stack, root.Reaches v.node
  /-- Every node on the stack is imported by the next one. -/
  linked : Linked w.stack
  /-- What a visit has not examined are branches of its node. -/
  rest_subset : ∀ v ∈ w.stack, v.rest ⊆ v.node.branches
  /-- What lies below a node on the stack was yielded, or is pending there or further up. -/
  covered : Covered w.plan (· ∈ w.yielded) w.stack
  /-- A node that was visited is on the stack, or everything below it was yielded. -/
  visited : ∀ n, root.Reaches n → n.id ∈ w.visited →
    (∃ v ∈ w.stack, v.node = n) ∨ ∀ a ∈ n.unfold w.plan, a ∈ w.yielded

namespace Sound

variable {root n m : Node α} {w : Walk α} {p : Plan} {v v' : Visit α} {stack : List (Visit α)}
  {yielded yielded' : Std.HashSet α} {visited : Std.HashSet Serial}
  {rest : List (Branch α (Node α))}

theorem start (p : Plan) (hc : root.Coherent) : (Walk.start p root).Sound root where
  reaches := List.forall_mem_singleton.mpr (Node.Reaches.refl root)
  linked := Linked.singleton _
  rest_subset := List.forall_mem_singleton.mpr (Visit.rest_start_subset p root)
  covered := ⟨fun a ha => Or.inr ((Visit.pending_start p root).symm ▸ ha), trivial⟩
  visited n hn hid := by
    have hid : root.id = n.id := by simpa [Walk.start] using hid
    exact Or.inl ⟨_, List.mem_cons_self, hc root n (Node.Reaches.refl root) hn hid⟩

/-- When a visit ends, everything below its node has been yielded. -/
theorem leave (h : Sound root ⟨p, ⟨n, [], rest⟩ :: stack, yielded, visited⟩) :
    Sound root ⟨p, stack, yielded, visited⟩ where
  reaches v hv := h.reaches v (List.mem_cons_of_mem _ hv)
  linked := h.linked.tail
  rest_subset v hv := h.rest_subset v (List.mem_cons_of_mem _ hv)
  covered := h.covered.2.mono fun a ha => ha.resolve_right List.not_mem_nil
  visited l hl hid := by
    obtain ⟨u, hu, rfl⟩ | hl := h.visited l hl hid
    · obtain rfl | hu := List.mem_cons.mp hu
      · exact Or.inr fun a ha => (h.covered.1 a ha).resolve_right List.not_mem_nil
      · exact Or.inl ⟨u, hu, rfl⟩
    · exact Or.inr hl

/-- The uppermost visit goes on. -/
theorem advance (h : Sound root ⟨p, v :: stack, yielded, visited⟩) (hn : v'.node = v.node)
    (hr : v'.rest ⊆ v.node.branches) (hy : ∀ a ∈ yielded, a ∈ yielded')
    (hv : ∀ a ∈ v.pending p, a ∈ yielded' ∨ a ∈ v'.pending p) :
    Sound root ⟨p, v' :: stack, yielded', visited⟩ where
  reaches := by
    obtain ⟨hv, hs⟩ := List.forall_mem_cons.mp h.reaches
    exact List.forall_mem_cons.mpr ⟨hn ▸ hv, hs⟩
  linked := h.linked.replace hn
  rest_subset := List.forall_mem_cons.mpr
    ⟨hn ▸ hr, (List.forall_mem_cons.mp h.rest_subset).2⟩
  covered := h.covered.advance hn hy hv
  visited l hl hid := by
    obtain ⟨u, hu, rfl⟩ | hl := h.visited l hl hid
    · obtain rfl | hu := List.mem_cons.mp hu
      · exact Or.inl ⟨v', List.mem_cons_self, hn⟩
      · exact Or.inl ⟨u, List.mem_cons_of_mem _ hu, rfl⟩
    · exact Or.inr fun a ha => hy a (hl a ha)

/-- The visit of an import begins. -/
theorem enter (h : Sound root ⟨p, v :: stack, yielded, visited⟩) (hc : root.Coherent)
    (hm : v.node.Imports m) (hn : v'.node = v.node) (hr : v'.rest ⊆ v.node.branches)
    (hv : ∀ a ∈ v.pending p, a ∈ m.unfold p ∨ a ∈ v'.pending p) :
    Sound root ⟨p, Visit.start p m :: v' :: stack, yielded, visited.insert m.id⟩ where
  reaches := by
    obtain ⟨hv, hs⟩ := List.forall_mem_cons.mp h.reaches
    exact List.forall_mem_cons.mpr
      ⟨hv.tail hm, List.forall_mem_cons.mpr ⟨hn ▸ hv, hs⟩⟩
  linked := (h.linked.replace hn).push (hn ▸ hm) p
  rest_subset := List.forall_mem_cons.mpr ⟨Visit.rest_start_subset p m,
    List.forall_mem_cons.mpr ⟨hn ▸ hr, (List.forall_mem_cons.mp h.rest_subset).2⟩⟩
  covered := h.covered.enter hn hv
  visited l hl hid := by
    obtain hid | hid := Std.HashSet.mem_insert.mp hid
    · have hr : root.Reaches m := (h.reaches v List.mem_cons_self).tail hm
      exact Or.inl ⟨_, List.mem_cons_self, hc m l hr hl (eq_of_beq hid)⟩
    · obtain ⟨u, hu, rfl⟩ | hl := h.visited l hl hid
      · obtain rfl | hu := List.mem_cons.mp hu
        · exact Or.inl ⟨v', List.mem_cons_of_mem _ List.mem_cons_self, hn⟩
        · exact Or.inl ⟨u, List.mem_cons_of_mem _ (List.mem_cons_of_mem _ hu), rfl⟩
      · exact Or.inr hl

/-- Below a node that is skipped nothing is new: it is not on the stack. -/
theorem mem_yielded_of_skip (h : Sound root ⟨p, v :: stack, yielded, visited⟩)
    (hm : v.node.Imports m) (hid : m.id ∈ visited) : ∀ a ∈ m.unfold p, a ∈ yielded := by
  have hr : root.Reaches m := (h.reaches v List.mem_cons_self).tail hm
  refine (h.visited m hr hid).resolve_left ?_
  rintro ⟨u, hu, rfl⟩
  exact hm.not_reaches (h.linked.reaches u hu)

end Sound

/-! ### One turn -/

/-- What a turn is to bring, according to what is left in the walk. -/
def Turn.Follows (root : Node α) (w : Walk α) : Turn α → Prop
  | done v => v = w ∧ w.remaining = []
  | quiet v => v.Sound root ∧ v.remaining = w.remaining
  | yield a v => v.Sound root ∧ w.remaining = a :: v.remaining

theorem remaining_eq (p : Plan) (v : Visit α) (stack : List (Visit α)) (yielded : Std.HashSet α)
    (visited : Std.HashSet Serial) :
    remaining ⟨p, v :: stack, yielded, visited⟩ =
      ((v.pending p ++ stack.flatMap (Visit.pending p)).filter
        fun a => !yielded.contains a).eraseDups := rfl

/-- Pending elements that were yielded before are not left. -/
theorem remaining_skip {p : Plan} {v v' : Visit α} {stack : List (Visit α)} {l : List α}
    {yielded : Std.HashSet α} (visited : Std.HashSet Serial) (hl : ∀ a ∈ l, a ∈ yielded)
    (hv : v.pending p = l ++ v'.pending p) :
    remaining ⟨p, v' :: stack, yielded, visited⟩ =
      remaining ⟨p, v :: stack, yielded, visited⟩ := by
  have hn : l.filter (fun a => !yielded.contains a) = [] := by
    refine List.filter_eq_nil_iff.mpr fun a ha => ?_
    rw [Std.HashSet.mem_iff_contains.mp (hl a ha)]
    exact Bool.false_ne_true
  rw [remaining_eq, remaining_eq, hv, List.append_assoc, List.filter_append l, hn, List.nil_append]

theorem remaining_start (p : Plan) (n : Node α) :
    (Walk.start p n).remaining = (n.unfold p).eraseDups := by
  have hn (a : α) : (!(∅ : Std.HashSet α).contains a) = true := by simp
  rw [Walk.start, remaining_eq, List.flatMap_nil, List.append_nil, Visit.pending_start,
    List.filter_eq_self.mpr fun a _ => hn a]

section Lawful

variable [EquivBEq α] [LawfulHashable α] {root : Node α} {w : Walk α}

/-- The first pending element, if it was not yielded before, is the first one that is left. -/
theorem remaining_yield {p : Plan} {v v' : Visit α} {stack : List (Visit α)} {a : α}
    {yielded : Std.HashSet α} (visited : Std.HashSet Serial) (ha : yielded.contains a = false)
    (hv : v.pending p = a :: v'.pending p) :
    remaining ⟨p, v :: stack, yielded, visited⟩ =
      a :: remaining ⟨p, v' :: stack, yielded.insert a, visited⟩ := by
  have hp : (!yielded.contains a) = true := by rw [ha]; rfl
  rw [remaining_eq, remaining_eq, hv, List.cons_append, List.filter_cons, if_pos hp,
    List.eraseDups_cons, List.filter_filter]
  refine congrArg (fun l => a :: List.eraseDups l) (List.filter_congr fun b _ => ?_)
  rw [Std.HashSet.contains_insert, Bool.not_or, BEq.comm]

/-- One turn keeps the invariant, and yields the first element that is left, if any. -/
theorem Sound.turn (h : Sound root w) (hc : root.Coherent) : w.turn.Follows root w := by
  fun_cases Walk.turn w with
  | case1 p yielded visited => exact ⟨rfl, rfl⟩
  | case2 p n rest stack yielded visited => exact ⟨h.leave, rfl⟩
  | case3 p n q passes stack yielded visited =>
    have hv : Visit.pending p ⟨n, q :: passes, []⟩ =
        Visit.pending p ⟨n, passes, p.sweep n.branches⟩ := (Visit.pending_pass p n passes).symm
    refine ⟨h.advance rfl (Visit.rest_start_subset p n) (fun _ ha => ha) fun a ha => ?_, ?_⟩
    · exact Or.inr (hv ▸ ha)
    · rw [remaining_eq, remaining_eq, hv]
  | case4 p n q passes a rest stack yielded visited ha =>
    obtain ⟨hq, ha⟩ := Bool.and_eq_true_iff.mp ha
    have hv : Visit.pending p ⟨n, q :: passes, .own a :: rest⟩ =
        a :: Visit.pending p ⟨n, q :: passes, rest⟩ := by
      rw [Visit.pending_own, if_pos hq, List.singleton_append]
    refine ⟨h.advance rfl ?_ (fun b hb => Std.HashSet.mem_insert.mpr (Or.inr hb)) ?_,
      remaining_yield visited (by simpa using ha) hv⟩
    · exact fun b hb => h.rest_subset _ List.mem_cons_self (List.mem_cons_of_mem _ hb)
    · rw [hv]
      intro b hb
      obtain rfl | hb := List.mem_cons.mp hb
      · exact Or.inl Std.HashSet.mem_insert_self
      · exact Or.inr hb
  | case5 p n q passes a rest stack yielded visited ha =>
    have hl : ∀ b ∈ (if q.accepts (.own a : Branch α (Node α)) then [a] else []), b ∈ yielded := by
      intro b hb
      split at hb
      · next hq =>
        obtain rfl := List.mem_singleton.mp hb
        simpa [hq] using ha
      · cases hb
    have hv := Visit.pending_own p n q passes a rest
    refine ⟨h.advance rfl ?_ (fun _ hb => hb) fun b hb => ?_, remaining_skip visited hl hv⟩
    · exact fun b hb => h.rest_subset _ List.mem_cons_self (List.mem_cons_of_mem _ hb)
    · exact (List.mem_append.mp (hv ▸ hb)).imp_left (hl b)
  | case6 p n q passes m rest stack yielded visited hm =>
    obtain ⟨hq, hm⟩ := Bool.and_eq_true_iff.mp hm
    have hr := h.rest_subset _ List.mem_cons_self
    have hv : Visit.pending p ⟨n, q :: passes, .imported m :: rest⟩ =
        m.unfold p ++ Visit.pending p ⟨n, q :: passes, rest⟩ := by
      rw [Visit.pending_imported, if_pos hq]
    refine ⟨h.enter hc (hr List.mem_cons_self) rfl ?_ fun b hb => ?_, ?_⟩
    · exact fun b hb => hr (List.mem_cons_of_mem _ hb)
    · exact List.mem_append.mp (hv ▸ hb)
    · rw [remaining_eq, remaining_eq, hv, List.flatMap_cons, Visit.pending_start,
        List.append_assoc]
  | case7 p n q passes m rest stack yielded visited hm =>
    have hr := h.rest_subset _ List.mem_cons_self
    have hl : ∀ b ∈ (if q.accepts (.imported m : Branch α (Node α)) then m.unfold p else []),
        b ∈ yielded := by
      intro b hb
      split at hb
      · next hq =>
        have hid : m.id ∈ visited := by simpa [hq] using hm
        exact h.mem_yielded_of_skip (hr List.mem_cons_self) hid b hb
      · cases hb
    have hv := Visit.pending_imported p n q passes m rest
    refine ⟨h.advance rfl ?_ (fun _ hb => hb) fun b hb => ?_, remaining_skip visited hl hv⟩
    · exact fun b hb => hr (List.mem_cons_of_mem _ hb)
    · exact (List.mem_append.mp (hv ▸ hb)).imp_left (hl b)

theorem Sound.turn_done {v : Walk α} (h : Sound root w) (hc : root.Coherent)
    (hw : w.turn = .done v) : v = w ∧ w.remaining = [] := by
  have ht := h.turn hc
  rwa [hw] at ht

theorem Sound.turn_quiet {v : Walk α} (h : Sound root w) (hc : root.Coherent)
    (hw : w.turn = .quiet v) : v.Sound root ∧ v.remaining = w.remaining := by
  have ht := h.turn hc
  rwa [hw] at ht

theorem Sound.turn_yield {v : Walk α} {a : α} (h : Sound root w) (hc : root.Coherent)
    (hw : w.turn = .yield a v) : v.Sound root ∧ w.remaining = a :: v.remaining := by
  have ht := h.turn hc
  rwa [hw] at ht

/-! ### Runs of turns -/

/-- Turns up to the next element bring the first one that is left. -/
theorem Sound.next (h : Sound root w) (hc : root.Coherent) :
    w.next.1 = w.remaining.head? ∧ w.next.2.Sound root ∧
      w.next.2.remaining = w.remaining.tail := by
  fun_induction Walk.next w with
  | case1 w v hw =>
    obtain ⟨rfl, hr⟩ := h.turn_done hc hw
    exact ⟨by rw [hr]; rfl, h, by rw [hr]; rfl⟩
  | case2 w v hw ih =>
    obtain ⟨hv, hr⟩ := h.turn_quiet hc hw
    exact hr ▸ ih hv
  | case3 w a v hw =>
    obtain ⟨hv, hr⟩ := h.turn_yield hc hw
    exact ⟨by rw [hr]; rfl, hv, by rw [hr]; rfl⟩

/-- Turns to the end bring all elements that are left. -/
theorem Sound.drain (h : Sound root w) (hc : root.Coherent) (l : List α) :
    (w.drain l).1 = w.remaining.reverse ++ l ∧ (w.drain l).2.Sound root ∧
      (w.drain l).2.remaining = [] := by
  fun_induction Walk.drain w l with
  | case1 w l v hw =>
    obtain ⟨rfl, hr⟩ := h.turn_done hc hw
    exact ⟨by rw [hr]; rfl, h, hr⟩
  | case2 w l v hw ih =>
    obtain ⟨hv, hr⟩ := h.turn_quiet hc hw
    exact hr ▸ ih hv
  | case3 w l a v hw ih =>
    obtain ⟨hv, hr⟩ := h.turn_yield hc hw
    obtain ⟨h₁, h₂⟩ := ih hv
    refine ⟨?_, h₂⟩
    rw [h₁, hr, List.reverse_cons, List.append_assoc, List.singleton_append]

end Lawful

end Walk

end PluginClosure
