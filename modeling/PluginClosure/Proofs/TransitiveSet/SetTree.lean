import PluginClosure.Proofs.TransitiveSet.EqualParts

/-!
# Trees of imports

Sets are gathered along the dependency graph: a set imports others and nothing else, and is imported
in turn. Such a tree of imports lists the same elements in the same sequence as one set that imports
all leaves of the tree from left to right, whatever the order. The nodes behind the two sets differ:
a set with a single import is that import, empty sets leave no trace, and every level of the tree
has nodes of its own.

The proof follows the tree. An order keeps one occurrence of every element, and it may do so in
parts of a list before it does so in the whole.

## Main definitions

* `PluginClosure.TransitiveSet.ofImports`: the set that imports the sets of a list.
* `PluginClosure.SetTree`, with `SetTree.eval` and `SetTree.leaves`.
* `PluginClosure.Order.keep`, `PluginClosure.Order.dropRepeats`: the occurrences of elements, and of
  imports, that an order keeps.
* `PluginClosure.Stock.Makes`: computations that succeed as pieces of histories.

## Main results

* `PluginClosure.Order.keep_append_congr`: the occurrences to be kept may be settled part by part.
* `PluginClosure.Stock.Sound.keep_dropRepeats`: of equal imports one is enough.
* `PluginClosure.Stock.Sound.makes_eval`: what a tree comes to, by induction.
* `PluginClosure.Stock.toList_eval`: trees of imports and flat imports.
-/

namespace PluginClosure

variable {α β γ : Type}

/-! ### Occurrences -/

namespace Order

/-- The elements of a list, each at the place of the occurrence that an order keeps. -/
def keep [BEq α] : Order → List α → List α
  | topological, l => keepLast l
  | _, l => l.eraseDups

/-- The members of a list without repeated ones. Of equal members the topological order leaves the
last one, and the other orders leave the first one. -/
def dropRepeats [BEq β] : Order → List β → List β
  | topological, l => (PluginClosure.dropRepeats [] l.reverse).reverse
  | _, l => PluginClosure.dropRepeats [] l

theorem dropRepeats_subset [BEq β] (o : Order) (l : List β) : o.dropRepeats l ⊆ l := by
  cases o with
  | topological =>
    intro b hb
    exact List.mem_reverse.mp ((dropRepeats_sublist [] l.reverse).subset (List.mem_reverse.mp hb))
  | insertion | postorder | preorder => exact (dropRepeats_sublist [] l).subset

/-- From lists of imports an order keeps what it keeps from one list of them all. -/
theorem gather_imported [BEq α] (o : Order) (L : List (List α)) :
    o.gather (L.map .imported) = o.keep L.flatten := by
  have hown : (L.map (.imported : List α → Branch α (List α))).filterMap Branch.own? = [] := by
    rw [List.filterMap_map]
    exact List.filterMap_eq_nil_iff.mpr fun _ _ => rfl
  have himported : (L.map (.imported : List α → Branch α (List α))).filterMap Branch.imported? =
      L := by
    rw [List.filterMap_map]
    exact List.filterMap_some
  cases o with
  | insertion =>
    rw [gather, List.flatMap_map]
    exact congrArg List.eraseDups L.flatMap_id'
  | postorder => rw [gather, hown, himported, List.append_nil]; rfl
  | preorder | topological => rw [gather, hown, himported, List.nil_append]; rfl

variable [BEq α] [EquivBEq α]

/-- The occurrences to be kept may be settled part by part. -/
theorem keep_append_congr (o : Order) {l l' k k' : List α} (hl : o.keep l = o.keep l')
    (hk : o.keep k = o.keep k') : o.keep (l ++ k) = o.keep (l' ++ k') := by
  cases o with
  | topological =>
    simp only [keep, keepLast, List.reverse_append, List.reverse_inj] at hl hk ⊢
    exact eraseDups_append_congr hk hl
  | insertion | postorder | preorder => exact eraseDups_append_congr hl hk

theorem keep_keep (o : Order) (l : List α) : o.keep (o.keep l) = o.keep l := by
  cases o with
  | topological => simp only [keep, keepLast, List.reverse_reverse, eraseDups_eraseDups]
  | insertion | postorder | preorder => exact eraseDups_eraseDups l

theorem keep_of_pairwise (o : Order) {l : List α}
    (h : l.Pairwise fun a b => (a == b) = false) : o.keep l = l := by
  cases o with
  | topological =>
    have hr : l.reverse.Pairwise fun a b => (a == b) = false :=
      List.pairwise_reverse.mpr (h.imp fun hab => BEq.symm_false hab)
    rw [keep, keepLast, eraseDups_of_pairwise hr, List.reverse_reverse]
  | insertion | postorder | preorder => exact eraseDups_of_pairwise h

end Order

/-- A part may be dropped if an equal part comes earlier, provided that equal parts stand for equal
elements. -/
theorem eraseDups_flatMap_dropRepeats [BEq α] [EquivBEq α] [BEq β] {f : β → List α} {l : List β}
    (h : ∀ b ∈ l, ∀ c ∈ l, (c == b) = true → ∀ a ∈ f c, (f b).contains a = true) :
    ((dropRepeats [] l).flatMap f).eraseDups = (l.flatMap f).eraseDups := by
  have hdrop := dropRepeats_iff (k := []) (l := l)
    (Q := fun k => (k.flatMap f).eraseDups = (l.flatMap f).eraseDups) fun l₁ c l₂ hs hc => ?_
  · exact hdrop.mpr rfl
  · obtain ⟨b, hb, hcb⟩ := List.contains_iff_exists_mem_beq.mp hc
    have hsub : l₁ ++ c :: l₂ ⊆ l := hs.subset
    have hbl : b ∈ l := hsub (List.mem_append_left _ hb)
    have hcl : c ∈ l := hsub (List.mem_append_right _ List.mem_cons_self)
    have hfc : (l₁.flatMap f ++ f c).eraseDups = (l₁.flatMap f).eraseDups := by
      refine eraseDups_append_of_contains fun a ha => ?_
      obtain ⟨a', ha', haa'⟩ := List.contains_iff_exists_mem_beq.mp (h b hbl c hcl hcb a ha)
      exact List.contains_iff_exists_mem_beq.mpr ⟨a', List.mem_flatMap.mpr ⟨b, hb, ha'⟩, haa'⟩
    rw [List.flatMap_append, List.flatMap_append, List.flatMap_cons, ← List.append_assoc,
      eraseDups_append_congr hfc rfl]

theorem Matching.contains [BEq α] {l k : List α} (h : Matching l k) :
    ∀ a ∈ l, k.contains a = true := by
  induction h with
  | nil => exact fun a ha => absurd ha List.not_mem_nil
  | cons hab _ ih =>
    refine List.forall_mem_cons.mpr ⟨?_, fun a ha => ?_⟩
    · rw [List.contains_cons, hab, Bool.true_or]
    · rw [List.contains_cons, ih a ha, Bool.or_true]

/-! ### Imports and nothing else -/

namespace TransitiveSet

/-- The set that imports the sets of a list, from left to right. -/
def ofImports (o : Order) (l : List (TransitiveSet α)) :
    ExceptT OrderMismatch Fresh (TransitiveSet α) := do
  let d ← (l.foldlM Draft.addSet { order := o } : Except OrderMismatch (Draft α))
  d.finish

/-- Sets of the order are all imported. -/
theorem foldlM_addSet (d : Draft α) {l : List (TransitiveSet α)}
    (h : ∀ s ∈ l, s.order = d.order) :
    ∃ e : Draft α, l.foldlM Draft.addSet d = .ok e ∧
      (l.map .addSet).foldlM Draft.perform d = pure e := by
  induction l generalizing d with
  | nil => exact ⟨d, rfl, rfl⟩
  | cons s l ih =>
    obtain ⟨hs, hl⟩ := List.forall_mem_cons.mp h
    cases hd : d.addSet s with
    | error e => exact absurd hs (Draft.addSet_eq_error_iff.mp hd).1
    | ok d' =>
      obtain ⟨-, ho, -⟩ := Draft.branches_of_addSet hd
      obtain ⟨e, he, hp⟩ := ih d' fun t ht => (hl t ht).trans ho.symm
      refine ⟨e, ?_, ?_⟩
      · rw [List.foldlM_cons, hd]
        exact he
      · rw [List.map_cons, List.foldlM_cons, Draft.perform, hd]
        exact hp

theorem run_ofImports {o : Order} {l : List (TransitiveSet α)} (h : ∀ s ∈ l, s.order = o) :
    (ofImports o l).run = Except.ok <$> ofCalls o (l.map .addSet) := by
  obtain ⟨d, hd, hp⟩ := foldlM_addSet { order := o } h
  rw [ofImports, hd, ofCalls, Draft.ofCalls, hp]
  rfl

end TransitiveSet

/-! ### Trees -/

/-- A tree of imports. Its leaves are sets, and each of its nodes stands for a set that imports what
its children come to. -/
inductive SetTree (α : Type) where
  | leaf (s : TransitiveSet α)
  | node (children : List (SetTree α))

namespace SetTree

theorem sizeOf_lt_of_mem {c : SetTree α} {cs : List (SetTree α)} (h : c ∈ cs) :
    sizeOf c < sizeOf (node cs) := by
  have := List.sizeOf_lt_of_mem h
  simp only [node.sizeOf_spec]
  omega

/-- Induction on the tree: a property passes from the children of a node to the node. -/
theorem induction {p : SetTree α → Prop} (leaf : ∀ s, p (leaf s))
    (node : ∀ cs, (∀ c ∈ cs, p c) → p (node cs)) : ∀ t, p t
  | .leaf s => leaf s
  | .node cs => node cs fun c _ => induction leaf node c
termination_by t => sizeOf t
decreasing_by exact sizeOf_lt_of_mem ‹_›

/-- Makes the sets of an order, from the leaves to the root and from left to right. -/
def eval (o : Order) : SetTree α → ExceptT OrderMismatch Fresh (TransitiveSet α)
  | leaf s => return s
  | node cs => do TransitiveSet.ofImports o (← cs.mapM (eval o))
termination_by t => sizeOf t
decreasing_by exact sizeOf_lt_of_mem ‹_›

/-- The leaves, from left to right. -/
def leaves : SetTree α → List (TransitiveSet α)
  | leaf s => [s]
  | node cs => cs.flatMap leaves
termination_by t => sizeOf t
decreasing_by exact sizeOf_lt_of_mem ‹_›

theorem eval_leaf (o : Order) (s : TransitiveSet α) : (leaf s).eval o = pure s := by rw [eval]

theorem eval_node (o : Order) (cs : List (SetTree α)) :
    (node cs).eval o = (do TransitiveSet.ofImports o (← cs.mapM (eval o))) := by rw [eval]

theorem leaves_leaf (s : TransitiveSet α) : (leaf s).leaves = [s] := by rw [leaves]

theorem leaves_node (cs : List (SetTree α)) : (node cs).leaves = cs.flatMap leaves := by
  rw [leaves]

end SetTree

/-! ### Histories -/

/-- The set has the order, and lists what the order keeps of the lists of other sets. -/
structure TransitiveSet.Gathers [BEq α] [Hashable α] (s : TransitiveSet α) (o : Order)
    (l : List (TransitiveSet α)) : Prop where
  order : s.order = o
  toList : s.toList = o.keep (l.flatMap TransitiveSet.toList)

namespace Stock

/-- Run with the stock at hand, the computation succeeds as a piece of a history. `P` is true of its
result and of the stock afterwards. -/
def Makes (st : Stock α) (x : ExceptT OrderMismatch Fresh β) (P : β → Stock α → Prop) : Prop :=
  ∃ b st', x.run.run st.supply = (.ok b, st'.supply) ∧ Relation.ReflTransGen Step st st' ∧ P b st'

namespace Makes

variable {st : Stock α} {x : ExceptT OrderMismatch Fresh β} {P : β → Stock α → Prop}
  {Q : γ → Stock α → Prop}

theorem pure {b : β} (h : P b st) : st.Makes (pure b) P :=
  ⟨b, st, rfl, Relation.ReflTransGen.refl, h⟩

theorem bind {f : β → ExceptT OrderMismatch Fresh γ} (hx : st.Makes x P)
    (hf : ∀ b st', Relation.ReflTransGen Step st st' → P b st' → st'.Makes (f b) Q) :
    st.Makes (x >>= f) Q := by
  obtain ⟨b, st', hrun, hst, hb⟩ := hx
  obtain ⟨c, st'', hrun', hst', hc⟩ := hf b st' hst hb
  refine ⟨c, st'', ?_, hst.trans hst', hc⟩
  rw [ExceptT.run_bind, StateT.run_bind, hrun]
  exact hrun'

end Makes

variable {st st' : Stock α}

theorem sound_of_steps (h : Relation.ReflTransGen Step st st') (hs : st.Sound) : st'.Sound := by
  induction h with
  | refl => exact hs
  | tail _ hstep ih => exact ih.step hstep

theorem sets_subset_of_steps (h : Relation.ReflTransGen Step st st') : st.sets ⊆ st'.sets := by
  induction h with
  | refl => exact List.Subset.refl _
  | tail _ hstep ih => exact List.Subset.trans ih hstep.sets_subset

variable [BEq α] [Hashable α] {o : Order}

/-- The results of the children of a node are at hand, and each gathers the leaves of its child. -/
structure Holds (o : Order) (st : Stock α) (l : List (TransitiveSet α)) (cs : List (SetTree α)) :
    Prop where
  subset : l ⊆ st.sets
  gathers : List.Forall₂ (fun s (c : SetTree α) => s.Gathers o c.leaves) l cs

theorem Holds.order {l : List (TransitiveSet α)} {cs : List (SetTree α)} (h : st.Holds o l cs) :
    ∀ s ∈ l, s.order = o := by
  obtain ⟨-, h⟩ := h
  induction h with
  | nil => exact fun s hs => absurd hs List.not_mem_nil
  | cons hs _ ih => exact List.forall_mem_cons.mpr ⟨hs.order, ih⟩

/-- What gathers the results of the children gathers the leaves below them. -/
theorem Holds.gathers_leaves [EquivBEq α] {l : List (TransitiveSet α)} {cs : List (SetTree α)}
    {s : TransitiveSet α} (h : st.Holds o l cs) (hs : s.Gathers o l) :
    s.Gathers o (cs.flatMap SetTree.leaves) := by
  refine ⟨hs.order, hs.toList.trans ?_⟩
  obtain ⟨-, h⟩ := h
  clear hs
  induction h with
  | nil => rfl
  | cons hs _ ih =>
    rw [List.flatMap_cons, List.flatMap_cons, List.flatMap_append]
    refine o.keep_append_congr ?_ ih
    rw [hs.toList, Order.keep_keep]

/-- The children of a node are evaluated one after the other. -/
theorem Sound.makes_mapM_eval (h : st.Sound) {cs : List (SetTree α)}
    (ih : ∀ c ∈ cs, ∀ st : Stock α, st.Sound → c.leaves ⊆ st.sets →
      (∀ s ∈ c.leaves, s.order = o) →
      st.Makes (c.eval o) fun s st' => s ∈ st'.sets ∧ s.Gathers o c.leaves)
    (hl : cs.flatMap SetTree.leaves ⊆ st.sets)
    (ho : ∀ s ∈ cs.flatMap SetTree.leaves, s.order = o) :
    st.Makes (cs.mapM (SetTree.eval o)) fun l st' => st'.Holds o l cs := by
  induction cs generalizing st with
  | nil => exact .pure ⟨List.nil_subset _, .nil⟩
  | cons c cs ihcs =>
    rw [List.mapM_cons]
    rw [List.flatMap_cons] at hl ho
    obtain ⟨hlc, hlcs⟩ := List.append_subset.mp hl
    obtain ⟨hoc, hocs⟩ := List.forall_mem_append.mp ho
    obtain ⟨ihc, ih⟩ := List.forall_mem_cons.mp ih
    refine (ihc st h hlc hoc).bind fun s st' hst' ⟨hs, hg⟩ => ?_
    refine (ihcs (sound_of_steps hst' h) ih
      (List.Subset.trans hlcs (sets_subset_of_steps hst')) hocs).bind ?_
    intro l st'' hst'' hh
    exact .pure ⟨List.cons_subset.mpr ⟨sets_subset_of_steps hst'' hs, hh.subset⟩,
      .cons hg hh.gathers⟩

variable [EquivBEq α] [LawfulHashable α]

/-- Of equal imports one is enough: the one whose elements the order keeps. -/
theorem Sound.keep_dropRepeats (h : st.Sound) (o : Order) {l : List (TransitiveSet α)}
    (hl : l ⊆ st.sets) :
    o.keep ((o.dropRepeats l).flatMap TransitiveSet.toList) =
      o.keep (l.flatMap TransitiveSet.toList) := by
  have hmatches (s : TransitiveSet α) (hs : s ∈ l) (t : TransitiveSet α) (ht : t ∈ l)
      (heq : (t == s) = true) : Matching t.toList s.toList :=
    (h.matches_of_beq (hl ht) (hl hs) heq).toList
  cases o with
  | topological =>
    have hr := eraseDups_flatMap_dropRepeats (f := fun s : TransitiveSet α => s.toList.reverse)
      (l := l.reverse) fun s hs t ht heq a ha => by
        rw [List.contains_reverse]
        exact (hmatches s (List.mem_reverse.mp hs) t (List.mem_reverse.mp ht) heq).contains a
          (List.mem_reverse.mp ha)
    rw [Order.keep, Order.keep, keepLast, keepLast, List.reverse_flatMap, List.reverse_flatMap,
      Order.dropRepeats, List.reverse_reverse]
    exact congrArg List.reverse hr
  | insertion | postorder | preorder =>
    exact eraseDups_flatMap_dropRepeats fun s hs t ht heq => (hmatches s hs t ht heq).contains

/-- A set that imports others is at hand afterwards. -/
theorem Sound.makes_ofImports (h : st.Sound) {l : List (TransitiveSet α)} (hl : l ⊆ st.sets)
    (ho : ∀ s ∈ l, s.order = o) :
    st.Makes (TransitiveSet.ofImports o l) fun s st' => s ∈ st'.sets ∧ s.Gathers o l := by
  have hcalls (s : TransitiveSet α) (hs : .addSet s ∈ l.map Draft.Call.addSet) : s ∈ st.sets := by
    obtain ⟨t, ht, heq⟩ := List.mem_map.mp hs
    cases heq
    exact hl ht
  have hparts : (l.map Draft.Call.addSet).flatMap (Draft.Call.parts TransitiveSet.toList o) =
      (l.map TransitiveSet.toList).map .imported := by
    rw [List.flatMap_map, List.map_map, List.map_eq_flatMap]
    exact List.flatMap_congr fun s hs => if_pos (ho s hs)
  refine ⟨_, _, ?_, .single (.ofCalls st o (l.map .addSet) hcalls), List.mem_cons_self,
    TransitiveSet.order_ofCalls o _ st.supply, ?_⟩
  · rw [TransitiveSet.run_ofImports ho]
    rfl
  · rw [h.toList_eq_gather o hcalls (Nat.le_refl _), hparts, Order.gather_imported,
      List.flatMap_def]

/-- A tree of sets of an order evaluates to a set that has been made of its leaves. -/
theorem Sound.makes_eval (h : st.Sound) (t : SetTree α) (hl : t.leaves ⊆ st.sets)
    (ho : ∀ s ∈ t.leaves, s.order = o) :
    st.Makes (t.eval o) fun s st' => s ∈ st'.sets ∧ s.Gathers o t.leaves := by
  induction t using SetTree.induction generalizing st with
  | leaf s =>
    rw [SetTree.leaves_leaf] at hl ho ⊢
    rw [SetTree.eval_leaf]
    have hs : s ∈ st.sets := hl List.mem_cons_self
    refine .pure ⟨hs, ho s List.mem_cons_self, ?_⟩
    rw [List.flatMap_singleton, o.keep_of_pairwise (h.pairwise_toList hs)]
  | node cs ih =>
    rw [SetTree.leaves_node] at hl ho ⊢
    rw [SetTree.eval_node]
    refine (h.makes_mapM_eval (fun c hc st hst => ih c hc hst) hl ho).bind ?_
    intro l st' hst' hh
    obtain ⟨s, st'', hrun, hst'', hs, hg⟩ :=
      (sound_of_steps hst' h).makes_ofImports hh.subset hh.order
    exact ⟨s, st'', hrun, hst'', hs, hh.gathers_leaves hg⟩

/-- **Imports may be nested in any way.** A tree of imports of sets at hand comes to a set with the
same list as the set that imports the leaves of the tree from left to right, and the list is settled
by those of the leaves. Of equal leaves one is enough: the last one in the topological order, and
the first one in the others. The three computations may start with different supplies. -/
theorem toList_eval {st : Stock α} (h : st.Reachable) {t : SetTree α} (hl : t.leaves ⊆ st.sets)
    (ho : ∀ s ∈ t.leaves, s.order = o) {s₁ s₂ s₃ : Supply} (h₁ : st.supply.next ≤ s₁.next)
    (h₂ : st.supply.next ≤ s₂.next) (h₃ : st.supply.next ≤ s₃.next) :
    let nested := ((t.eval o).run.run s₁).1
    let flat := ((TransitiveSet.ofImports o t.leaves).run.run s₂).1
    let reduced := ((TransitiveSet.ofImports o (o.dropRepeats t.leaves)).run.run s₃).1
    ∃ r f g, nested = .ok r ∧ flat = .ok f ∧ reduced = .ok g ∧
      r.order = o ∧ r.toList = f.toList ∧ g.toList = f.toList ∧
      f.toList = o.keep (t.leaves.flatMap TransitiveSet.toList) := by
  intro nested flat reduced
  have hpass (supply : Supply) (hle : st.supply.next ≤ supply.next) : Sound ⟨supply, st.sets⟩ :=
    h.sound.step (.pass st supply.next hle)
  have hsub : o.dropRepeats t.leaves ⊆ t.leaves := o.dropRepeats_subset t.leaves
  obtain ⟨r, _, hr, -, -, hgr⟩ := (hpass s₁ h₁).makes_eval t hl ho
  obtain ⟨f, _, hf, -, -, hgf⟩ := (hpass s₂ h₂).makes_ofImports hl ho
  obtain ⟨g, _, hg, -, -, hgg⟩ := (hpass s₃ h₃).makes_ofImports (List.Subset.trans hsub hl)
    fun s hs => ho s (hsub hs)
  refine ⟨r, f, g, congrArg Prod.fst hr, congrArg Prod.fst hf, congrArg Prod.fst hg, hgr.order,
    hgr.toList.trans hgf.toList.symm, ?_, hgf.toList⟩
  rw [hgg.toList, hgf.toList, h.sound.keep_dropRepeats o hl]

/-- In the middle there is a node without children, which leaves no trace. -/
theorem toList_eval_pair : ∃ r : TransitiveSet Nat,
    (((SetTree.node [.node [.leaf (Shared.setOf Shared.base), .leaf (Shared.setOf Shared.side)],
      .node [], .leaf (Shared.setOf Shared.base)]).eval .topological).run.run ⟨7⟩).1 = .ok r ∧
      r.toList = [3, 1, 2] := by
  let t : SetTree Nat := .node [.node [.leaf (Shared.setOf Shared.base),
    .leaf (Shared.setOf Shared.side)], .node [], .leaf (Shared.setOf Shared.base)]
  have hleaves : t.leaves = [Shared.setOf Shared.base, Shared.setOf Shared.side,
      Shared.setOf Shared.base] := by
    simp [t, SetTree.leaves]
  have hmem (s : TransitiveSet Nat) (hs : s ∈ t.leaves) :
      s = Shared.setOf Shared.base ∨ s = Shared.setOf Shared.side := by
    rw [hleaves] at hs
    simp only [List.mem_cons, List.not_mem_nil, or_false] at hs
    rcases hs with rfl | rfl | rfl
    · exact Or.inl rfl
    · exact Or.inr rfl
    · exact Or.inl rfl
  have horder (s : TransitiveSet Nat) (hs : s ∈ t.leaves) : s.order = .topological := by
    rcases hmem s hs with rfl | rfl <;> rfl
  have hle : Shared.pair.supply.next ≤ (⟨7⟩ : Supply).next := by decide
  obtain ⟨r, f, -, hr, -, -, -, hrf, -, hf⟩ := toList_eval Shared.reachable_pair
    (fun s hs => Shared.setOf_mem_pair (hmem s hs)) horder hle hle hle
  refine ⟨r, hr, ?_⟩
  have hlist {s : TransitiveSet Nat} (hs : s = Shared.setOf Shared.base ∨
      s = Shared.setOf Shared.side) : s.toList = s.linearise :=
    (Shared.reachable_pair.sound.coherent (Shared.setOf_mem_pair hs)).toList_eq
  rw [hrf, hf, hleaves]
  simp only [List.flatMap_cons, List.flatMap_nil, hlist (Or.inl rfl), hlist (Or.inr rfl)]
  rfl

end Stock

end PluginClosure
