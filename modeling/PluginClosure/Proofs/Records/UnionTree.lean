import PluginClosure.Proofs.Records.Union

/-!
# Trees of unions

Records are united along the dependency graph, and the results of unions are united again. Such a
tree of unions has the same contents as one union of all its leaves, with a mark if every union of
the tree was given one. In between, results without processors are left out and single imports are
passed on, so that the two results differ in the structure behind their sets.

The proof follows the tree. The results of the children sum the leaves below them, and so the union
of the results sums all leaves.

## Main definitions

* `PluginClosure.UnionTree`, with `UnionTree.eval`, `UnionTree.leaves` and `UnionTree.builtin`.

## Main results

* `PluginClosure.Inventory.Sound.yields_eval`: what a tree comes to, by induction.
* `PluginClosure.Inventory.nested_union`: trees of unions and flat unions.
-/

namespace PluginClosure

/-- A tree of unions. Its leaves are records, and each of its nodes stands for a union. -/
inductive UnionTree where
  | leaf (r : PluginProvider)
  | node (children : List UnionTree) (builtin : Bool)

namespace UnionTree

theorem sizeOf_lt_of_mem {c : UnionTree} {cs : List UnionTree} {b : Bool} (h : c ∈ cs) :
    sizeOf c < sizeOf (node cs b) := by
  have := List.sizeOf_lt_of_mem h
  simp only [node.sizeOf_spec]
  omega

/-- Induction on the tree: a property passes from the children of a node to the node. -/
theorem induction {p : UnionTree → Prop} (leaf : ∀ r, p (leaf r))
    (node : ∀ cs b, (∀ c ∈ cs, p c) → p (node cs b)) : ∀ t, p t
  | .leaf r => leaf r
  | .node cs b => node cs b fun c _ => induction leaf node c
termination_by t => sizeOf t
decreasing_by exact sizeOf_lt_of_mem ‹_›

/-- Makes the unions, from the leaves to the root and from left to right. -/
def eval : UnionTree → ExceptT OrderMismatch Fresh PluginProvider
  | leaf r => return r
  | node cs b => do PluginProvider.union (← cs.mapM eval) b
termination_by t => sizeOf t
decreasing_by exact sizeOf_lt_of_mem ‹_›

/-- The leaves, from left to right. -/
def leaves : UnionTree → List PluginProvider
  | leaf r => [r]
  | node cs _ => cs.flatMap leaves
termination_by t => sizeOf t
decreasing_by exact sizeOf_lt_of_mem ‹_›

/-- Whether every union was given the mark. -/
def builtin : UnionTree → Bool
  | leaf _ => true
  | node cs b => b && (cs.map builtin).all id
termination_by t => sizeOf t
decreasing_by exact sizeOf_lt_of_mem ‹_›

theorem eval_leaf (r : PluginProvider) : (leaf r).eval = pure r := by rw [eval]

theorem eval_node (cs : List UnionTree) (b : Bool) :
    (node cs b).eval = (do PluginProvider.union (← cs.mapM eval) b) := by rw [eval]

theorem leaves_leaf (r : PluginProvider) : (leaf r).leaves = [r] := by rw [leaves]

theorem leaves_node (cs : List UnionTree) (b : Bool) :
    (node cs b).leaves = cs.flatMap leaves := by rw [leaves]

theorem builtin_leaf (r : PluginProvider) : (leaf r).builtin = true := by rw [builtin]

theorem builtin_node (cs : List UnionTree) (b : Bool) :
    (node cs b).builtin = (b && cs.all builtin) := by
  rw [builtin, List.all_map]
  rfl

end UnionTree

namespace Inventory

variable {i : Inventory}

/-- The results of the children of a node are at hand, and each sums the leaves of its child. -/
structure Holds (j : Inventory) (rs : List PluginProvider) (cs : List UnionTree) : Prop where
  subset : rs ⊆ j.providers
  sums : List.Forall₂ (fun r c => r.Sums c.leaves c.builtin) rs cs

/-- The children of a node are evaluated one after the other. -/
theorem Sound.yields_mapM_eval (hi : i.Sound) {cs : List UnionTree}
    (ih : ∀ c ∈ cs, ∀ j : Inventory, j.Sound → c.leaves ⊆ j.providers →
      j.Yields c.eval.run (Given (PluginProvider.fault? c.leaves = none) fun r j =>
        r ∈ j.providers ∧ r.Sums c.leaves c.builtin))
    (hl : cs.flatMap UnionTree.leaves ⊆ i.providers) :
    i.Yields (cs.mapM UnionTree.eval).run
      (Given (PluginProvider.fault? (cs.flatMap UnionTree.leaves) = none) fun rs j =>
        j.Holds rs cs) := by
  induction cs generalizing i with
  | nil => exact .pure ⟨List.nil_subset _, .nil⟩
  | cons c cs ihcs =>
    rw [List.mapM_cons, List.flatMap_cons]
    rw [List.flatMap_cons, List.append_subset] at hl
    obtain ⟨ihc, ih⟩ := List.forall_mem_cons.mp ih
    have hc := ihc i hi hl.1
    refine (hc.given_imp fun h => (PluginProvider.fault?_append_eq_none.mp h).1).bind_given ?_
    rintro r j hj ⟨hr, hs⟩
    have hcs := ihcs (hj.sound hi) ih (List.Subset.trans hl.2 hj.within.providers)
    refine (hcs.given_imp fun h => (PluginProvider.fault?_append_eq_none.mp h).2).bind_given ?_
    intro rs k hk hrs
    exact .pure ⟨List.cons_subset.mpr ⟨hk.within.providers hr, hrs.subset⟩, .cons hs hrs.sums⟩

/-- What passes between sums and what they sum passes between the results and the leaves. -/
theorem Holds.forall_iff {j : Inventory} {rs : List PluginProvider} {cs : List UnionTree}
    (h : j.Holds rs cs) {P : PluginProvider → Prop}
    (hP : ∀ r l b, r.Sums l b → (P r ↔ ∀ s ∈ l, P s)) :
    (∀ r ∈ rs, P r) ↔ ∀ s ∈ cs.flatMap UnionTree.leaves, P s := by
  obtain ⟨-, h⟩ := h
  induction h with
  | nil => rfl
  | cons hr _ ih =>
    rw [List.forall_mem_cons, List.flatMap_cons, List.forall_mem_append, ih, hP _ _ _ hr]

theorem Holds.sums_flatMap {j : Inventory} {rs : List PluginProvider} {cs : List UnionTree}
    {r : PluginProvider} {b : Bool} (h : j.Holds rs cs) (hr : r.Sums rs b) :
    r.Sums (cs.flatMap UnionTree.leaves) (b && cs.all UnionTree.builtin) := by
  have hsums := PluginProvider.Sums.flatten (L := cs.map fun c => (c.leaves, c.builtin))
    (List.forall₂_map_right_iff.mpr h.sums) hr
  rw [List.map_map, List.all_map] at hsums
  exact hsums

/-- A node evaluates to what unites the leaves below it, provided that they have no fault. -/
theorem Sound.yields_eval_node (hi : i.Sound) {cs : List UnionTree} {b : Bool}
    (ih : ∀ c ∈ cs, ∀ j : Inventory, j.Sound → c.leaves ⊆ j.providers →
      j.Yields c.eval.run (Given (PluginProvider.fault? c.leaves = none) fun r j =>
        r ∈ j.providers ∧ r.Sums c.leaves c.builtin))
    (hl : (UnionTree.node cs b).leaves ⊆ i.providers) :
    i.Yields (UnionTree.node cs b).eval.run
      (Given (PluginProvider.fault? (UnionTree.node cs b).leaves = none) fun r j =>
        PluginProvider.fault? (UnionTree.node cs b).leaves = none ∧ r ∈ j.providers ∧
          r.Unites (UnionTree.node cs b).leaves (UnionTree.node cs b).builtin) := by
  rw [UnionTree.leaves_node] at hl ⊢
  rw [UnionTree.eval_node, UnionTree.builtin_node]
  refine (hi.yields_mapM_eval ih hl).bind_given fun rs j hj hrs => ?_
  have hfault : PluginProvider.fault? rs = none ↔
      PluginProvider.fault? (cs.flatMap UnionTree.leaves) = none := by
    rw [PluginProvider.fault?_eq_none, PluginProvider.fault?_eq_none]
    exact hrs.forall_iff fun r l b hs => hs.fault?_eq_none
  have hempty := hrs.forall_iff fun r l b hs => hs.isEmpty_iff
  refine ((hj.sound hi).yields_union_providers hrs.subset b).imp fun res k _ hres => ?_
  refine (hres.given hfault.mpr).imp id fun r ⟨hn, hr, hu⟩ => ?_
  exact ⟨hfault.mp hn, hr, hrs.sums_flatMap hu.toSums, hu.outputs,
    fun he => hu.eq_empty (hempty.mpr he)⟩

/-- Every tree evaluates to a sum of its leaves, provided that they have no fault. -/
theorem Sound.yields_eval (hi : i.Sound) (t : UnionTree) (hl : t.leaves ⊆ i.providers) :
    i.Yields t.eval.run (Given (PluginProvider.fault? t.leaves = none) fun r j =>
      r ∈ j.providers ∧ r.Sums t.leaves t.builtin) := by
  induction t using UnionTree.induction generalizing i with
  | leaf r =>
    rw [UnionTree.eval_leaf, UnionTree.leaves_leaf, UnionTree.builtin_leaf]
    rw [UnionTree.leaves_leaf] at hl
    have hr := hl (List.mem_singleton_self r)
    exact .pure ⟨hr, hi.sums_singleton hr⟩
  | node cs b ih =>
    refine (hi.yields_eval_node (fun c hc j hj hcj => ih c hc hj hcj) hl).imp fun res j _ hres => ?_
    exact hres.imp id fun r hr => ⟨hr.2.1, hr.2.2.toSums⟩

/-- The outcome of a node, whatever else has been created in between. -/
theorem Sound.outcome_eval (hi : i.Sound) {cs : List UnionTree} {b : Bool}
    (hl : (UnionTree.node cs b).leaves ⊆ i.providers) {supply : Supply}
    (hs : i.supply.next ≤ supply.next) :
    (PluginProvider.fault? (UnionTree.node cs b).leaves ≠ none ∧
      ∃ e, outcome (UnionTree.node cs b).eval supply = .error e) ∨
    (PluginProvider.fault? (UnionTree.node cs b).leaves = none ∧
      ∃ r, outcome (UnionTree.node cs b).eval supply = .ok r ∧
        r.Unites (UnionTree.node cs b).leaves (UnionTree.node cs b).builtin) := by
  have hpass : i.Leads { i with supply := supply } := leads_pass hs
  obtain ⟨res, j, hrun, -, hres⟩ :=
    (hpass.sound hi).yields_eval_node (fun c _ j hj hcj => hj.yields_eval c hcj) hl
  have hout : outcome (UnionTree.node cs b).eval supply = res := congrArg Prod.fst hrun
  rw [hout]
  cases res with
  | error e => exact Or.inl ⟨hres, e, rfl⟩
  | ok r => exact Or.inr ⟨hres.1, r, rfl, hres.2.2⟩

/-- A tree of unions and one union of the leaves both fail, or both unite the leaves. -/
theorem Sound.nested_flat (hi : i.Sound) {cs : List UnionTree} {b : Bool}
    (hl : (UnionTree.node cs b).leaves ⊆ i.providers) {s₁ s₂ : Supply}
    (h₁ : i.supply.next ≤ s₁.next) (h₂ : i.supply.next ≤ s₂.next) :
    let t := UnionTree.node cs b
    let nested := outcome t.eval s₁
    let flat := outcome (PluginProvider.union t.leaves t.builtin) s₂
    (∃ e e', nested = .error e ∧ flat = .error e') ∨
    (PluginProvider.fault? t.leaves = none ∧ ∃ r f, nested = .ok r ∧ flat = .ok f ∧
      r.Unites t.leaves t.builtin ∧ f.Unites t.leaves t.builtin) := by
  intro t nested flat
  rcases hi.outcome_union hl t.builtin h₂ with ⟨e, hf, hflat⟩ | ⟨hf, f, hflat, hfu⟩
  · obtain ⟨-, e', hnested⟩ := (hi.outcome_eval hl h₁).resolve_right fun hn => by
      exact Option.some_ne_none e (hf.symm.trans hn.1)
    exact Or.inl ⟨e', e, hnested, hflat⟩
  · obtain ⟨-, r, hnested, hru⟩ := (hi.outcome_eval hl h₁).resolve_left fun hn => hn.1 hf
    exact Or.inr ⟨hf, r, f, hnested, hflat, hru, hfu⟩

/-- **Unions may be nested in any way.** A tree of unions of records at hand comes to the same as
one union of its leaves: either both fail, or the results are equal and have no outputs. Both are
the canonical empty record if no leaf has processors. Leaves that equal earlier ones may be left out
of the union. The three computations may start with different supplies. -/
theorem nested_union (h : i.Reachable) {cs : List UnionTree} {b : Bool}
    (hl : (UnionTree.node cs b).leaves ⊆ i.providers) {s₁ s₂ s₃ : Supply}
    (h₁ : i.supply.next ≤ s₁.next) (h₂ : i.supply.next ≤ s₂.next)
    (h₃ : i.supply.next ≤ s₃.next) :
    let t := UnionTree.node cs b
    let nested := outcome t.eval s₁
    let flat := outcome (PluginProvider.union t.leaves t.builtin) s₂
    let reduced := outcome (PluginProvider.union (dropRepeats [] t.leaves) t.builtin) s₃
    ((∃ r, nested = .ok r) ↔ ∃ f, flat = .ok f) ∧
      (∀ r f, nested = .ok r → flat = .ok f → (r == f) = true ∧ r.Alike f ∧ r.outputs = [] ∧
        ((∀ s ∈ t.leaves, s.plugins.isEmpty = true ∧ s.apiPlugins.isEmpty = true) →
          r = .empty r.builtin ∧ f = .empty r.builtin)) ∧
      (∀ e, reduced = .error e ↔ flat = .error e) ∧
      ∀ f g, reduced = .ok f → flat = .ok g → (f == g) = true ∧ f.Alike g := by
  intro t nested flat reduced
  obtain ⟨herror, hok⟩ := h.sound.union_dropRepeats hl t.builtin h₃ h₂
  have hreduced (f g : PluginProvider) (hf : reduced = .ok f) (hg : flat = .ok g) :
      (f == g) = true ∧ f.Alike g := ⟨(hok f g hf hg).beq, hok f g hf hg⟩
  rcases h.sound.nested_flat hl h₁ h₂ with
    ⟨e, e', hnested, hflat⟩ | ⟨hfault, r, f, hnested, hflat, hr, hf⟩
  · have hne (r : PluginProvider) (hr : nested = .ok r) : False := by
      cases hnested.symm.trans hr
    have hne' (f : PluginProvider) (hf : flat = .ok f) : False := by
      cases hflat.symm.trans hf
    exact ⟨⟨fun ⟨r, hr⟩ => (hne r hr).elim, fun ⟨f, hf⟩ => (hne' f hf).elim⟩,
      fun r _ hr _ => (hne r hr).elim, herror, hreduced⟩
  · refine ⟨⟨fun _ => ⟨f, hflat⟩, fun _ => ⟨r, hnested⟩⟩, ?_, herror, hreduced⟩
    intro r' f' hr' hf'
    cases hnested.symm.trans hr'
    cases hflat.symm.trans hf'
    have halike := hr.alike hf hfault
    exact ⟨halike.beq, halike, hr.outputs, fun he =>
      ⟨hr.eq_empty he, halike.builtin ▸ hf.eq_empty he⟩⟩

/-- The leaves of the tree are one record twice and the empty record. -/
theorem nested_union_sample : ∃ r f,
    outcome (UnionTree.node [.leaf Sample.provider,
      .node [.leaf (.empty true), .leaf Sample.provider] true] true).eval ⟨3⟩ = .ok r ∧
    outcome (PluginProvider.union [Sample.provider, .empty true, Sample.provider] true) ⟨5⟩ =
      .ok f ∧ (r == f) = true := by
  let cs : List UnionTree :=
    [.leaf Sample.provider, .node [.leaf (.empty true), .leaf Sample.provider] true]
  have hleaves : (UnionTree.node cs true).leaves =
      [Sample.provider, .empty true, Sample.provider] := by
    simp [cs, UnionTree.leaves]
  have hbuiltin : (UnionTree.node cs true).builtin = true := by
    simp [cs, UnionTree.builtin]
  have hmem : (UnionTree.node cs true).leaves ⊆ Sample.inventory.providers := by
    rw [hleaves]
    simp [Sample.inventory, initial]
  have h₁ : Sample.inventory.supply.next ≤ (⟨3⟩ : Supply).next := Nat.le_refl 3
  have h₂ : Sample.inventory.supply.next ≤ (⟨5⟩ : Supply).next := by decide
  obtain ⟨hiff, hok, -, -⟩ := nested_union Sample.reachable_inventory hmem h₁ h₂ h₁
  rw [hleaves, hbuiltin] at hiff hok
  obtain ⟨f, hf⟩ : ∃ f, outcome (PluginProvider.union
      [Sample.provider, .empty true, Sample.provider] true) ⟨5⟩ = .ok f := ⟨_, rfl⟩
  obtain ⟨r, hr⟩ := hiff.mpr ⟨f, hf⟩
  exact ⟨r, f, hr, hf, (hok r f hr hf).1⟩

end Inventory

end PluginClosure
