import PluginClosure.Proofs.Records.Union

/-!
# What a union holds

A union of records whose sets are all in the order of records is never refused. Set by set it lists
the elements of the records one after the other, each element where it occurs first. It has no
outputs, and bears the mark if all records do, those without processors included.

Whether there are processors at all can be told by identity. A part of the union is the empty record
of processors if that part is empty in all records, and the union is a canonical empty record if
both parts are empty in all records.

## Main definitions

* `PluginClosure.Processors.InOrder`: all sets are in the order of records.
* `PluginClosure.Processors.Gathers`: the sets list those of other records one after the other.

## Main results

* `PluginClosure.Inventory.Sound.same_empty_iff`,
  `PluginClosure.Inventory.Sound.same_empty_iff_eq`: the empty records at hand, by identity.
* `PluginClosure.Inventory.union_contents`: the contents of a union.
-/

namespace PluginClosure

namespace Processors

/-- All sets of the record are in the order of records. -/
@[mk_iff]
structure InOrder (p : Processors) : Prop where
  classes : p.classes.order = order
  classpath : p.classpath.order = order
  data : p.data.order = order

theorem fault?_eq_none_iff_inOrder {p : Processors} : p.fault? = none ↔ p.InOrder := by
  rw [fault?_eq_none, inOrder_iff]

/-- Each set of the record lists the elements of the corresponding sets of a list of records, one
record after the other, and each element only where it occurs first. -/
structure Gathers (p : Processors) (l : List Processors) : Prop where
  classes : p.classes.toList = (l.flatMap fun q => q.classes.toList).eraseDups
  classpath : p.classpath.toList = (l.flatMap fun q => q.classpath.toList).eraseDups
  data : p.data.toList = (l.flatMap fun q => q.data.toList).eraseDups

theorem Sums.gathers {p : Processors} {l : List Processors} (h : p.Sums l) : p.Gathers l where
  classes := by rw [h.classes.toList, List.flatMap_map]
  classpath := by rw [h.classpath.toList, List.flatMap_map]
  data := by rw [h.data.toList, List.flatMap_map]

end Processors

theorem PluginProvider.fault?_eq_none_of_inOrder {l : List PluginProvider}
    (h : ∀ s ∈ l, s.plugins.InOrder ∧ s.apiPlugins.InOrder) : fault? l = none :=
  fault?_eq_none.mpr fun s hs => (h s hs).imp Processors.fault?_eq_none_iff_inOrder.mpr
    Processors.fault?_eq_none_iff_inOrder.mpr

namespace Inventory

variable {i : Inventory}

/-- Among the records at hand, those without elements are one and the same object. -/
theorem Sound.same_empty_iff (h : i.Sound) {p : Processors} (hp : p ∈ i.processors) :
    p.same .empty = true ↔ p.isEmpty = true := by
  rw [Processors.same, decide_eq_true_iff]
  constructor
  · intro hid
    rw [h.processors.eq_canon p hp () hid]
    rfl
  · intro he
    rw [h.eq_empty p hp he]

theorem Sound.same_empty_iff_eq (h : i.Sound) {r : PluginProvider} (hr : r ∈ i.providers)
    (b : Bool) : r.same (.empty b) = true ↔ r = .empty b := by
  rw [PluginProvider.same, decide_eq_true_iff]
  constructor
  · exact h.providers.eq_canon r hr b
  · intro heq
    rw [heq]

/-- A record that unites others is the canonical one exactly if there is nothing to unite. -/
theorem Sound.same_empty_of_unites (h : i.Sound) {r : PluginProvider} (hr : r ∈ i.providers)
    {l : List PluginProvider} {b : Bool} (hu : r.Unites l b) :
    r.same (.empty r.builtin) = true ↔
      ∀ s ∈ l, s.plugins.isEmpty = true ∧ s.apiPlugins.isEmpty = true := by
  rw [h.same_empty_iff_eq hr, ← hu.isEmpty_iff]
  constructor
  · intro heq
    rw [heq]
    exact ⟨rfl, rfl⟩
  · exact fun he => hu.eq_empty (hu.isEmpty_iff.mp he)

/-- **The contents of a union.** The records of the list are at hand, and their sets are in the
order of records. The union starts with any supply that issues numbers not yet in use. -/
theorem union_contents (h : i.Reachable) {l : List PluginProvider} (hl : l ⊆ i.providers)
    (ho : ∀ s ∈ l, s.plugins.InOrder ∧ s.apiPlugins.InOrder) (b : Bool) {supply : Supply}
    (hs : i.supply.next ≤ supply.next) :
    ∃ r, outcome (PluginProvider.union l b) supply = .ok r ∧ r.outputs = [] ∧
      r.builtin = (b && l.all PluginProvider.builtin) ∧
      r.plugins.Gathers (l.map PluginProvider.plugins) ∧
      r.apiPlugins.Gathers (l.map PluginProvider.apiPlugins) ∧
      (r.same (.empty r.builtin) = true ↔
        ∀ s ∈ l, s.plugins.isEmpty = true ∧ s.apiPlugins.isEmpty = true) ∧
      (r.plugins.same .empty = true ↔ ∀ s ∈ l, s.plugins.isEmpty = true) ∧
      (r.apiPlugins.same .empty = true ↔ ∀ s ∈ l, s.apiPlugins.isEmpty = true) := by
  have hfault := PluginProvider.fault?_eq_none_of_inOrder ho
  have hpass : i.Leads { i with supply := supply } := leads_pass hs
  rcases ((hpass.sound h.sound).yields_union_providers hl b).outcome with
    ⟨e, he, -⟩ | ⟨-, r, j, hrun, hj, hr, hu⟩
  · exact absurd (he.symm.trans hfault) (Option.some_ne_none e)
  · have hsound := hj.sound (hpass.sound h.sound)
    obtain ⟨hp, ha⟩ := hsound.parts_mem r hr
    refine ⟨r, hrun, hu.outputs, hu.builtin, hu.plugins.gathers, hu.apiPlugins.gathers,
      hsound.same_empty_of_unites hr hu, ?_, ?_⟩
    · rw [hsound.same_empty_iff hp, hu.plugins.isEmpty_iff, List.forall_mem_map]
    · rw [hsound.same_empty_iff ha, hu.apiPlugins.isEmpty_iff, List.forall_mem_map]

/-- The second record has no processors, but it decides about the mark. -/
theorem union_contents_sample : ∃ r,
    outcome (PluginProvider.union [Sample.provider, .empty false, Sample.provider] true) ⟨3⟩ =
      .ok r ∧ r.builtin = false ∧ r.plugins.classes.toList = ["Generator"] ∧
      r.same (.empty false) = false ∧ r.plugins.same .empty = false := by
  have hinorder : ∀ s ∈ [Sample.provider, .empty false, Sample.provider],
      s.plugins.InOrder ∧ s.apiPlugins.InOrder := by
    simp [Sample.provider, Sample.processors, Sample.classes, PluginProvider.empty,
      Processors.inOrder_iff, Processors.empty, TransitiveSet.empty, Processors.order]
  have hmem : [Sample.provider, .empty false, Sample.provider] ⊆ Sample.inventory.providers := by
    simp [Sample.inventory, initial]
  have hle : Sample.inventory.supply.next ≤ (⟨3⟩ : Supply).next := Nat.le_refl 3
  obtain ⟨r, hrun, -, hb, hp, -, hr, hpe, -⟩ :=
    union_contents Sample.reachable_inventory hmem hinorder true hle
  have hbuiltin : r.builtin = false := hb
  have hlist : Sample.classes.toList = ["Generator"] :=
    (Sample.reachable_inventory.sound.strings.coherent (s := Sample.classes)
      List.mem_cons_self).toList_eq
  have hnotEmpty : ¬ Sample.provider.plugins.isEmpty = true := Bool.false_ne_true
  refine ⟨r, hrun, hbuiltin, ?_, ?_, ?_⟩
  · rw [hp.classes]
    simp only [List.map_cons, List.map_nil, List.flatMap_cons, List.flatMap_nil, Sample.provider,
      Sample.processors, hlist]
    rfl
  · rw [hbuiltin] at hr
    exact Bool.eq_false_iff.mpr fun he => hnotEmpty (hr.mp he _ List.mem_cons_self).1
  · exact Bool.eq_false_iff.mpr fun he => hnotEmpty (hpe.mp he _ List.mem_cons_self)

end Inventory

end PluginClosure
