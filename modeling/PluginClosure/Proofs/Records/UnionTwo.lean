import PluginClosure.Proofs.Records.Returns
import PluginClosure.Proofs.Records.UnionContents

/-!
# The union of two records

There are two ways to unite two records: the union of a list with both, and the union of two, which
gives back one of the records as it is if the other one is empty. The short cut saves a record, and
keeps the outputs and the mark of the record that it gives back. The processors are the same either
way. This relies on two facts. A record without processors has no processors for API, though the
short cut looks at the former only; and what is empty adds nothing to a union.

## Main definitions

* `PluginClosure.PluginProvider.Regular`: records that the short cut is meant for.
* `PluginClosure.PluginProvider.UnitesTwo`: what a union of two records comes to.
* `PluginClosure.PluginProvider.ShortCut`: how the short cut compares with the union of a list.

## Main results

* `PluginClosure.Inventory.Sound.outcome_unionTwo`: the outcome of a union of two.
* `PluginClosure.Inventory.unionTwo_agrees`: the short cut agrees with the union of a list.
-/

namespace PluginClosure

namespace PluginProvider

/-- The sets of the record are in the order of records. If it has no processors, none of them
generates API. -/
structure Regular (r : PluginProvider) : Prop where
  plugins : r.plugins.InOrder
  apiPlugins : r.apiPlugins.InOrder
  apiPlugins_isEmpty : r.plugins.isEmpty = true → r.apiPlugins.isEmpty = true

/-- The processors of `u` sum those of two records. If one of the two is empty, then `u` is the
other one, outputs and mark included. -/
structure UnitesTwo (u r s : PluginProvider) : Prop where
  plugins : u.plugins.Sums [r.plugins, s.plugins]
  apiPlugins : u.apiPlugins.Sums [r.apiPlugins, s.apiPlugins]
  left : r.isEmpty = true → u = s
  right : r.isEmpty = false → s.isEmpty = true → u = r
  both : r.isEmpty = false → s.isEmpty = false →
    u.outputs = [] ∧ u.builtin = (r.builtin && s.builtin)

/-- How the union `u` of two records compares with the union `v` of a list with both. -/
structure ShortCut (r s u v : PluginProvider) : Prop where
  plugins : (u.plugins == v.plugins) = true
  apiPlugins : (u.apiPlugins == v.apiPlugins) = true
  /-- Where there is no short cut, there is no difference. -/
  both : r.isEmpty = false → s.isEmpty = false → (u == v) = true ∧
    (u.outputs = [] ∧ v.outputs = []) ∧
      u.builtin = (r.builtin && s.builtin) ∧ v.builtin = (r.builtin && s.builtin)
  left : r.isEmpty = true → u.same s = true ∧ u.outputs = s.outputs ∧ u.builtin = s.builtin
  right : r.isEmpty = false → s.isEmpty = true →
    u.same r = true ∧ u.outputs = r.outputs ∧ u.builtin = r.builtin
  /-- There is no difference except in the outputs and in the mark. -/
  rest : u.outputs = v.outputs → u.builtin = v.builtin → (u == v) = true

theorem same_self (r : PluginProvider) : r.same r = true := decide_eq_true rfl

end PluginProvider

namespace Inventory

variable {i : Inventory}

/-- A record sums itself and one without elements. -/
theorem Sound.sums_cons_isEmpty (h : i.Sound) {p q : Processors} (hp : p ∈ i.processors)
    (hq : q ∈ i.processors) (he : p.isEmpty = true) : q.Sums [p, q] := by
  rw [h.eq_empty p hp he]
  exact (Processors.sums_append_empty (l := [])).mpr (h.sums_processors hq)

theorem Sound.sums_pair_isEmpty (h : i.Sound) {p q : Processors} (hp : p ∈ i.processors)
    (hq : q ∈ i.processors) (he : q.isEmpty = true) : p.Sums [p, q] := by
  rw [h.eq_empty q hq he]
  exact (Processors.sums_append_empty (l := [p])).mpr (h.sums_processors hp)

variable {r s : PluginProvider}

/-- The short cuts of a union of two lose no processors. -/
theorem Sound.outcome_unionTwo (h : i.Sound) (hr : r ∈ i.providers) (hs : s ∈ i.providers)
    (hre : r.plugins.isEmpty = true → r.apiPlugins.isEmpty = true)
    (hse : s.plugins.isEmpty = true → s.apiPlugins.isEmpty = true)
    (hf : PluginProvider.fault? [r, s] = none) {supply : Supply}
    (hle : i.supply.next ≤ supply.next) :
    ∃ u, outcome (PluginProvider.unionTwo r s) supply = .ok u ∧ u.UnitesTwo r s := by
  obtain ⟨hrp, hra⟩ := h.parts_mem r hr
  obtain ⟨hsp, hsa⟩ := h.parts_mem s hs
  rcases PluginProvider.unionTwo_spec r s with ⟨he, heq⟩ | ⟨hne, he, heq⟩ | ⟨hne, hne', heq⟩
  · refine ⟨s, by rw [heq]; rfl, ?_⟩
    exact
      { plugins := h.sums_cons_isEmpty hrp hsp he
        apiPlugins := h.sums_cons_isEmpty hra hsa (hre he)
        left := fun _ => rfl
        right := fun hn => absurd (hn.symm.trans he) Bool.false_ne_true
        both := fun hn => absurd (hn.symm.trans he) Bool.false_ne_true }
  · refine ⟨r, by rw [heq]; rfl, ?_⟩
    exact
      { plugins := h.sums_pair_isEmpty hrp hsp he
        apiPlugins := h.sums_pair_isEmpty hra hsa (hse he)
        left := fun hn => absurd (hne.symm.trans hn) Bool.false_ne_true
        right := fun _ _ => rfl
        both := fun _ hn => absurd (hn.symm.trans he) Bool.false_ne_true }
  · rw [heq]
    rcases h.outcome_union (pair_subset hr hs) (r.builtin && s.builtin) hle with
      ⟨e, he, -⟩ | ⟨-, u, hu, hsum⟩
    · exact absurd (he.symm.trans hf) (Option.some_ne_none e)
    · refine ⟨u, hu, ?_⟩
      exact
        { plugins := hsum.plugins
          apiPlugins := hsum.apiPlugins
          left := fun hn => absurd (hne.symm.trans hn) Bool.false_ne_true
          right := fun _ hn => absurd (hne'.symm.trans hn) Bool.false_ne_true
          both := fun _ _ => ⟨hsum.outputs, by rw [hsum.builtin]; simp⟩ }

/-- **The short cut agrees with the union of a list.** The two records are at hand and regular. Each
of the unions starts with any supply that issues numbers not yet in use. -/
theorem unionTwo_agrees (h : i.Reachable) (hr : r ∈ i.providers) (hs : s ∈ i.providers)
    (hrr : r.Regular) (hsr : s.Regular) {s₁ s₂ : Supply} (h₁ : i.supply.next ≤ s₁.next)
    (h₂ : i.supply.next ≤ s₂.next) :
    ∃ u v, outcome (PluginProvider.unionTwo r s) s₁ = .ok u ∧
      outcome (PluginProvider.union [r, s] true) s₂ = .ok v ∧ PluginProvider.ShortCut r s u v := by
  have hf : PluginProvider.fault? [r, s] = none :=
    PluginProvider.fault?_eq_none_of_inOrder (List.forall_mem_cons.mpr
      ⟨⟨hrr.plugins, hrr.apiPlugins⟩,
        List.forall_mem_singleton.mpr ⟨hsr.plugins, hsr.apiPlugins⟩⟩)
  have hfault := PluginProvider.fault?_eq_none.mp hf
  obtain ⟨u, hu, hsum⟩ := h.sound.outcome_unionTwo hr hs hrr.apiPlugins_isEmpty
    hsr.apiPlugins_isEmpty hf h₁
  rcases h.sound.outcome_union (pair_subset hr hs) true h₂ with ⟨e, he, -⟩ | ⟨-, v, hv, hunites⟩
  · exact absurd (he.symm.trans hf) (Option.some_ne_none e)
  have hplugins : u.plugins.Alike v.plugins :=
    hsum.plugins.alike hunites.plugins (List.forall_mem_map.mpr fun t ht => (hfault t ht).1)
  have hapi : u.apiPlugins.Alike v.apiPlugins :=
    hsum.apiPlugins.alike hunites.apiPlugins (List.forall_mem_map.mpr fun t ht => (hfault t ht).2)
  have hbuiltin : v.builtin = (r.builtin && s.builtin) := by
    rw [hunites.builtin]
    simp
  have hrest (ho : u.outputs = v.outputs) (hb : u.builtin = v.builtin) : (u == v) = true :=
    PluginProvider.beq_iff.mpr (Or.inr ⟨hb, ho, hplugins.beq, hapi.beq⟩)
  refine ⟨u, v, hu, hv, hplugins.beq, hapi.beq, ?_, ?_, ?_, hrest⟩
  · intro hne hne'
    obtain ⟨ho, hb⟩ := hsum.both hne hne'
    exact ⟨hrest (ho.trans hunites.outputs.symm) (hb.trans hbuiltin.symm),
      ⟨ho, hunites.outputs⟩, hb, hbuiltin⟩
  · intro he
    rw [hsum.left he]
    exact ⟨s.same_self, rfl, rfl⟩
  · intro hne he
    rw [hsum.right hne he]
    exact ⟨r.same_self, rfl, rfl⟩

/-- The short cut keeps a mark that the union of a list loses, since one of its records has none. -/
theorem unionTwo_agrees_sample : ∃ u v,
    outcome (PluginProvider.unionTwo (.empty false) Sample.provider) ⟨3⟩ = .ok u ∧
      outcome (PluginProvider.union [.empty false, Sample.provider] true) ⟨5⟩ = .ok v ∧
        u.same Sample.provider = true ∧ (u.plugins == v.plugins) = true ∧
          u.builtin = true ∧ v.builtin = false := by
  have hempty : (PluginProvider.empty false).Regular := ⟨⟨rfl, rfl, rfl⟩, ⟨rfl, rfl, rfl⟩, id⟩
  have hprovider : Sample.provider.Regular := ⟨⟨rfl, rfl, rfl⟩, ⟨rfl, rfl, rfl⟩, id⟩
  have h₁ : Sample.inventory.supply.next ≤ (⟨3⟩ : Supply).next := Nat.le_refl 3
  have h₂ : Sample.inventory.supply.next ≤ (⟨5⟩ : Supply).next := by decide
  obtain ⟨u, v, hu, hv, h⟩ := unionTwo_agrees Sample.reachable_inventory
    (Sample.reachable_inventory.sound.empty_mem_providers false) List.mem_cons_self hempty hprovider
    h₁ h₂
  obtain ⟨hsame, -, hb⟩ := h.left rfl
  refine ⟨u, v, hu, hv, hsame, h.plugins, hb, ?_⟩
  cases hv
  rfl

end Inventory

end PluginClosure
