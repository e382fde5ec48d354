import PluginClosure.Proofs.Records.Inventory

/-!
# Equal contents

Two sets, or two records, may be different objects and nevertheless have the same contents. This is
what `==` is to find out. It takes a short cut where it meets one and the same object twice, and in
an inventory to which a history leads the short cut is justified.

## Main definitions

* `PluginClosure.TransitiveSet.Alike`, `PluginClosure.Processors.Alike`,
  `PluginClosure.PluginProvider.Alike`: equality of contents.

## Main results

* `PluginClosure.PluginProvider.Alike.beq`: `==` finds equal contents.
* `PluginClosure.Inventory.Sound.alike_of_beq`: for records at hand it finds nothing else.
-/

namespace PluginClosure

variable {α : Type}

namespace TransitiveSet

theorem same_self (s : TransitiveSet α) : s.same s = true := by
  obtain ⟨o, _ | n⟩ := s <;> exact decide_eq_true rfl

variable [BEq α] [Hashable α]

/-- The sets list the same elements in the same order. Either both or none of them has a root. -/
structure Alike (s t : TransitiveSet α) : Prop where
  order : s.order = t.order
  toList : s.toList = t.toList
  isEmpty : s.isEmpty = true ↔ t.isEmpty = true

variable {s t : TransitiveSet α}

theorem Alike.refl (s : TransitiveSet α) : s.Alike s := ⟨rfl, rfl, Iff.rfl⟩

theorem beq_iff [LawfulBEq α] :
    (s == t) = true ↔ s.order = t.order ∧ (s.same t = true ∨ s.toList = t.toList) := by
  show (decide (s.order = t.order) && (s.same t || s.toList == t.toList)) = true ↔ _
  rw [Bool.and_eq_true, Bool.or_eq_true, decide_eq_true_iff, beq_iff_eq]

theorem Alike.beq [LawfulBEq α] (h : s.Alike t) : (s == t) = true :=
  beq_iff.mpr ⟨h.order, Or.inr h.toList⟩

end TransitiveSet

/-- Sets at hand that are one and the same object list the same elements. -/
theorem Stock.Sound.alike_of_beq [BEq α] [Hashable α] [LawfulBEq α] {st : Stock α} (h : st.Sound)
    {s t : TransitiveSet α} (hs : s ∈ st.sets) (ht : t ∈ st.sets) (heq : (s == t) = true) :
    s.Alike t := by
  obtain ⟨ho, hsame | hl⟩ := TransitiveSet.beq_iff.mp heq
  · rw [h.eq_of_same hs ht ho hsame]
    exact TransitiveSet.Alike.refl t
  · exact ⟨ho, hl, by rw [h.isEmpty_iff hs, h.isEmpty_iff ht, hl]⟩

namespace Processors

/-- The records hold the same elements, set by set. -/
structure Alike (p q : Processors) : Prop where
  classes : p.classes.Alike q.classes
  classpath : p.classpath.Alike q.classpath
  data : p.data.Alike q.data

variable {p q : Processors}

theorem beq_iff : (p == q) = true ↔ p.id = q.id ∨ (p.classes == q.classes) = true ∧
    (p.classpath == q.classpath) = true ∧ (p.data == q.data) = true := by
  show (decide (p.id = q.id) ||
    (p.classes == q.classes && p.classpath == q.classpath && p.data == q.data)) = true ↔ _
  rw [Bool.or_eq_true, decide_eq_true_iff, Bool.and_eq_true, Bool.and_eq_true, and_assoc]

theorem Alike.refl (p : Processors) : p.Alike p :=
  ⟨TransitiveSet.Alike.refl _, TransitiveSet.Alike.refl _, TransitiveSet.Alike.refl _⟩

theorem Alike.beq (h : p.Alike q) : (p == q) = true :=
  beq_iff.mpr (Or.inr ⟨h.classes.beq, h.classpath.beq, h.data.beq⟩)

end Processors

namespace PluginProvider

/-- The records have the same outputs, the same processors and the same mark. -/
structure Alike (r s : PluginProvider) : Prop where
  outputs : r.outputs = s.outputs
  plugins : r.plugins.Alike s.plugins
  apiPlugins : r.apiPlugins.Alike s.apiPlugins
  builtin : r.builtin = s.builtin

variable {r s : PluginProvider}

theorem beq_iff : (r == s) = true ↔ r.id = s.id ∨ r.builtin = s.builtin ∧
    r.outputs = s.outputs ∧ (r.plugins == s.plugins) = true ∧
    (r.apiPlugins == s.apiPlugins) = true := by
  show (decide (r.id = s.id) || (r.builtin == s.builtin && r.outputs == s.outputs &&
    r.plugins == s.plugins && r.apiPlugins == s.apiPlugins)) = true ↔ _
  rw [Bool.or_eq_true, decide_eq_true_iff, Bool.and_eq_true, Bool.and_eq_true, Bool.and_eq_true,
    beq_iff_eq, beq_iff_eq, and_assoc, and_assoc]

theorem Alike.refl (r : PluginProvider) : r.Alike r :=
  ⟨rfl, Processors.Alike.refl _, Processors.Alike.refl _, rfl⟩

theorem Alike.beq (h : r.Alike s) : (r == s) = true :=
  beq_iff.mpr (Or.inr ⟨h.builtin, h.outputs, h.plugins.beq, h.apiPlugins.beq⟩)

end PluginProvider

namespace Inventory

variable {i : Inventory}

theorem Sound.processors_alike_of_beq (h : i.Sound) {p q : Processors} (hp : p ∈ i.processors)
    (hq : q ∈ i.processors) (heq : (p == q) = true) : p.Alike q := by
  rcases Processors.beq_iff.mp heq with hid | ⟨hc, hcp, hd⟩
  · cases h.processors.eq_of_id p hp q hq hid
    exact Processors.Alike.refl p
  · obtain ⟨hpc, hpcp, hpd⟩ := h.sets_mem p hp
    obtain ⟨hqc, hqcp, hqd⟩ := h.sets_mem q hq
    exact ⟨h.strings.alike_of_beq hpc hqc hc, h.files.alike_of_beq hpcp hqcp hcp,
      h.files.alike_of_beq hpd hqd hd⟩

/-- Records at hand are equal only if their contents are. -/
theorem Sound.alike_of_beq (h : i.Sound) {r s : PluginProvider} (hr : r ∈ i.providers)
    (hs : s ∈ i.providers) (heq : (r == s) = true) : r.Alike s := by
  rcases PluginProvider.beq_iff.mp heq with hid | ⟨hb, ho, hp, ha⟩
  · cases h.providers.eq_of_id r hr s hs hid
    exact PluginProvider.Alike.refl r
  · obtain ⟨hrp, hra⟩ := h.parts_mem r hr
    obtain ⟨hsp, hsa⟩ := h.parts_mem s hs
    exact ⟨ho, h.processors_alike_of_beq hrp hsp hp, h.processors_alike_of_beq hra hsa ha, hb⟩

end Inventory

end PluginClosure
