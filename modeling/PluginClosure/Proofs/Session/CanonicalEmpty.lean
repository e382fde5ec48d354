import Mathlib.Tactic.TFAE
import PluginClosure.Proofs.Records.Returns
import PluginClosure.Proofs.Records.UnionContents
import PluginClosure.Proofs.Session.Basic

/-!
# Empty records

There is one record of processors without elements. It does not matter how a record has come about:
if its sets are empty, be they of other orders or of another kind of elements, then it is this one.
So it is enough to look at the identity of a record, or to ask its sets, in order to know that none
of them lists an element.

There is also one empty record of the plugin provider with, and one without, the mark. A union, and
the reading of a compilation, give one of them back if both parts are empty. New records that are
made directly, or are read from structs of the plugin provider, are not canonical.

## Main definitions

* `PluginClosure.Inventory.CanonicalEmpty`: empty records and canonical records are the same.

## Main results

* `PluginClosure.Inventory.Sound.tfae_isEmpty`: three ways to tell that a record of processors is
  empty.
* `PluginClosure.Inventory.Sound.canonicalEmpty`: the canonical results of unions and readings.
* `PluginClosure.Session.canonical_empty`: it is so in all histories.
-/

namespace PluginClosure

namespace Inventory

variable {i j : Inventory}

/-- Three ways to tell that a record of processors is empty. -/
theorem Sound.tfae_isEmpty (h : i.Sound) {p : Processors} (hp : p ∈ i.processors) :
    List.TFAE [p.isEmpty = true, p.same .empty = true,
      p.classes.toList = [] ∧ p.classpath.toList = [] ∧ p.data.toList = []] := by
  obtain ⟨hc, hcp, hd⟩ := h.sets_mem p hp
  tfae_have 2 ↔ 1 := h.same_empty_iff hp
  tfae_have 1 ↔ 3 := by
    rw [Processors.isEmpty, Bool.and_eq_true, Bool.and_eq_true, h.strings.isEmpty_iff hc,
      h.files.isEmpty_iff hcp, h.files.isEmpty_iff hd, and_assoc]
  tfae_finish

/-- A record that is canonical when it has no processors is canonical only then. -/
theorem Sound.same_empty_iff_parts (h : i.Sound) {r : PluginProvider} (hr : r ∈ i.providers)
    (he : r.plugins.isEmpty = true ∧ r.apiPlugins.isEmpty = true → r = .empty r.builtin)
    (c : Bool) : r.same (.empty c) = true ↔
      c = r.builtin ∧ r.plugins.same .empty = true ∧ r.apiPlugins.same .empty = true := by
  obtain ⟨hp, ha⟩ := h.parts_mem r hr
  rw [h.same_empty_iff_eq hr, h.same_empty_iff hp, h.same_empty_iff ha]
  constructor
  · rintro rfl
    exact ⟨rfl, rfl, rfl⟩
  · rintro ⟨rfl, hparts⟩
    exact he hparts

/-- A record of processors at hand is empty exactly if it is the canonical one. Unions, and readings
of compilations, that start with any supply of numbers not yet in use are canonical records exactly
if they are empty. -/
structure CanonicalEmpty (i : Inventory) : Prop where
  processors : ∀ p ∈ i.processors,
    List.TFAE [p.isEmpty = true, p.same .empty = true,
      p.classes.toList = [] ∧ p.classpath.toList = [] ∧ p.data.toList = []]
  unionProcessors : ∀ l ⊆ i.processors, ∀ supply : Supply, i.supply.next ≤ supply.next →
    ((∃ p, outcome (Processors.union l) supply = .ok p ∧ p.same .empty = true) ↔
      ∀ q ∈ l, q.same .empty = true)
  union : ∀ l ⊆ i.providers, ∀ (b : Bool) (supply : Supply), i.supply.next ≤ supply.next →
    ∀ r, outcome (PluginProvider.union l b) supply = .ok r → ∀ c, r.same (.empty c) = true ↔
      c = (b && l.all PluginProvider.builtin) ∧ r.plugins.same .empty = true ∧
        r.apiPlugins.same .empty = true
  ofCompilation : ∀ a, (Value.provider a).Over i → ∀ (log : Log) (supply : Supply),
    i.supply.next ≤ supply.next →
    ∀ r, ((PluginProvider.ofCompilation a).outcome log supply).1 = .ok r →
      ∃ o f, a = .generic (.compilation o) f ∧ ∀ c, r.same (.empty c) = true ↔
        c = o.isBuiltin ∧ r.plugins.same .empty = true ∧ r.apiPlugins.same .empty = true

theorem Sound.exists_union_same_empty_iff (h : i.Sound) {l : List Processors}
    (hl : l ⊆ i.processors) {supply : Supply} (hs : i.supply.next ≤ supply.next) :
    (∃ p, outcome (Processors.union l) supply = .ok p ∧ p.same .empty = true) ↔
      ∀ q ∈ l, q.same .empty = true := by
  have hpass : i.Leads { i with supply := supply } := leads_pass hs
  have hsame : (∀ q ∈ l, q.same .empty = true) ↔ ∀ q ∈ l, q.isEmpty = true :=
    forall₂_congr fun q hq => h.same_empty_iff (hl hq)
  rw [hsame]
  rcases ((hpass.sound h).yields_union hl).outcome with ⟨e, he, hout⟩ | ⟨-, p, j, hout, hj, hp, hsum⟩
  · refine iff_of_false ?_ fun hempty => ?_
    · rintro ⟨p, hp, -⟩
      cases hout.symm.trans hp
    · have hnone := (Processors.sums_of_forall_isEmpty (fun q hq => h.eq_empty q (hl hq)) hempty).1
      exact Option.some_ne_none e (he.symm.trans hnone)
  · rw [← hsum.isEmpty_iff, ← (hj.sound (hpass.sound h)).same_empty_iff hp]
    constructor
    · rintro ⟨q, hq, hqe⟩
      cases hout.symm.trans hq
      exact hqe
    · exact fun he => ⟨p, hout, he⟩

theorem Sound.union_same_empty_iff (h : i.Sound) {l : List PluginProvider} (hl : l ⊆ i.providers)
    {b : Bool} {supply : Supply} (hs : i.supply.next ≤ supply.next) {r : PluginProvider}
    (hr : outcome (PluginProvider.union l b) supply = .ok r) (c : Bool) :
    r.same (.empty c) = true ↔ c = (b && l.all PluginProvider.builtin) ∧
      r.plugins.same .empty = true ∧ r.apiPlugins.same .empty = true := by
  obtain ⟨j, hj, hmem, hunites⟩ := h.exists_mem_of_union hl hs hr
  rw [← hunites.builtin]
  exact (hj.sound h).same_empty_iff_parts hmem
    (fun he => hunites.eq_empty (hunites.isEmpty_iff.mp he)) c

theorem Sound.ofCompilation_same_empty_iff (h : i.Sound) {a : Instance}
    (ha : (Value.provider a).Over i) {log : Log} {supply : Supply}
    (hs : i.supply.next ≤ supply.next) {r : PluginProvider}
    (hr : ((PluginProvider.ofCompilation a).outcome log supply).1 = .ok r) :
    ∃ o f, a = .generic (.compilation o) f ∧ ∀ c, r.same (.empty c) = true ↔
      c = o.isBuiltin ∧ r.plugins.same .empty = true ∧ r.apiPlugins.same .empty = true := by
  have hpass : i.Leads { i with supply := supply } := leads_pass hs
  obtain ⟨j, hret, hmem⟩ :=
    (Attempts.ofCompilation (hpass.sound h) (ha.mono hpass.within)).exists_returns log hr
  have hsound := hret.leads.sound (hpass.sound h)
  obtain ⟨o, f, rfl, hf⟩ := PluginProvider.mayReturn_ofCompilation.mp ⟨log, supply, hr⟩
  refine ⟨o, f, rfl, fun c => ?_⟩
  rcases PluginProvider.mayReturn_ofCompilationFields hf with rfl | ⟨hread, hne⟩
  · exact hsound.same_empty_iff_parts hmem (fun _ => rfl) c
  · rw [← hread.builtin]
    exact hsound.same_empty_iff_parts hmem
      (fun he => absurd (Bool.and_eq_true_iff.mpr he) hne) c

theorem Sound.canonicalEmpty (h : i.Sound) : i.CanonicalEmpty where
  processors _ hp := h.tfae_isEmpty hp
  unionProcessors _ hl _ hs := h.exists_union_same_empty_iff hl hs
  union _ hl _ _ hs _ hr := h.union_same_empty_iff hl hs hr
  ofCompilation _ ha _ _ hs _ hr := h.ofCompilation_same_empty_iff ha hs hr

end Inventory

namespace Session

variable {α : Type} {s : Session α}

/-- **Empty records are canonical.** Whatever the history, a record of processors without elements
is the canonical one, and unions and readings of compilations give canonical records back if there
are no processors. This is true of all records, since the parts of a record are at hand with it, and
since all operations are sequences of steps. -/
theorem canonical_empty (h : s.Reachable) : s.inventory.CanonicalEmpty ∧ s.Closed ∧ s.Operates :=
  ⟨h.sound.inventory.sound.canonicalEmpty, h.sound.closed, h.sound.operates⟩

/-- A record with a class is not canonical, and neither is a union with it. -/
theorem canonical_empty_sample : ∃ s : Session Nat, s.Reachable ∧
    Inventory.Sample.processors ∈ s.processors ∧
    Inventory.Sample.processors.same .empty = false ∧ Inventory.Sample.classes.toList ≠ [] ∧
    (∃ p, Inventory.outcome (Processors.union [.empty, .empty]) ⟨3⟩ = .ok p ∧
      p.same .empty = true) ∧
    ¬ ∃ p, Inventory.outcome (Processors.union [.empty, Inventory.Sample.processors]) ⟨3⟩ = .ok p ∧
      p.same .empty = true := by
  obtain ⟨s, hs, hi⟩ := leads_of_inventory (s := ({} : Session Nat))
    Inventory.Sample.reachable_inventory
  obtain ⟨h, -, -⟩ := canonical_empty hs
  rw [hi] at h
  have hmem : Inventory.Sample.processors ∈ Inventory.Sample.inventory.processors :=
    List.mem_cons_self
  have hempty : Processors.empty ∈ Inventory.Sample.inventory.processors :=
    Inventory.Sample.reachable_inventory.sound.empty_mem
  refine ⟨s, hs, ?_, rfl, fun hl => ?_, ?_, ?_⟩
  · have hprocessors : s.processors = Inventory.Sample.inventory.processors :=
      congrArg Inventory.processors hi
    rw [hprocessors]
    exact hmem
  · have htfae := (h.processors _ hmem).out 2 0
    cases htfae.mp ⟨hl, rfl, rfl⟩
  · refine (h.unionProcessors _ (pair_subset hempty hempty) ⟨3⟩ (Nat.le_refl 3)).mpr ?_
    exact List.forall_mem_cons.mpr ⟨rfl, List.forall_mem_singleton.mpr rfl⟩
  · intro hex
    have hall := (h.unionProcessors _ (pair_subset hempty hmem) ⟨3⟩ (Nat.le_refl 3)).mp hex
    cases hall _ (List.mem_cons_of_mem _ List.mem_cons_self)

end Session

end PluginClosure
