import PluginClosure.Proofs.Records.Sums
import PluginClosure.Proofs.TransitiveSet.Gathering

/-!
# Unions of records

A union of records of processors imports their sets, field by field, into three drafts. It is
refused as soon as a set has another order than that of records. Otherwise the record that it makes
sums the records of the list. A union of records of the plugin provider consists of two such unions,
from which records without elements are left out.

## Main definitions

* `PluginClosure.Processors.imports`, `PluginClosure.Processors.unite`: what a union does if nothing
  is refused.
* `PluginClosure.PluginProvider.Unites`: what the result of a union is like.
* `PluginClosure.Inventory.outcome`: the result or the error of a computation.

## Main results

* `PluginClosure.Processors.union_eq`: a union that is refused, and one that is not.
* `PluginClosure.Inventory.Sound.yields_union`,
  `PluginClosure.Inventory.Sound.yields_union_providers`: unions of records at hand. The results are
  at hand afterwards.
* `PluginClosure.Inventory.Sound.outcome_union`,
  `PluginClosure.Inventory.Sound.outcome_union_processors`: fault and result of a union.
* `PluginClosure.Inventory.Sound.union_dropRepeats`: of equal records one is enough.
-/

namespace PluginClosure

variable {α : Type}

/-! ### Sets of imports -/

namespace Draft

/-- The draft that has imported the sets of a list either refuses one more, or imports it. -/
theorem ofCalls_addSet {o : Order} {l : List (TransitiveSet α)} {d : Draft α}
    (hd : ofCalls o (l.map .addSet) = pure d) (s : TransitiveSet α) :
    (∃ e, s.fault? o = some e ∧ d.addSet s = .error e) ∨
    (s.fault? o = none ∧ ∃ d', d.addSet s = .ok d' ∧
      ofCalls o ((l ++ [s]).map .addSet) = pure d') := by
  have hdo : d.order = o := by
    have h := (ofCalls_spec o (l.map .addSet) {}).1
    rwa [hd] at h
  rw [TransitiveSet.fault?]
  cases h : d.addSet s with
  | error e =>
    obtain ⟨hne, he⟩ := addSet_eq_error_iff.mp h
    rw [hdo] at hne he
    exact Or.inl ⟨e, by rw [if_neg hne, he], rfl⟩
  | ok d' =>
    have hso : s.order = o := (branches_of_addSet h).1.trans hdo
    refine Or.inr ⟨if_pos hso, d', rfl, ?_⟩
    rw [ofCalls, List.map_append, List.foldlM_append, ← ofCalls, hd, pure_bind]
    show d.perform (.addSet s) >>= pure = pure d'
    rw [perform, h]
    rfl

end Draft

namespace Processors

/-- The unions in the making have imported the sets of a list of records. -/
structure Drafts.Collects (u : Drafts) (l : List Processors) : Prop where
  classes : Draft.ofCalls order ((l.map Processors.classes).map .addSet) = pure u.classes
  classpath : Draft.ofCalls order ((l.map Processors.classpath).map .addSet) = pure u.classpath
  data : Draft.ofCalls order ((l.map Processors.data).map .addSet) = pure u.data

theorem Drafts.collects_nil : ({} : Drafts).Collects [] := ⟨rfl, rfl, rfl⟩

/-- A record is refused because of the first fault, or all its sets are imported. -/
theorem Drafts.Collects.add {u : Drafts} {l : List Processors} (h : u.Collects l)
    (p : Processors) :
    (∃ e, p.fault? = some e ∧ u.add p = .error e) ∨
    (p.fault? = none ∧ ∃ v, u.add p = .ok v ∧ v.Collects (l ++ [p])) := by
  rw [fault?, Drafts.add]
  rcases Draft.ofCalls_addSet h.classes p.classes with ⟨e, he, hc⟩ | ⟨hnc, c, hc, hclasses⟩
  · exact Or.inl ⟨e, by rw [he]; rfl, by rw [hc]; rfl⟩
  rcases Draft.ofCalls_addSet h.classpath p.classpath with ⟨e, he, hp⟩ | ⟨hnp, cp, hp, hclasspath⟩
  · exact Or.inl ⟨e, by rw [hnc, he]; rfl, by rw [hc, hp]; rfl⟩
  rcases Draft.ofCalls_addSet h.data p.data with ⟨e, he, hd⟩ | ⟨hnd, d, hd, hdata⟩
  · exact Or.inl ⟨e, by rw [hnc, hnp, he]; rfl, by rw [hc, hp, hd]; rfl⟩
  · refine Or.inr ⟨by rw [hnc, hnp, hnd]; rfl, ⟨c, cp, d⟩, by rw [hc, hp, hd]; rfl, ?_, ?_, ?_⟩
    · rwa [List.map_append]
    · rwa [List.map_append]
    · rwa [List.map_append]

theorem Drafts.Collects.foldlM_add {u : Drafts} {l : List Processors} (h : u.Collects l)
    (k : List Processors) :
    (∃ e, k.findSome? fault? = some e ∧ k.foldlM Drafts.add u = .error e) ∨
    (k.findSome? fault? = none ∧ ∃ v, k.foldlM Drafts.add u = .ok v ∧ v.Collects (l ++ k)) := by
  induction k generalizing u l with
  | nil => exact Or.inr ⟨rfl, u, rfl, by rwa [List.append_nil]⟩
  | cons p k ih =>
    rw [List.foldlM_cons, List.findSome?_cons]
    rcases h.add p with ⟨e, he, hu⟩ | ⟨hn, v, hu, hv⟩
    · rw [he, hu]
      exact Or.inl ⟨e, rfl, rfl⟩
    · rw [hn, hu, List.append_cons]
      exact ih hv

/-- The set that imports the sets of a list, in the order of records. -/
def imports (l : List (TransitiveSet α)) : Fresh (TransitiveSet α) :=
  TransitiveSet.ofCalls order (l.map .addSet)

/-- The record whose sets import the sets of the records of a list. -/
def unite (l : List Processors) : Fresh Processors := do
  let classes ← imports (l.map Processors.classes)
  let classpath ← imports (l.map Processors.classpath)
  let data ← imports (l.map Processors.data)
  create classes classpath data

theorem Drafts.Collects.finish {u : Drafts} {l : List Processors} (h : u.Collects l) :
    u.finish = unite l := by
  simp only [unite, imports, TransitiveSet.ofCalls, h.classes, h.classpath, h.data, pure_bind,
    Drafts.finish]

/-- A union is refused because of the first fault, or the sets of all records are imported. -/
theorem union_eq (l : List Processors) :
    (∃ e, l.findSome? fault? = some e ∧ (union l).run = pure (.error e)) ∨
    (l.findSome? fault? = none ∧ (union l).run = Except.ok <$> unite l) := by
  rw [union]
  rcases Drafts.collects_nil.foldlM_add l with ⟨e, he, hu⟩ | ⟨hn, v, hu, hv⟩
  · exact Or.inl ⟨e, he, by rw [hu]; rfl⟩
  · rw [List.nil_append] at hv
    exact Or.inr ⟨hn, by rw [hu, ← hv.finish]; rfl⟩

end Processors

/-! ### Unions in histories -/

theorem mem_of_addSet_mem_map {l : List (TransitiveSet α)} {s : TransitiveSet α}
    (h : .addSet s ∈ l.map Draft.Call.addSet) : s ∈ l := by
  obtain ⟨t, ht, heq⟩ := List.mem_map.mp h
  cases heq
  exact ht

/-- Sets of imports that are at hand. -/
theorem Stock.Sound.sums_imports [BEq α] [Hashable α] [EquivBEq α] [LawfulHashable α]
    {st : Stock α} (h : st.Sound) {l : List (TransitiveSet α)} (hl : l ⊆ st.sets)
    (ho : ∀ s ∈ l, s.order = Processors.order) :
    ((Processors.imports l).run st.supply).1.order = Processors.order ∧
      ((Processors.imports l).run st.supply).1.Sums l := by
  have horder := TransitiveSet.order_ofCalls Processors.order (l.map .addSet) st.supply
  refine ⟨horder, ⟨fun _ => ho, fun _ => horder⟩, ?_, ?_⟩
  · rw [Processors.imports, TransitiveSet.isEmpty_ofCalls, List.flatMap_map,
      List.flatMap_eq_nil_iff]
    refine forall₂_congr fun s hs => ?_
    rw [Draft.Call.branches, if_pos (ho s hs), List.map_eq_nil_iff, TransitiveSet.isEmpty]
    cases s.root <;> simp
  · rw [Processors.imports, h.toList_eq_gather Processors.order
      (fun s hs => hl (mem_of_addSet_mem_map hs)) (Nat.le_refl _), List.flatMap_map]
    show ((l.flatMap _).flatMap Branch.elements).eraseDups = _
    rw [List.flatMap_assoc]
    congr 1
    refine List.flatMap_congr fun s hs => ?_
    rw [Draft.Call.parts, if_pos (ho s hs), List.flatMap_singleton]
    rfl

theorem TransitiveSet.eq_empty_of_isEmpty {o : Order} {s : TransitiveSet α}
    (h : s.isEmpty = true) (ho : s.order = o) : s = .empty o := by
  obtain ⟨_, _ | n⟩ := s
  · cases ho
    rfl
  · cases h

namespace Inventory

variable {i : Inventory}

theorem Sound.yields_strings (hi : i.Sound) {l : List (TransitiveSet String)}
    (hl : l ⊆ i.strings) (ho : ∀ s ∈ l, s.order = Processors.order) :
    i.Yields (Processors.imports l) fun s j =>
      s ∈ j.strings ∧ s.order = Processors.order ∧ s.Sums l := by
  have hstep := Step.strings (.ofCalls i.stringStock Processors.order _ fun s hs =>
    hl (mem_of_addSet_mem_map hs))
  exact ⟨_, _, rfl, .single hstep, List.mem_cons_self, hi.strings.sums_imports hl ho⟩

theorem Sound.yields_files (hi : i.Sound) {l : List (TransitiveSet File)}
    (hl : l ⊆ i.files) (ho : ∀ s ∈ l, s.order = Processors.order) :
    i.Yields (Processors.imports l) fun s j =>
      s ∈ j.files ∧ s.order = Processors.order ∧ s.Sums l := by
  have hstep := Step.files (.ofCalls i.fileStock Processors.order _ fun s hs =>
    hl (mem_of_addSet_mem_map hs))
  exact ⟨_, _, rfl, .single hstep, List.mem_cons_self, hi.files.sums_imports hl ho⟩

/-- If all sets have the order of records, then these are the sets of the record. -/
theorem yields_create {classes : TransitiveSet String} {classpath data : TransitiveSet File}
    (hc : classes ∈ i.strings) (hp : classpath ∈ i.files) (hd : data ∈ i.files)
    (hco : classes.order = Processors.order) (hpo : classpath.order = Processors.order)
    (hdo : data.order = Processors.order) :
    i.Yields (Processors.create classes classpath data) fun p j =>
      p ∈ j.processors ∧ p.classes = classes ∧ p.classpath = classpath ∧ p.data = data := by
  refine ⟨_, _, rfl, .single (.processors hc hp hd), List.mem_cons_self, ?_⟩
  rcases Processors.create_spec classes classpath data i.supply with ⟨he, h⟩ | ⟨-, h⟩
  · simp only [Bool.and_eq_true] at he
    rw [h]
    exact ⟨(TransitiveSet.eq_empty_of_isEmpty he.1.1 hco).symm,
      (TransitiveSet.eq_empty_of_isEmpty he.1.2 hpo).symm,
      (TransitiveSet.eq_empty_of_isEmpty he.2 hdo).symm⟩
  · rw [h]
    exact ⟨rfl, rfl, rfl⟩

/-- Records at hand without faults have a union, which sums them. -/
theorem Sound.yields_unite (hi : i.Sound) {l : List Processors} (hl : l ⊆ i.processors)
    (hf : l.findSome? Processors.fault? = none) :
    i.Yields (Processors.unite l) fun p j => p ∈ j.processors ∧ p.Sums l := by
  have horder (p : Processors) (hp : p ∈ l) :=
    Processors.fault?_eq_none.mp (List.findSome?_eq_none_iff.mp hf p hp)
  have hsets (p : Processors) (hp : p ∈ l) := hi.sets_mem p (hl hp)
  have hmem {β : Type} {f : Processors → β} {k : List β} (h : ∀ p ∈ l, f p ∈ k) : l.map f ⊆ k :=
    fun _ hs => (List.mem_map.mp hs).elim fun p hp => hp.2 ▸ h p hp.1
  refine (hi.yields_strings (hmem fun p hp => (hsets p hp).1)
    (List.forall_mem_map.mpr fun q hq => (horder q hq).1)).bind ?_
  rintro classes i₁ h₁ ⟨hc, hco, hcs⟩
  refine ((h₁.sound hi).yields_files (hmem fun p hp => h₁.within.files (hsets p hp).2.1)
    (List.forall_mem_map.mpr fun q hq => (horder q hq).2.1)).bind ?_
  rintro classpath i₂ h₂ ⟨hp, hpo, hps⟩
  have h₂' := h₁.trans h₂
  refine ((h₂'.sound hi).yields_files (hmem fun p hp => h₂'.within.files (hsets p hp).2.2)
    (List.forall_mem_map.mpr fun q hq => (horder q hq).2.2)).bind ?_
  rintro data i₃ h₃ ⟨hd, hdo, hds⟩
  have hw := h₂.within.trans h₃.within
  have hcreate := yields_create (hw.strings hc) (h₃.within.files hp) hd hco hpo hdo
  obtain ⟨p, j, hrun, hj, hmem, hpc, hpp, hpd⟩ := hcreate
  exact ⟨p, j, hrun, hj, hmem, hpc ▸ hcs, hpp ▸ hps, hpd ▸ hds⟩

/-- A union of records at hand is refused because of the first fault, or it sums them. -/
theorem Sound.yields_union (hi : i.Sound) {l : List Processors} (hl : l ⊆ i.processors) :
    i.Yields (Processors.union l).run (Unless (l.findSome? Processors.fault?) fun p j =>
      p ∈ j.processors ∧ p.Sums l) := by
  rcases Processors.union_eq l with ⟨e, he, hu⟩ | ⟨hn, hu⟩
  · rw [hu]
    exact .pure he
  · rw [hu]
    exact (hi.yields_unite hl hn).map fun p j _ hp => ⟨hn, hp⟩

/-- Records without elements may be left out of a union. -/
theorem Sound.yields_union_filter (hi : i.Sound) {l : List Processors} (hl : l ⊆ i.processors) :
    i.Yields (Processors.union (l.filter (!·.isEmpty))).run
      (Unless (l.findSome? Processors.fault?) fun p j => p ∈ j.processors ∧ p.Sums l) := by
  have hempty (p : Processors) (hp : p ∈ l) := hi.eq_empty p (hl hp)
  refine (hi.yields_union fun p hp => hl (List.mem_of_mem_filter hp)).imp fun r j _ hr => ?_
  refine hr.imp (Processors.findSome?_fault?_filter hempty) fun p hp => ⟨hp.1, ?_⟩
  exact (Processors.sums_filter (k := []) hempty).mp hp.2

end Inventory

/-! ### Records of the plugin provider -/

theorem pair_subset {β : Type} {l : List β} {b c : β} (hb : b ∈ l) (hc : c ∈ l) : [b, c] ⊆ l :=
  List.cons_subset.mpr ⟨hb, List.cons_subset.mpr ⟨hc, List.nil_subset l⟩⟩

/-- The record sums a list of records, without outputs, and is canonical if it is empty. -/
structure PluginProvider.Unites (r : PluginProvider) (l : List PluginProvider) (b : Bool) : Prop
    extends r.Sums l b where
  outputs : r.outputs = []
  eq_empty : (∀ s ∈ l, s.plugins.isEmpty = true ∧ s.apiPlugins.isEmpty = true) →
    r = .empty r.builtin

theorem PluginProvider.Unites.alike {r s : PluginProvider} {l : List PluginProvider} {b : Bool}
    (hr : r.Unites l b) (hs : s.Unites l b) (hl : fault? l = none) : r.Alike s :=
  hr.toSums.alike hs.toSums hl (hr.outputs.trans hs.outputs.symm)

namespace Processors

variable {l : List Processors}

theorem filter_isEmpty_iff :
    (l.filter (!·.isEmpty)).isEmpty = true ↔ ∀ p ∈ l, p.isEmpty = true := by
  rw [List.isEmpty_iff, List.filter_eq_nil_iff]
  simp only [Bool.not_eq_true', Bool.not_eq_false]

theorem sums_nil : empty.Sums [] := by
  have hnil {α : Type} [BEq α] [Hashable α] :
      (TransitiveSet.empty order : TransitiveSet α).Sums [] :=
    ⟨⟨fun _ _ h => absurd h List.not_mem_nil, fun _ => rfl⟩,
      ⟨fun _ _ h => absurd h List.not_mem_nil, fun _ => rfl⟩, rfl⟩
  exact ⟨hnil, hnil, hnil⟩

/-- Where there are no elements, there is no fault, and the sum is the empty record. -/
theorem sums_of_forall_isEmpty (hl : ∀ p ∈ l, p.isEmpty = true → p = .empty)
    (he : ∀ p ∈ l, p.isEmpty = true) : l.findSome? fault? = none ∧ empty.Sums l := by
  have hnil := List.isEmpty_iff.mp (filter_isEmpty_iff.mpr he)
  constructor
  · rw [← findSome?_fault?_filter hl, hnil]
    rfl
  · refine (sums_filter (k := []) hl).mp ?_
    rw [hnil]
    exact sums_nil

end Processors

namespace Inventory

variable {i : Inventory}

theorem Sound.empty_mem_providers (h : i.Sound) (b : Bool) :
    PluginProvider.empty b ∈ i.providers := by
  refine h.initial_within.providers (List.mem_pair.mpr ?_)
  cases b with
  | true => exact Or.inl rfl
  | false => exact Or.inr rfl

theorem yields_make (outputs : List CompiledOutput) {plugins apiPlugins : Processors}
    (hp : plugins ∈ i.processors) (ha : apiPlugins ∈ i.processors) (b : Bool) :
    i.Yields (PluginProvider.make outputs plugins apiPlugins b) fun r j =>
      r ∈ j.providers ∧ r.outputs = outputs ∧ r.plugins = plugins ∧ r.apiPlugins = apiPlugins ∧
        r.builtin = b :=
  ⟨_, _, rfl, .single (.provider outputs hp ha b), List.mem_cons_self, rfl, rfl, rfl, rfl⟩

theorem Sound.parts_subset (h : i.Sound) {l : List PluginProvider} (hl : l ⊆ i.providers) :
    l.map PluginProvider.plugins ⊆ i.processors ∧
      l.map PluginProvider.apiPlugins ⊆ i.processors := by
  constructor
  · intro p hp
    obtain ⟨r, hr, rfl⟩ := List.mem_map.mp hp
    exact (h.parts_mem r (hl hr)).1
  · intro p hp
    obtain ⟨r, hr, rfl⟩ := List.mem_map.mp hp
    exact (h.parts_mem r (hl hr)).2

/-- A union of records at hand is refused because of the first fault, or it unites them. -/
theorem Sound.yields_union_providers (hi : i.Sound) {l : List PluginProvider}
    (hl : l ⊆ i.providers) (b : Bool) :
    i.Yields (PluginProvider.union l b).run (Unless (PluginProvider.fault? l) fun r j =>
      r ∈ j.providers ∧ r.Unites l b) := by
  obtain ⟨hplugins, hapi⟩ := hi.parts_subset hl
  rw [PluginProvider.union]
  split
  · next he =>
    rw [Bool.and_eq_true, Processors.filter_isEmpty_iff, Processors.filter_isEmpty_iff] at he
    obtain ⟨hpf, hps⟩ := Processors.sums_of_forall_isEmpty
      (fun p hp => hi.eq_empty p (hplugins hp)) he.1
    obtain ⟨haf, has⟩ := Processors.sums_of_forall_isEmpty
      (fun p hp => hi.eq_empty p (hapi hp)) he.2
    refine .pure ⟨?_, hi.empty_mem_providers _, ⟨hps, has, rfl⟩, rfl, fun _ => rfl⟩
    rw [PluginProvider.fault?, hpf, haf, Option.or_none]
  · next hne =>
    refine (hi.yields_union_filter hplugins).bind_unless ?_
    rintro p j hj ⟨hp, hps⟩
    have hapi' := List.Subset.trans hapi hj.within.processors
    rw [← Option.or_none (o := List.findSome? _ _)]
    refine ((hj.sound hi).yields_union_filter hapi').bind_unless ?_
    rintro q k hk ⟨hq, hqs⟩
    refine ((yields_make [] (hk.within.processors hp) hq _).imp ?_).lift
    rintro r m - ⟨hr, ho, rfl, rfl, hb⟩
    refine ⟨hr, ⟨hps, hqs, hb⟩, ho, fun he => absurd ?_ hne⟩
    rw [Bool.and_eq_true, Processors.filter_isEmpty_iff, Processors.filter_isEmpty_iff,
      List.forall_mem_map, List.forall_mem_map]
    exact ⟨fun s hs => (he s hs).1, fun s hs => (he s hs).2⟩

/-- What a computation comes to that starts with the given supply. -/
def outcome {ε β : Type} (x : ExceptT ε Fresh β) (supply : Supply) : Except ε β :=
  (x.run.run supply).1

theorem Yields.outcome {ε β : Type} {x : ExceptT ε Fresh β} {fault : Option ε}
    {P : β → Inventory → Prop} (hx : i.Yields x.run (Unless fault P)) :
    (∃ e, fault = some e ∧ outcome x i.supply = .error e) ∨
    (fault = none ∧ ∃ b j, outcome x i.supply = .ok b ∧ i.Leads j ∧ P b j) := by
  obtain ⟨res, j, hrun, hj, hres⟩ := hx
  have hout : Inventory.outcome x i.supply = res := congrArg Prod.fst hrun
  rw [hout]
  cases res with
  | error e => exact Or.inl ⟨e, hres, rfl⟩
  | ok b => exact Or.inr ⟨hres.1, b, j, rfl, hj, hres.2⟩

/-- The outcome of a union of records at hand, whatever else has been created in between. -/
theorem Sound.outcome_union (hi : i.Sound) {l : List PluginProvider} (hl : l ⊆ i.providers)
    (b : Bool) {supply : Supply} (hs : i.supply.next ≤ supply.next) :
    (∃ e, PluginProvider.fault? l = some e ∧
      outcome (PluginProvider.union l b) supply = .error e) ∨
    (PluginProvider.fault? l = none ∧
      ∃ r, outcome (PluginProvider.union l b) supply = .ok r ∧ r.Unites l b) := by
  have hpass : i.Leads { i with supply := supply } := leads_pass hs
  refine ((hpass.sound hi).yields_union_providers hl b).outcome.imp id ?_
  rintro ⟨hf, r, -, hr, -, -, hu⟩
  exact ⟨hf, r, hr, hu⟩

/-- The outcome of a union of records of processors. -/
theorem Sound.outcome_union_processors (hi : i.Sound) {l : List Processors}
    (hl : l ⊆ i.processors) {supply : Supply} (hs : i.supply.next ≤ supply.next) :
    (∃ e, l.findSome? Processors.fault? = some e ∧
      outcome (Processors.union l) supply = .error e) ∨
    (l.findSome? Processors.fault? = none ∧
      ∃ p, outcome (Processors.union l) supply = .ok p ∧ p.Sums l) := by
  have hpass : i.Leads { i with supply := supply } := leads_pass hs
  refine ((hpass.sound hi).yields_union hl).outcome.imp id ?_
  rintro ⟨hf, p, -, hp, -, -, hs⟩
  exact ⟨hf, p, hp, hs⟩

/-- Of equal records one is enough: the union fails in the same way or has the same contents. -/
theorem Sound.union_dropRepeats (hi : i.Sound) {l : List PluginProvider} (hl : l ⊆ i.providers)
    (b : Bool) {s₁ s₂ : Supply} (h₁ : i.supply.next ≤ s₁.next) (h₂ : i.supply.next ≤ s₂.next) :
    (∀ e, outcome (PluginProvider.union (dropRepeats [] l) b) s₁ = .error e ↔
      outcome (PluginProvider.union l b) s₂ = .error e) ∧
    ∀ f g, outcome (PluginProvider.union (dropRepeats [] l) b) s₁ = .ok f →
      outcome (PluginProvider.union l b) s₂ = .ok g → f.Alike g := by
  have halike : ∀ s ∈ l, ∀ u ∈ l, (s == u) = true → s.Alike u :=
    fun s hs u hu => hi.alike_of_beq (hl hs) (hl hu)
  have hreduced := hi.outcome_union
    (List.Subset.trans (dropRepeats_sublist [] l).subset hl) b h₁
  rw [PluginProvider.fault?_dropRepeats halike] at hreduced
  rcases hi.outcome_union hl b h₂ with ⟨e, hf, hflat⟩ | ⟨hf, g, hflat, hg⟩
  · obtain ⟨e', hf', hr⟩ := hreduced.resolve_right fun hn => by simp [hf] at hn
    obtain rfl : e = e' := Option.some.inj (hf.symm.trans hf')
    rw [hr, hflat]
    exact ⟨fun _ => Iff.rfl, fun f g hf => by cases hf⟩
  · obtain ⟨-, f, hr, hfu⟩ := hreduced.resolve_left fun ⟨e, hn, _⟩ => by simp [hf] at hn
    rw [hr, hflat]
    refine ⟨fun e => by simp only [reduceCtorEq], ?_⟩
    rintro _ _ ⟨⟩ ⟨⟩
    exact ((PluginProvider.sums_dropRepeats halike).mp hfu.toSums).alike hg.toSums hf
      (hfu.outputs.trans hg.outputs.symm)

end Inventory

end PluginClosure
