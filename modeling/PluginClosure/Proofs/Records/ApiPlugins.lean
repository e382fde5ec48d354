import PluginClosure.Proofs.Records.Operations
import PluginClosure.Proofs.Records.RoundTrip
import PluginClosure.Proofs.Records.UnionTwo

/-!
# The processors that generate API

The processors of a record that generate API are to be among all processors of the record, and the
same goes for their classpath and their data. The check when a record is made is for the classes
only, and later on nothing is checked again. Nevertheless the three conditions are kept, each one
independently of the other two: by unions of any kind, although these treat both parts of a record
separately and may give back a record as it is, and by writing a record and reading it again.

A record is *derived* from records of some kind if it was made of them in these ways, in any nesting.

## Main definitions

* `PluginClosure.Processors.Part`, `PluginClosure.Processors.Among`: the three conditions.
* `PluginClosure.PluginProvider.ApiAmong`: one of the conditions for a record.
* `PluginClosure.PluginProvider.Accepted`: records that have passed the check.
* `PluginClosure.Inventory.Derives`: derived records.

## Main results

* `PluginClosure.PluginProvider.exists_create_iff`: what the check is for.
* `PluginClosure.Inventory.Derives.apiAmong`: each condition is kept.
* `PluginClosure.Inventory.Sound.regular`: the short cut of a union of two may rely on the
  conditions.
* `PluginClosure.Inventory.api_among`: what the conditions amount to in a history.
-/

namespace PluginClosure

/-! ### One record of processors among another -/

theorem TransitiveSet.Sums.toList_subset {α β : Type} [BEq α] [Hashable α] [LawfulBEq α]
    {t u : TransitiveSet α} {l : List β} {f g : β → TransitiveSet α} (ht : t.Sums (l.map f))
    (hu : u.Sums (l.map g)) (h : ∀ b ∈ l, (f b).toList ⊆ (g b).toList) : t.toList ⊆ u.toList := by
  intro a ha
  rw [ht.toList, List.mem_eraseDups, List.flatMap_map, List.mem_flatMap] at ha
  obtain ⟨b, hb, ha⟩ := ha
  rw [hu.toList, List.mem_eraseDups, List.flatMap_map]
  exact List.mem_flatMap.mpr ⟨b, hb, h b hb ha⟩

namespace Processors

/-- The sets of a record of processors. -/
inductive Part where
  | classes
  | classpath
  | data
deriving DecidableEq, Repr

/-- In one of the sets, every element of `p` is an element of `q`. -/
def Among (p q : Processors) : Part → Prop
  | .classes => p.classes.toList ⊆ q.classes.toList
  | .classpath => p.classpath.toList ⊆ q.classpath.toList
  | .data => p.data.toList ⊆ q.data.toList

variable {p q : Processors} {x : Part}

theorem Among.refl (p : Processors) (x : Part) : p.Among p x := by
  cases x with
  | classes | classpath | data => exact List.Subset.refl _

/-- Sums are among each other if the summands are, one by one. -/
theorem Sums.among {β : Type} {l : List β} {f g : β → Processors} (hp : p.Sums (l.map f))
    (hq : q.Sums (l.map g)) (h : ∀ b ∈ l, (f b).Among (g b) x) : p.Among q x := by
  obtain ⟨hpc, hpp, hpd⟩ := hp
  obtain ⟨hqc, hqp, hqd⟩ := hq
  rw [List.map_map] at hpc hpp hpd hqc hqp hqd
  cases x with
  | classes => exact hpc.toList_subset hqc h
  | classpath => exact hpp.toList_subset hqp h
  | data => exact hpd.toList_subset hqd h

end Processors

theorem Inventory.Sound.isEmpty_of_among {i : Inventory} (h : i.Sound) {p q : Processors}
    (hp : p ∈ i.processors) (hq : q ∈ i.processors) (hpq : ∀ x, p.Among q x)
    (he : q.isEmpty = true) : p.isEmpty = true := by
  obtain ⟨hc, hcp, hd⟩ := h.sets_mem p hp
  have hcl : p.classes.toList ⊆ q.classes.toList := hpq .classes
  have hcpl : p.classpath.toList ⊆ q.classpath.toList := hpq .classpath
  have hdl : p.data.toList ⊆ q.data.toList := hpq .data
  rw [h.eq_empty q hq he] at hcl hcpl hdl
  rw [Processors.isEmpty, (h.strings.isEmpty_iff hc).mpr (List.subset_nil.mp hcl),
    (h.files.isEmpty_iff hcp).mpr (List.subset_nil.mp hcpl),
    (h.files.isEmpty_iff hd).mpr (List.subset_nil.mp hdl)]
  rfl

/-! ### One part of a record among the other -/

namespace PluginProvider

/-- In one of the sets, every element that generates API is an element of the record. -/
def ApiAmong (r : PluginProvider) (x : Processors.Part) : Prop := r.apiPlugins.Among r.plugins x

/-- The record was made under the check that `create` makes. -/
def Accepted (r : PluginProvider) : Prop :=
  ∃ outputs plugins apiPlugins b supply,
    Inventory.outcome (create outputs plugins apiPlugins b) supply = .ok r

variable {r s u : PluginProvider} {x : Processors.Part} {supply : Supply}

theorem classesAmong_iff {p q : Processors} : classesAmong p q = true ↔ p.Among q .classes := by
  rw [classesAmong, List.all_eq_true]
  refine forall₂_congr fun a _ => ?_
  rw [Std.HashSet.contains_ofList, List.contains_iff_mem]

/-- The check decides whether a record is made. -/
theorem create_spec (outputs : List CompiledOutput) (plugins apiPlugins : Processors) (b : Bool)
    (supply : Supply) :
    (apiPlugins.Among plugins .classes ∧ Inventory.outcome (create outputs plugins apiPlugins b)
      supply = .ok ((make outputs plugins apiPlugins b).run supply).1) ∨
    (¬ apiPlugins.Among plugins .classes ∧ Inventory.outcome (create outputs plugins apiPlugins b)
      supply = .error {}) := by
  rw [create]
  split
  · next h => exact Or.inl ⟨classesAmong_iff.mp h, rfl⟩
  · next h => exact Or.inr ⟨fun ha => h (classesAmong_iff.mpr ha), rfl⟩

theorem exists_create_iff {outputs : List CompiledOutput} {plugins apiPlugins : Processors}
    {b : Bool} : (∃ r, Inventory.outcome (create outputs plugins apiPlugins b) supply = .ok r) ↔
      apiPlugins.Among plugins .classes := by
  rcases create_spec outputs plugins apiPlugins b supply with ⟨h, hr⟩ | ⟨h, hr⟩
  · exact iff_of_true ⟨_, hr⟩ h
  · refine iff_of_false ?_ h
    rintro ⟨r, hr'⟩
    cases hr.symm.trans hr'

theorem Accepted.apiAmong_classes (h : r.Accepted) : r.ApiAmong .classes := by
  obtain ⟨outputs, plugins, apiPlugins, b, supply, h⟩ := h
  rcases create_spec outputs plugins apiPlugins b supply with ⟨ha, hr⟩ | ⟨-, hr⟩
  · cases hr.symm.trans h
    exact ha
  · cases hr.symm.trans h

theorem Sums.apiAmong {l : List PluginProvider} {b : Bool} (h : r.Sums l b)
    (hl : ∀ s ∈ l, s.ApiAmong x) : r.ApiAmong x :=
  h.apiPlugins.among h.plugins hl

/-- A record that is written and read again has the same parts. -/
theorem parts_of_ofInstance_toInstance (h : (ofInstance r.toInstance).MayReturn u) :
    u.plugins = r.plugins ∧ u.apiPlugins = r.apiPlugins := by
  rw [ofInstance_toInstance] at h
  obtain ⟨supply, rfl⟩ := Attempt.mayReturn_lift_fresh.mp h
  exact ⟨rfl, rfl⟩

end PluginProvider

/-! ### Derived records -/

namespace Inventory

variable {i j : Inventory} {r s u : PluginProvider} {x : Processors.Part}

/-- The record is at hand, and was made of records for which `G` is true: by unions, and by reading
written records. -/
inductive Derives (G : PluginProvider → Prop) : Inventory → PluginProvider → Prop
  | given {i : Inventory} {r : PluginProvider} (hi : i.Reachable) (hr : r ∈ i.providers)
      (h : G r) : Derives G i r
  | later {i j : Inventory} {r : PluginProvider} (h : Derives G i r) (hj : i.Leads j) :
      Derives G j r
  | union {i j : Inventory} {l : List PluginProvider} {b : Bool} {u : PluginProvider}
      (hi : i.Reachable) (hl : ∀ s ∈ l, Derives G i s)
      (h : i.Returns (liftM (PluginProvider.union l b) : Attempt OrderMismatch _) u j)
      (hu : u ∈ j.providers) : Derives G j u
  | unionTwo {i j : Inventory} {r s u : PluginProvider} (hr : Derives G i r) (hs : Derives G i s)
      (h : i.Returns (liftM (PluginProvider.unionTwo r s) : Attempt OrderMismatch _) u j)
      (hu : u ∈ j.providers) : Derives G j u
  | slots {i j : Inventory} {x : Slots} {u : PluginProvider} (hc : ∀ r ∈ x.current, Derives G i r)
      (hl : ∀ r ∈ x.legacy, Derives G i r) (h : i.Returns x.union (some u) j)
      (hu : u ∈ j.providers) : Derives G j u
  | read {i j : Inventory} {r u : PluginProvider} (hr : Derives G i r)
      (h : i.Returns (PluginProvider.ofInstance r.toInstance) u j) (hu : u ∈ j.providers) :
      Derives G j u

variable {G : PluginProvider → Prop}

theorem Derives.mem (h : i.Derives G r) : r ∈ i.providers := by
  induction h with
  | given _ hr _ => exact hr
  | later _ hj ih => exact hj.within.providers ih
  | union _ _ _ hu => exact hu
  | unionTwo _ _ _ hu => exact hu
  | slots _ _ _ hu => exact hu
  | read _ _ hu => exact hu

theorem Derives.reachable (h : i.Derives G r) : i.Reachable := by
  induction h with
  | given hi _ _ => exact hi
  | later _ hj ih => exact ih.trans hj
  | union hi _ h _ => exact hi.trans h.leads
  | unionTwo _ _ h _ ih => exact ih.trans h.leads
  | slots _ _ h _ ihc ihl =>
    obtain ⟨log, hout⟩ := h.outcome
    rcases Slots.union_result hout with hx | hx | ⟨r, hx, -⟩
    · exact (ihc _ hx).trans h.leads
    · exact (ihl _ hx).trans h.leads
    · exact (ihc r hx).trans h.leads
  | read _ h _ ih => exact ih.trans h.leads

theorem Sound.apiAmong_of_union (h : i.Sound) {l : List PluginProvider} (hl : l ⊆ i.providers)
    {b : Bool} (hG : ∀ s ∈ l, s.ApiAmong x)
    (hr : outcome (PluginProvider.union l b) i.supply = .ok r) : r.ApiAmong x := by
  obtain ⟨-, -, -, hsum⟩ := h.exists_mem_of_union hl (Nat.le_refl _) hr
  exact hsum.apiAmong hG

theorem Sound.apiAmong_of_unionTwo (h : i.Sound) (hr : r ∈ i.providers) (hs : s ∈ i.providers)
    (hrx : r.ApiAmong x) (hsx : s.ApiAmong x)
    (hu : outcome (PluginProvider.unionTwo r s) i.supply = .ok u) : u.ApiAmong x := by
  rcases PluginProvider.unionTwo_result hu with rfl | rfl | hu
  · exact hrx
  · exact hsx
  · exact h.apiAmong_of_union (pair_subset hr hs)
      (List.forall_mem_cons.mpr ⟨hrx, List.forall_mem_singleton.mpr hsx⟩) hu

/-- What is true of one of the sets in all given records is true of it in a derived record. -/
theorem Derives.apiAmong (h : i.Derives G r) (hG : ∀ s, G s → s.ApiAmong x) : r.ApiAmong x := by
  induction h with
  | given _ _ h => exact hG _ h
  | later _ _ ih => exact ih
  | union hi hl h _ ih =>
    exact hi.sound.apiAmong_of_union (fun s hs => (hl s hs).mem) ih h.outcome_lift
  | unionTwo hr hs h _ ihr ihs =>
    exact hr.reachable.sound.apiAmong_of_unionTwo hr.mem hs.mem ihr ihs h.outcome_lift
  | slots hc hl h _ ihc ihl =>
    obtain ⟨log, hout⟩ := h.outcome
    rcases Slots.union_result hout with hx | hx | ⟨r, hr, s, hs, hout⟩
    · exact ihc _ hx
    · exact ihl _ hx
    · exact (hc r hr).reachable.sound.apiAmong_of_unionTwo (hc r hr).mem (hl s hs).mem (ihc r hr)
        (ihl s hs) hout
  | read _ h _ ih =>
    obtain ⟨hp, ha⟩ := PluginProvider.parts_of_ofInstance_toInstance h.mayReturn
    rw [PluginProvider.ApiAmong, hp, ha]
    exact ih

theorem Sound.apiPlugins_isEmpty (h : i.Sound) (hr : r ∈ i.providers) (hx : ∀ x, r.ApiAmong x)
    (he : r.plugins.isEmpty = true) : r.apiPlugins.isEmpty = true :=
  h.isEmpty_of_among (h.parts_mem r hr).2 (h.parts_mem r hr).1 hx he

/-- Records with all three conditions are those that the short cut of a union of two is meant
for. -/
theorem Sound.regular (h : i.Sound) (hr : r ∈ i.providers) (hx : ∀ x, r.ApiAmong x)
    (ho : r.plugins.InOrder ∧ r.apiPlugins.InOrder) : r.Regular :=
  ⟨ho.1, ho.2, h.apiPlugins_isEmpty hr hx⟩

namespace Sample

theorem accepted_provider : provider.Accepted := by
  refine ⟨[], processors, processors, true, ⟨2⟩, ?_⟩
  rcases PluginProvider.create_spec [] processors processors true ⟨2⟩ with ⟨-, h⟩ | ⟨h, -⟩
  · exact h
  · exact absurd (Processors.Among.refl processors .classes) h

/-- The sample is written and read, and then united with the record that was read. -/
theorem derives_union : ∃ (i : Inventory) (u : PluginProvider),
    i.Derives (· = provider) u ∧ u.isEmpty = false := by
  have hi := reachable_inventory.sound
  have hgiven : inventory.Derives (· = provider) provider :=
    .given reachable_inventory List.mem_cons_self rfl
  obtain ⟨j, hread, hmem⟩ := (Attempts.ofInstance (hi.toInstance_over hgiven.mem)).exists_returns
    (b := { provider with id := .issued ⟨3⟩ }) [] rfl
  have hsecond := hgiven.read hread hmem
  have hpair : ∀ s ∈ [provider, { provider with id := .issued ⟨3⟩ }],
      j.Derives (· = provider) s :=
    List.forall_mem_cons.mpr ⟨hgiven.later hread.leads, List.forall_mem_singleton.mpr hsecond⟩
  have hsound := hsecond.reachable.sound
  rcases hsound.outcome_union (fun s hs => (hpair s hs).mem) true (Nat.le_refl _) with
    ⟨e, he, -⟩ | ⟨-, u, hu, hsum⟩
  · cases he
  · obtain ⟨k, hunion, hmem⟩ := (Attempts.union hsound (fun s hs => (hpair s hs).mem)
      true).exists_returns [] hu
    refine ⟨k, u, .union hsecond.reachable hpair hunion hmem, Bool.eq_false_iff.mpr fun he => ?_⟩
    cases hsum.plugins.isEmpty_iff.mp he _ List.mem_cons_self

end Sample

/-- **The processors that generate API stay among all processors.** Each of the three conditions is
true of derived records if it is true of the records that they are derived from. A record that is
derived from records that have passed the check would pass it. Of a record with all three conditions
it is known that both parts are empty once the first part is. -/
theorem api_among (h : i.Reachable) :
    (∀ (G : PluginProvider → Prop) (x : Processors.Part), (∀ s, G s → s.ApiAmong x) →
      ∀ r, i.Derives G r → r.ApiAmong x) ∧
    (∀ G : PluginProvider → Prop, (∀ s, G s → s.Accepted) → ∀ r, i.Derives G r → ∀ supply,
      ∃ u, outcome (PluginProvider.create r.outputs r.plugins r.apiPlugins r.builtin) supply =
        .ok u) ∧
    ∀ r ∈ i.providers, (∀ x, r.ApiAmong x) →
      (r.isEmpty = true ↔ r.plugins.same .empty = true ∧ r.apiPlugins.same .empty = true) := by
  refine ⟨fun G x hG r hr => hr.apiAmong hG, ?_, ?_⟩
  · intro G hG r hr supply
    have hclasses : r.ApiAmong .classes := hr.apiAmong fun s hs => (hG s hs).apiAmong_classes
    exact PluginProvider.exists_create_iff.mpr hclasses
  · intro r hr hx
    obtain ⟨hp, ha⟩ := h.sound.parts_mem r hr
    rw [h.sound.same_empty_iff hp, h.sound.same_empty_iff ha]
    exact ⟨fun he => ⟨he, h.sound.apiPlugins_isEmpty hr hx he⟩, fun he => he.1⟩

/-- A record that is derived from the sample: the conditions are kept, and it could be made again. -/
theorem api_among_sample : ∃ (i : Inventory) (u : PluginProvider),
    i.Derives (· = Sample.provider) u ∧ (∀ x, u.ApiAmong x) ∧
      (∃ v, outcome (PluginProvider.create u.outputs u.plugins u.apiPlugins u.builtin) ⟨9⟩ =
        .ok v) ∧
      ¬ (u.plugins.same .empty = true ∧ u.apiPlugins.same .empty = true) := by
  obtain ⟨i, u, hu, hne⟩ := Sample.derives_union
  obtain ⟨hamong, hcreate, hempty⟩ := api_among hu.reachable
  have hx (x : Processors.Part) : u.ApiAmong x := by
    refine hamong (· = Sample.provider) x ?_ u hu
    rintro s rfl
    exact Processors.Among.refl _ x
  refine ⟨i, u, hu, hx, hcreate _ ?_ u hu ⟨9⟩, fun hs => ?_⟩
  · rintro s rfl
    exact Sample.accepted_provider
  · exact absurd (hne.symm.trans ((hempty u hu.mem hx).mpr hs)) Bool.false_ne_true

end Inventory

end PluginClosure
