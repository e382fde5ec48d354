import PluginClosure.Proofs.Records.FirstFault
import PluginClosure.Proofs.Records.Returns

/-!
# Unions that are refused

A union is refused if it meets a set in another order than that of records, be it an empty one, and
for no other reason. The error names the order of the first such set. The sets of a record are met
in the sequence classes, classpath, data, and the records in that of the list. Of records of the
plugin provider, all processors come before those that generate API.

Records without elements are left out of such a union before their sets are looked at. That makes no
difference, since such a record is the canonical one, whose sets are in the order of records. A
record with elements may have an empty set in another order, which is not left out. A union of two
records does not look at the sets at all if one of the records is empty.

## Main definitions

* `PluginClosure.Processors.orders`: the orders of the sets of a record.
* `PluginClosure.Refused`: an outcome that is an error because of the first foreign order of a list.

## Main results

* `PluginClosure.PluginProvider.fault?_eq`: the fault of a union is its first foreign order.
* `PluginClosure.Inventory.refused_unions`: the unions that are refused, with their errors.
-/

namespace PluginClosure

variable {β : Type}

/-! ### Faults -/

/-- The mismatch with the order of records that comes first in a list of orders. -/
def mismatch? (os : List Order) : Option OrderMismatch :=
  (os.find? (· ≠ Processors.order)).map fun o => ⟨Processors.order, o⟩

theorem mismatch?_append (os ps : List Order) :
    mismatch? (os ++ ps) = (mismatch? os).or (mismatch? ps) := by
  rw [mismatch?, List.find?_append, Option.map_or, mismatch?, mismatch?]

theorem mismatch?_singleton {α : Type} (s : TransitiveSet α) :
    mismatch? [s.order] = s.fault? Processors.order := by
  rw [mismatch?, TransitiveSet.fault?]
  by_cases h : s.order = Processors.order <;> simp [h]

namespace Processors

/-- The orders of the sets of a record, in the sequence in which a union imports them. -/
def orders (p : Processors) : List Order := [p.classes.order, p.classpath.order, p.data.order]

theorem fault?_eq (p : Processors) : p.fault? = mismatch? p.orders := by
  have horders : p.orders = [p.classes.order] ++ ([p.classpath.order] ++ [p.data.order]) := rfl
  rw [horders, mismatch?_append, mismatch?_append, mismatch?_singleton, mismatch?_singleton,
    mismatch?_singleton, fault?]

theorem findSome?_fault?_eq (l : List Processors) :
    l.findSome? fault? = mismatch? (l.flatMap orders) := by
  induction l with
  | nil => rfl
  | cons p l ih =>
    rw [List.findSome?_cons, List.flatMap_cons, mismatch?_append, fault?_eq, ih]
    cases mismatch? p.orders <;> rfl

end Processors

/-- The orders of all sets of processors come before those of the sets of processors that generate
API. -/
theorem PluginProvider.fault?_eq (l : List PluginProvider) :
    fault? l = mismatch? ((l.map plugins).flatMap Processors.orders ++
      (l.map apiPlugins).flatMap Processors.orders) := by
  rw [fault?, mismatch?_append, Processors.findSome?_fault?_eq, Processors.findSome?_fault?_eq]

/-! ### Refusals -/

/-- The outcome is an error exactly if there is another order than that of records in a list of
orders, and the first such order is the cause. -/
def Refused (os : List Order) (x : Except OrderMismatch β) : Prop :=
  Blames (· ≠ Processors.order) (OrderMismatch.mk Processors.order) os x

theorem refused_of_mismatch? {os : List Order} {x : Except OrderMismatch β}
    (h : (∃ e, mismatch? os = some e ∧ x = .error e) ∨ (mismatch? os = none ∧ ∃ b, x = .ok b)) :
    Refused os x := by
  refine blames_of_find? ?_
  rcases h with ⟨e, he, hx⟩ | ⟨hn, hx⟩
  · obtain ⟨o, ho, rfl⟩ := Option.map_eq_some_iff.mp he
    exact Or.inl ⟨o, ho, hx⟩
  · exact Or.inr ⟨Option.map_eq_none_iff.mp hn, hx⟩

namespace Inventory

variable {i : Inventory} {r s : PluginProvider}

/-- What a union of records of processors meets is what it is refused for. Nothing is assumed about
where the records come from. -/
theorem refused_union_processors (l : List Processors) (supply : Supply) :
    Refused (l.flatMap Processors.orders) (outcome (Processors.union l) supply) := by
  refine refused_of_mismatch? ?_
  rw [← Processors.findSome?_fault?_eq]
  rcases Processors.union_eq l with ⟨e, he, hu⟩ | ⟨hn, hu⟩
  · exact Or.inl ⟨e, he, by rw [outcome, hu]; rfl⟩
  · exact Or.inr ⟨hn, _, by rw [outcome, hu]; rfl⟩

/-- Records that are left out have nothing that could be refused. -/
theorem Sound.refused_union (hi : i.Sound) {l : List PluginProvider} (hl : l ⊆ i.providers)
    (b : Bool) {supply : Supply} (hs : i.supply.next ≤ supply.next) :
    Refused ((l.map PluginProvider.plugins).flatMap Processors.orders ++
        (l.map PluginProvider.apiPlugins).flatMap Processors.orders)
      (outcome (PluginProvider.union l b) supply) := by
  refine refused_of_mismatch? ?_
  rw [← PluginProvider.fault?_eq]
  exact (hi.outcome_union hl b hs).imp id fun ⟨hn, r, hr, _⟩ => ⟨hn, r, hr⟩

/-- **Unions are refused because of foreign orders.** The records of the plugin provider are at
hand, those of processors may be any. A union of two does as the union of a list, with whatever mark
and supply, unless one of the two is empty. Then it gives back the other one as it is. -/
theorem refused_unions (h : i.Reachable) {supply : Supply} (hs : i.supply.next ≤ supply.next) :
    (∀ l : List Processors,
      Refused (l.flatMap Processors.orders) (outcome (Processors.union l) supply)) ∧
    (∀ l ⊆ i.providers, ∀ b,
      Refused ((l.map PluginProvider.plugins).flatMap Processors.orders ++
          (l.map PluginProvider.apiPlugins).flatMap Processors.orders)
        (outcome (PluginProvider.union l b) supply)) ∧
    ∀ r ∈ i.providers, ∀ s ∈ i.providers,
      (r.isEmpty = true → outcome (PluginProvider.unionTwo r s) supply = .ok s) ∧
      (r.isEmpty = false → s.isEmpty = true →
        outcome (PluginProvider.unionTwo r s) supply = .ok r) ∧
      ∀ b supply', i.supply.next ≤ supply'.next → ∀ e,
        outcome (PluginProvider.unionTwo r s) supply = .error e ↔
          r.isEmpty = false ∧ s.isEmpty = false ∧
            outcome (PluginProvider.union [r, s] b) supply' = .error e := by
  refine ⟨fun l => refused_union_processors l supply,
    fun l hl b => h.sound.refused_union hl b hs, fun r hr s hs' => ?_⟩
  rcases PluginProvider.unionTwo_spec r s with ⟨he, heq⟩ | ⟨hne, he, heq⟩ | ⟨hne, hne', heq⟩
  · rw [heq]
    refine ⟨fun _ => rfl, fun hne => absurd (hne.symm.trans he) Bool.false_ne_true, ?_⟩
    intro b supply' _ e
    exact iff_of_false (fun h => by cases h) fun ⟨hne, _⟩ =>
      absurd (hne.symm.trans he) Bool.false_ne_true
  · rw [heq]
    refine ⟨fun he => absurd (hne.symm.trans he) Bool.false_ne_true, fun _ _ => rfl, ?_⟩
    intro b supply' _ e
    exact iff_of_false (fun h => by cases h) fun ⟨_, hne, _⟩ =>
      absurd (hne.symm.trans he) Bool.false_ne_true
  · rw [heq]
    refine ⟨fun he => absurd (hne.symm.trans he) Bool.false_ne_true,
      fun _ he => absurd (hne'.symm.trans he) Bool.false_ne_true, ?_⟩
    intro b supply' hs'' e
    have hpair := pair_subset hr hs'
    have hiff := (h.sound.refused_union hpair (r.builtin && s.builtin) hs).error_iff
      (h.sound.refused_union hpair b hs'') e
    exact ⟨fun he => ⟨hne, hne', hiff.mp he⟩, fun ⟨_, _, he⟩ => hiff.mpr he⟩

/-! A record with one class, and with an empty set in another order. -/

namespace Sample

/-- A record whose data files are an empty set in another order. -/
def foreignProcessors : Processors :=
  ⟨.issued ⟨3⟩, classes, .empty .insertion, .empty .postorder⟩

/-- A record with these processors, none of which generates API. -/
def foreignProvider : PluginProvider := ⟨.issued ⟨4⟩, [], foreignProcessors, .empty, false⟩

/-- The inventory with these records. -/
def foreignInventory : Inventory :=
  { inventory with
    supply := ⟨5⟩
    files := .empty .postorder :: inventory.files
    processors := foreignProcessors :: inventory.processors
    providers := foreignProvider :: inventory.providers }

theorem reachable_foreignInventory : foreignInventory.Reachable := by
  have hset := reachable_inventory.tail (.files (.empty inventory.fileStock .postorder))
  have hprocessors := hset.tail (.processors (List.mem_cons_self (a := classes))
    (List.mem_cons_of_mem _ (List.mem_singleton_self (TransitiveSet.empty .insertion)))
    (List.mem_cons_self (a := TransitiveSet.empty .postorder)))
  exact hprocessors.tail (.provider [] List.mem_cons_self
    (List.mem_cons_of_mem _ reachable_inventory.sound.empty_mem) false)

end Sample

/-- The empty set is met after eight others, and is not met at all beside an empty record. -/
theorem refused_unions_sample :
    outcome (PluginProvider.union [.empty true, Sample.provider, Sample.foreignProvider] true) ⟨5⟩ =
        .error ⟨.insertion, .postorder⟩ ∧
      outcome (PluginProvider.unionTwo (.empty true) Sample.foreignProvider) ⟨5⟩ =
        .ok Sample.foreignProvider := by
  have hs : Sample.foreignInventory.supply.next ≤ (⟨5⟩ : Supply).next := Nat.le_refl 5
  obtain ⟨-, hunion, htwo⟩ := refused_unions Sample.reachable_foreignInventory hs
  have hforeign : Sample.foreignProvider ∈ Sample.foreignInventory.providers := List.mem_cons_self
  have hempty := Sample.reachable_foreignInventory.sound.empty_mem_providers true
  have hprovider : Sample.provider ∈ Sample.foreignInventory.providers :=
    List.mem_cons_of_mem _ List.mem_cons_self
  refine ⟨?_, (htwo _ hempty _ hforeign).1 rfl⟩
  have hl : [.empty true, Sample.provider, Sample.foreignProvider] ⊆
      Sample.foreignInventory.providers :=
    List.cons_subset.mpr ⟨hempty, pair_subset hprovider hforeign⟩
  exact ((hunion _ hl true).eq_error _).mpr
    ⟨.postorder, firstWith_iff_find?.mpr rfl, rfl⟩

end Inventory

end PluginClosure
