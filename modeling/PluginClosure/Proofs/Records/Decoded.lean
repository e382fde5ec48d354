import PluginClosure.Proofs.Records.EqualParts
import PluginClosure.Proofs.Records.Operations
import PluginClosure.Proofs.Records.Returns
import PluginClosure.Proofs.Records.UnionContents

/-!
# Decoded records

A union of records is refused if it meets a set in another order than that of records. Records with
such sets exist, since sets of any order can be put into a record directly. They do not come from
values: a struct with a set in another order is refused when it is read, an empty set included.
Records that are read from structs, or made of lists of elements, and whatever is made of such
records later on, therefore have all their sets in the order of records, and their unions succeed.

A record is *decoded* if it was made in one of these ways. The supply and the log that an operation
starts with are left open, so that the records of all histories are covered.

## Main definitions

* `PluginClosure.Processors.Decoded`, `PluginClosure.PluginProvider.Decoded`: decoded records.

## Main results

* `PluginClosure.Processors.Decoded.inOrder`, `PluginClosure.PluginProvider.Decoded.inOrder`: their
  sets are in the order of records.
* `PluginClosure.PluginProvider.Decoded.parts`: the parts of a decoded record are decoded records.
* `PluginClosure.decoded_unions`: their unions succeed, and are decoded records.
-/

namespace PluginClosure

/-! ### Orders of sets -/

namespace Processors

variable {l : List Processors} {p : Processors} {supply : Supply}

theorem inOrder_empty : empty.InOrder := ⟨rfl, rfl, rfl⟩

theorem inOrder_create {classes : TransitiveSet String} {classpath data : TransitiveSet File}
    (hc : classes.order = order) (hp : classpath.order = order) (hd : data.order = order)
    (supply : Supply) : ((create classes classpath data).run supply).1.InOrder := by
  rcases create_spec classes classpath data supply with ⟨-, h⟩ | ⟨-, h⟩
  · rw [h]
    exact inOrder_empty
  · rw [h]
    exact ⟨hc, hp, hd⟩

theorem inOrder_ofLists (classes : List String) (classpath data : List File) (supply : Supply) :
    ((ofLists classes classpath data).run supply).1.InOrder :=
  inOrder_create (TransitiveSet.ofList_spec order classes _).1
    (TransitiveSet.ofList_spec order classpath _).1 (TransitiveSet.ofList_spec order data _).1 _

/-- Each set is read under the condition that it is in the order of records. -/
theorem inOrder_of_ofFields {f : Fields Value} (h : (ofFields f).MayReturn p) : p.InOrder := by
  obtain ⟨classes, classpath, data, supply, hc, hp, hd, rfl⟩ := mayReturn_ofFields h
  obtain ⟨-, -, -, hc⟩ := readSet_eq_ok hc
  obtain ⟨-, -, -, hp⟩ := readSet_eq_ok hp
  obtain ⟨-, -, -, hd⟩ := readSet_eq_ok hd
  exact inOrder_create hc hp hd supply

theorem inOrder_unite (l : List Processors) (supply : Supply) :
    ((unite l).run supply).1.InOrder :=
  inOrder_create (TransitiveSet.order_ofCalls order _ _) (TransitiveSet.order_ofCalls order _ _)
    (TransitiveSet.order_ofCalls order _ _) _

/-- What a union returns is in the order of records, whatever it was made of. -/
theorem inOrder_of_union (h : Inventory.outcome (union l) supply = .ok p) : p.InOrder := by
  rcases union_eq l with ⟨e, -, hu⟩ | ⟨-, hu⟩
  · rw [Inventory.outcome, hu] at h
    cases h
  · rw [Inventory.outcome, hu] at h
    cases h
    exact inOrder_unite l supply

theorem exists_union (hl : ∀ q ∈ l, q.InOrder) (supply : Supply) :
    ∃ p, Inventory.outcome (union l) supply = .ok p := by
  rcases union_eq l with ⟨e, he, -⟩ | ⟨-, hu⟩
  · obtain ⟨q, hq, he⟩ := List.exists_of_findSome?_eq_some he
    exact absurd (he.symm.trans (fault?_eq_none_iff_inOrder.mpr (hl q hq)))
      (Option.some_ne_none e)
  · exact ⟨_, by rw [Inventory.outcome, hu]; rfl⟩

end Processors

namespace PluginProvider

variable {l : List PluginProvider}

/-- What a union of records unites are parts of these records. -/
theorem forall_mem_parts {P : Processors → Prop} {part : PluginProvider → Processors}
    (h : ∀ s ∈ l, P (part s)) : ∀ p ∈ (l.map part).filter (!·.isEmpty), P p := by
  intro p hp
  obtain ⟨s, hs, rfl⟩ := List.mem_map.mp (List.mem_of_mem_filter hp)
  exact h s hs

theorem exists_union (hl : ∀ s ∈ l, s.plugins.InOrder ∧ s.apiPlugins.InOrder) (b : Bool)
    (supply : Supply) : ∃ r, Inventory.outcome (union l b) supply = .ok r := by
  rw [union]
  split
  · exact ⟨_, rfl⟩
  · obtain ⟨p, hp⟩ := Processors.exists_union (forall_mem_parts fun s hs => (hl s hs).1) supply
    rw [Inventory.outcome_bind_of_ok hp]
    obtain ⟨q, hq⟩ := Processors.exists_union (forall_mem_parts fun s hs => (hl s hs).2) _
    rw [Inventory.outcome_bind_of_ok hq]
    exact ⟨_, rfl⟩

theorem exists_unionTwo {r s : PluginProvider} (hr : r.plugins.InOrder ∧ r.apiPlugins.InOrder)
    (hs : s.plugins.InOrder ∧ s.apiPlugins.InOrder) (supply : Supply) :
    ∃ u, Inventory.outcome (unionTwo r s) supply = .ok u := by
  rcases unionTwo_spec r s with ⟨-, h⟩ | ⟨-, -, h⟩ | ⟨-, -, h⟩
  · exact ⟨s, by rw [h]; rfl⟩
  · exact ⟨r, by rw [h]; rfl⟩
  · rw [h]
    exact exists_union (List.forall_mem_cons.mpr ⟨hr, List.forall_mem_singleton.mpr hs⟩) _ supply

end PluginProvider

theorem Slots.exists_union {x : Slots}
    (hc : ∀ r ∈ x.current, r.plugins.InOrder ∧ r.apiPlugins.InOrder)
    (hl : ∀ r ∈ x.legacy, r.plugins.InOrder ∧ r.apiPlugins.InOrder) (log : Log)
    (supply : Supply) : ∃ u, (x.union.outcome log supply).1 = .ok u := by
  obtain ⟨_ | r, _ | s⟩ := x
  · exact ⟨none, rfl⟩
  · exact ⟨some s, rfl⟩
  · exact ⟨some r, rfl⟩
  · obtain ⟨u, hu⟩ := PluginProvider.exists_unionTwo (hc r rfl) (hl s rfl) supply
    exact ⟨some u, by rw [Slots.outcome_union_both, hu]; rfl⟩

/-! ### Decoded records -/

/-- The record was made of lists of elements, was read from a struct, or is a union of such records.
The struct may hold anything. A value that is a record already is given back when it is read, and is
not listed. -/
inductive Processors.Decoded : Processors → Prop
  | empty : Decoded .empty
  | ofLists (classes : List String) (classpath data : List File) (supply : Supply) :
      Decoded ((ofLists classes classpath data).run supply).1
  | ofStruct {f : Fields Value} {p : Processors} (h : (ofValue (.struct f)).MayReturn p) :
      Decoded p
  | union {l : List Processors} {supply : Supply} {p : Processors} (hl : ∀ q ∈ l, Decoded q)
      (h : Inventory.outcome (union l) supply = .ok p) : Decoded p

/-- The fields for processors may hold anything. If they hold records, these are decoded ones. -/
def Fields.HoldsDecoded (f : Fields Value) : Prop :=
  ∀ name ∈ [PluginProvider.pluginsField, PluginProvider.apiPluginsField], ∀ p,
    f.get? name = some (.processors p) → p.Decoded

/-- The record was made of decoded records of processors, or is a union of such records. An instance
that is a record already is given back when it is read, and is not listed. -/
inductive PluginProvider.Decoded : PluginProvider → Prop
  | empty (b : Bool) : Decoded (.empty b)
  /-- The check that `create` adds is not asked for. -/
  | make (outputs : List CompiledOutput) {plugins apiPlugins : Processors} (hp : plugins.Decoded)
      (ha : apiPlugins.Decoded) (b : Bool) (supply : Supply) :
        Decoded ((make outputs plugins apiPlugins b).run supply).1
  | ofInstance {k : ProviderKey} {f : Fields Value} {r : PluginProvider} (hf : f.HoldsDecoded)
      (h : (ofInstance (.generic k f)).MayReturn r) : Decoded r
  | ofCompilation {k : ProviderKey} {f : Fields Value} {r : PluginProvider} (hf : f.HoldsDecoded)
      (h : (ofCompilation (.generic k f)).MayReturn r) : Decoded r
  | union {l : List PluginProvider} {b : Bool} {supply : Supply} {r : PluginProvider}
      (hl : ∀ s ∈ l, Decoded s) (h : Inventory.outcome (union l b) supply = .ok r) : Decoded r
  | unionTwo {r s u : PluginProvider} {supply : Supply} (hr : Decoded r) (hs : Decoded s)
      (h : Inventory.outcome (unionTwo r s) supply = .ok u) : Decoded u
  | slots {x : Slots} {r : PluginProvider} (hc : ∀ s ∈ x.current, Decoded s)
      (hl : ∀ s ∈ x.legacy, Decoded s) (h : x.union.MayReturn (some r)) : Decoded r

/-- All sets of a decoded record are in the order of records. -/
theorem Processors.Decoded.inOrder {p : Processors} (h : p.Decoded) : p.InOrder := by
  cases h with
  | empty => exact inOrder_empty
  | ofLists classes classpath data supply => exact inOrder_ofLists classes classpath data supply
  | ofStruct h =>
    rcases mayReturn_ofValue.mp h with hv | ⟨g, hv, h⟩
    · cases hv
    · exact inOrder_of_ofFields h
  | union hl h => exact inOrder_of_union h

namespace PluginProvider

variable {f : Fields Value} {r s u : PluginProvider}

theorem decoded_of_readProcessors (hf : f.HoldsDecoded) {name : String}
    (hname : name ∈ [pluginsField, apiPluginsField]) {p : Processors}
    (h : (readProcessors f name).MayReturn p) : p.Decoded := by
  obtain ⟨v, hv, h⟩ := mayReturn_readProcessors h
  rcases Processors.mayReturn_ofValue.mp h with rfl | ⟨g, rfl, -⟩
  · exact hf name hname p hv
  · exact .ofStruct h

theorem ReadFrom.decoded {o : Origin} (h : r.ReadFrom f o) (hf : f.HoldsDecoded) :
    r.plugins.Decoded ∧ r.apiPlugins.Decoded :=
  ⟨decoded_of_readProcessors hf List.mem_cons_self h.plugins,
    decoded_of_readProcessors hf (List.mem_cons_of_mem _ List.mem_cons_self) h.apiPlugins⟩

theorem decoded_of_union {l : List PluginProvider} {b : Bool} {supply : Supply}
    (hl : ∀ s ∈ l, s.plugins.Decoded ∧ s.apiPlugins.Decoded)
    (h : Inventory.outcome (union l b) supply = .ok r) :
    r.plugins.Decoded ∧ r.apiPlugins.Decoded := by
  rcases union_parts h with rfl | ⟨s₁, s₂, hp, ha⟩
  · exact ⟨.empty, .empty⟩
  · exact ⟨.union (forall_mem_parts fun s hs => (hl s hs).1) hp,
      .union (forall_mem_parts fun s hs => (hl s hs).2) ha⟩

theorem decoded_of_unionTwo {supply : Supply} (hr : r.plugins.Decoded ∧ r.apiPlugins.Decoded)
    (hs : s.plugins.Decoded ∧ s.apiPlugins.Decoded)
    (h : Inventory.outcome (unionTwo r s) supply = .ok u) :
    u.plugins.Decoded ∧ u.apiPlugins.Decoded := by
  rcases unionTwo_result h with rfl | rfl | h
  · exact hr
  · exact hs
  · exact decoded_of_union (List.forall_mem_cons.mpr ⟨hr, List.forall_mem_singleton.mpr hs⟩) h

/-- A record that is made of decoded records of processors has decoded parts, however it came
about. -/
theorem Decoded.parts (h : r.Decoded) : r.plugins.Decoded ∧ r.apiPlugins.Decoded := by
  induction h with
  | empty b => exact ⟨.empty, .empty⟩
  | make outputs hp ha b supply => exact ⟨hp, ha⟩
  | ofInstance hf h =>
    rcases mayReturn_ofInstance.mp h with heq | ⟨o, g, heq, h⟩
    · cases heq
    · cases heq
      exact (mayReturn_ofFields h).decoded hf
  | ofCompilation hf h =>
    obtain ⟨o, g, heq, h⟩ := mayReturn_ofCompilation.mp h
    cases heq
    rcases mayReturn_ofCompilationFields h with rfl | ⟨hr, -⟩
    · exact ⟨.empty, .empty⟩
    · exact hr.decoded hf
  | union hl h ih => exact decoded_of_union ih h
  | unionTwo hr hs h ihr ihs => exact decoded_of_unionTwo ihr ihs h
  | slots hc hl h ihc ihl =>
    obtain ⟨log, supply, h⟩ := h
    rcases Slots.union_result h with h | h | ⟨r, hr, s, hs, h⟩
    · exact ihc _ h
    · exact ihl _ h
    · exact decoded_of_unionTwo (ihc r hr) (ihl s hs) h

/-- All sets of a decoded record are in the order of records. -/
theorem Decoded.inOrder (h : r.Decoded) : r.plugins.InOrder ∧ r.apiPlugins.InOrder :=
  h.parts.imp Processors.Decoded.inOrder Processors.Decoded.inOrder

end PluginProvider

/-! ### Unions of decoded records -/

/-- **Decoded records can be united.** Every set of a decoded record, be it an empty one, is in the
order of records, and the parts of a record are decoded with it. No union of decoded records is
refused, whichever of the unions it is, and its result is a decoded record again. -/
theorem decoded_unions :
    (∀ p : Processors, p.Decoded → p.InOrder) ∧
    (∀ r : PluginProvider, r.Decoded →
      (r.plugins.Decoded ∧ r.apiPlugins.Decoded) ∧ r.plugins.InOrder ∧ r.apiPlugins.InOrder) ∧
    (∀ l : List Processors, (∀ p ∈ l, p.Decoded) → ∀ supply,
      ∃ p, Inventory.outcome (Processors.union l) supply = .ok p ∧ p.Decoded) ∧
    (∀ l : List PluginProvider, (∀ r ∈ l, r.Decoded) → ∀ b supply,
      ∃ r, Inventory.outcome (PluginProvider.union l b) supply = .ok r ∧ r.Decoded) ∧
    (∀ r s : PluginProvider, r.Decoded → s.Decoded → ∀ supply,
      ∃ u, Inventory.outcome (PluginProvider.unionTwo r s) supply = .ok u ∧ u.Decoded) ∧
    ∀ x : Slots, (∀ r ∈ x.current, r.Decoded) → (∀ r ∈ x.legacy, r.Decoded) → ∀ log supply,
      ∃ u, (x.union.outcome log supply).1 = .ok u ∧ ∀ r ∈ u, r.Decoded := by
  refine ⟨fun p hp => hp.inOrder, fun r hr => ⟨hr.parts, hr.inOrder⟩, ?_, ?_, ?_, ?_⟩
  · intro l hl supply
    obtain ⟨p, hp⟩ := Processors.exists_union (fun q hq => (hl q hq).inOrder) supply
    exact ⟨p, hp, .union hl hp⟩
  · intro l hl b supply
    obtain ⟨r, hr⟩ := PluginProvider.exists_union (fun s hs => (hl s hs).inOrder) b supply
    exact ⟨r, hr, .union hl hr⟩
  · intro r s hr hs supply
    obtain ⟨u, hu⟩ := PluginProvider.exists_unionTwo hr.inOrder hs.inOrder supply
    exact ⟨u, hu, .unionTwo hr hs hu⟩
  · intro x hc hl log supply
    obtain ⟨u, hu⟩ := Slots.exists_union (fun r hr => (hc r hr).inOrder)
      (fun r hr => (hl r hr).inOrder) log supply
    refine ⟨u, hu, ?_⟩
    rintro r rfl
    exact .slots hc hl ⟨log, supply, hu⟩

/-- The fields of a struct with one class and two empty sets. -/
def Inventory.Sample.fields : Fields Value := .ofList [
  (Processors.classesField, .strings classes),
  (Processors.classpathField, .strings (.empty .insertion)),
  (Processors.dataField, .files (.empty .insertion))]

/-- The record that is read from the struct can be united with itself and with the empty record. -/
theorem decoded_unions_sample : ∃ p : Processors,
    (Processors.ofValue (.struct Inventory.Sample.fields)).MayReturn p ∧ p.isEmpty = false ∧
      p.InOrder ∧ ∃ q, Inventory.outcome (Processors.union [p, .empty, p]) ⟨8⟩ = .ok q ∧
        q.Decoded := by
  have hread : (Processors.ofValue (.struct Inventory.Sample.fields)).MayReturn
      { Inventory.Sample.processors with id := .issued ⟨7⟩ } := ⟨[], ⟨7⟩, rfl⟩
  obtain ⟨horder, -, hunion, -⟩ := decoded_unions
  refine ⟨_, hread, rfl, horder _ (.ofStruct hread), hunion _ ?_ ⟨8⟩⟩
  exact List.forall_mem_cons.mpr ⟨.ofStruct hread,
    List.forall_mem_cons.mpr ⟨.empty, List.forall_mem_singleton.mpr (.ofStruct hread)⟩⟩

end PluginClosure
