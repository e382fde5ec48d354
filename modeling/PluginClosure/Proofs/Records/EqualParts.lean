import PluginClosure.Proofs.Records.Contents
import PluginClosure.Proofs.Records.Returns
import PluginClosure.Proofs.TransitiveSet.EqualParts

/-!
# Records made of equal parts

Equal records may be different objects, and different nodes may be behind their sets. No operation
tells them apart, except for the question whether two objects are one and the same. If the records
that are to be united are replaced by equal ones, the union is refused with the same error as
before, or its result is equal to the one before. The same is true of the sets that are imported
into a draft.

The two runs that are compared may start with different supplies, and issue serial numbers of their
own. Their results are therefore compared by contents, of which `==` is a consequence.

## Main definitions

* `PluginClosure.Agrees`: the same error, or results that are related.
* `PluginClosure.Stock.Indifferent`, `PluginClosure.Inventory.Indifferent`: operations do not tell
  equal sets, or equal records, apart.

## Main results

* `PluginClosure.Processors.sums_congr`, `PluginClosure.PluginProvider.sums_congr`: what sums
  records also sums records alike.
* `PluginClosure.equal_parts`: equal parts make equal wholes.
-/

namespace PluginClosure

/-! ### Sums of records alike -/

theorem forall_mem_iff_of_forall₂ {β γ : Type} {R : β → γ → Prop} {P : β → Prop} {Q : γ → Prop}
    (hR : ∀ b c, R b c → (P b ↔ Q c)) {l : List β} {k : List γ} (h : List.Forall₂ R l k) :
    (∀ b ∈ l, P b) ↔ ∀ c ∈ k, Q c := by
  induction h with
  | nil => exact ⟨fun _ _ h => absurd h List.not_mem_nil, fun _ _ h => absurd h List.not_mem_nil⟩
  | cons hbc _ ih => rw [List.forall_mem_cons, List.forall_mem_cons, hR _ _ hbc, ih]

theorem flatMap_eq_of_forall₂ {β γ δ : Type} {R : β → γ → Prop} {f : β → List δ} {g : γ → List δ}
    (hR : ∀ b c, R b c → f b = g c) {l : List β} {k : List γ} (h : List.Forall₂ R l k) :
    l.flatMap f = k.flatMap g := by
  induction h with
  | nil => rfl
  | cons hbc _ ih => rw [List.flatMap_cons, List.flatMap_cons, hR _ _ hbc, ih]

theorem findSome?_eq_of_forall₂ {β γ δ : Type} {R : β → γ → Prop} {f : β → Option δ}
    {g : γ → Option δ} (hR : ∀ b c, R b c → f b = g c) {l : List β} {k : List γ}
    (h : List.Forall₂ R l k) : l.findSome? f = k.findSome? g := by
  induction h with
  | nil => rfl
  | cons hbc _ ih => rw [List.findSome?_cons, List.findSome?_cons, hR _ _ hbc, ih]

/-- What follows from one relation for the objects of a list follows for pairs of sequences of such
objects. -/
theorem forall₂_imp_of_subset {β : Type} {R S : β → β → Prop} {m l k : List β}
    (hRS : ∀ b ∈ m, ∀ c ∈ m, R b c → S b c) (hl : l ⊆ m) (hk : k ⊆ m) (h : List.Forall₂ R l k) :
    List.Forall₂ S l k := by
  induction h with
  | nil => exact .nil
  | cons hbc _ ih =>
    rw [List.cons_subset] at hl hk
    exact .cons (hRS _ hl.1 _ hk.1 hbc) (ih hl.2 hk.2)

namespace TransitiveSet

variable {α : Type} [BEq α] [Hashable α] {t : TransitiveSet α} {l k : List (TransitiveSet α)}

theorem sums_congr (h : List.Forall₂ Alike l k) : t.Sums l ↔ t.Sums k := by
  have ho : (∀ s ∈ l, s.order = Processors.order) ↔ ∀ s ∈ k, s.order = Processors.order :=
    forall_mem_iff_of_forall₂ (fun _ _ hs => by rw [hs.order]) h
  have he : (∀ s ∈ l, s.isEmpty = true) ↔ ∀ s ∈ k, s.isEmpty = true :=
    forall_mem_iff_of_forall₂ (fun _ _ hs => hs.isEmpty) h
  have hl : l.flatMap toList = k.flatMap toList :=
    flatMap_eq_of_forall₂ (fun _ _ hs => hs.toList) h
  constructor
  · intro ht
    exact ⟨ht.order.trans ho, ht.isEmpty.trans he, hl ▸ ht.toList⟩
  · intro ht
    exact ⟨ht.order.trans ho.symm, ht.isEmpty.trans he.symm, hl ▸ ht.toList⟩

end TransitiveSet

namespace Processors

variable {p q : Processors} {l k : List Processors}

theorem Alike.isEmpty_eq (h : p.Alike q) : p.isEmpty = q.isEmpty := by
  rw [isEmpty, isEmpty, Bool.eq_iff_iff.mpr h.classes.isEmpty,
    Bool.eq_iff_iff.mpr h.classpath.isEmpty, Bool.eq_iff_iff.mpr h.data.isEmpty]

/-- What sums records also sums records alike. -/
theorem sums_congr (h : List.Forall₂ Alike l k) : p.Sums l ↔ p.Sums k := by
  rw [sums_iff, sums_iff, TransitiveSet.sums_congr (List.rel_map (fun _ _ h => h.classes) h),
    TransitiveSet.sums_congr (List.rel_map (fun _ _ h => h.classpath) h),
    TransitiveSet.sums_congr (List.rel_map (fun _ _ h => h.data) h)]

theorem findSome?_fault?_congr (h : List.Forall₂ Alike l k) :
    l.findSome? fault? = k.findSome? fault? :=
  findSome?_eq_of_forall₂ (fun _ _ h => h.fault?_eq) h

end Processors

namespace PluginProvider

variable {r s : PluginProvider} {l k : List PluginProvider} {b : Bool}

theorem Alike.isEmpty_eq (h : r.Alike s) : r.isEmpty = s.isEmpty := h.plugins.isEmpty_eq

theorem Alike.hasProcessors_eq (h : r.Alike s) : r.hasProcessors = s.hasProcessors := by
  rw [hasProcessors, hasProcessors, Bool.eq_iff_iff.mpr h.plugins.classes.isEmpty]

theorem fault?_congr (h : List.Forall₂ Alike l k) : fault? l = fault? k := by
  rw [fault?, fault?, Processors.findSome?_fault?_congr (List.rel_map (fun _ _ h => h.plugins) h),
    Processors.findSome?_fault?_congr (List.rel_map (fun _ _ h => h.apiPlugins) h)]

/-- What sums records also sums records alike. -/
theorem sums_congr (h : List.Forall₂ Alike l k) : r.Sums l b ↔ r.Sums k b := by
  have hb : l.all PluginProvider.builtin = k.all PluginProvider.builtin := by
    rw [Bool.eq_iff_iff, List.all_eq_true, List.all_eq_true]
    exact forall_mem_iff_of_forall₂ (fun _ _ h => by rw [h.builtin]) h
  rw [sums_iff, sums_iff, hb, Processors.sums_congr (List.rel_map (fun _ _ h => h.plugins) h),
    Processors.sums_congr (List.rel_map (fun _ _ h => h.apiPlugins) h)]

end PluginProvider

/-! ### Agreement -/

/-- Both outcomes are the same error, or both are results, and these are related. -/
inductive Agrees {ε β γ : Type} (R : β → γ → Prop) : Except ε β → Except ε γ → Prop
  | error (e : ε) : Agrees R (.error e) (.error e)
  | ok {b : β} {c : γ} (h : R b c) : Agrees R (.ok b) (.ok c)

theorem Agrees.map {ε β γ β' γ' : Type} {R : β → γ → Prop} {S : β' → γ' → Prop} {f : β → β'}
    {g : γ → γ'} {x : Except ε β} {y : Except ε γ} (h : Agrees R x y)
    (hf : ∀ b c, R b c → S (f b) (g c)) : Agrees S (x.map f) (y.map g) := by
  cases h with
  | error e => exact .error e
  | ok h => exact .ok (hf _ _ h)

theorem Agrees.imp {ε β γ : Type} {R S : β → γ → Prop} {x : Except ε β} {y : Except ε γ}
    (h : Agrees R x y) (hRS : ∀ b c, R b c → S b c) : Agrees S x y := by
  cases h with
  | error e => exact .error e
  | ok h => exact .ok (hRS _ _ h)

/-- Outcomes with the same fault, if there is one, agree. -/
theorem agrees_of_fault {ε β γ : Type} {R : β → γ → Prop} {P : β → Prop} {Q : γ → Prop}
    {x : Except ε β} {y : Except ε γ} {fault : Option ε}
    (hx : (∃ e, fault = some e ∧ x = .error e) ∨ (fault = none ∧ ∃ b, x = .ok b ∧ P b))
    (hy : (∃ e, fault = some e ∧ y = .error e) ∨ (fault = none ∧ ∃ c, y = .ok c ∧ Q c))
    (hR : fault = none → ∀ b c, P b → Q c → R b c) : Agrees R x y := by
  rcases hx with ⟨e, he, rfl⟩ | ⟨hn, b, rfl, hb⟩
  · obtain ⟨e', he', rfl⟩ := hy.resolve_right fun hn => by simp [he] at hn
    obtain rfl : e = e' := Option.some.inj (he.symm.trans he')
    exact .error e
  · obtain ⟨-, c, rfl, hc⟩ := hy.resolve_left fun ⟨e, he, _⟩ => by simp [hn] at he
    exact .ok (hR hn b c hb hc)

namespace Inventory

variable {i j : Inventory}

theorem Sound.union_processors_congr (h : i.Sound) {l k : List Processors} (hl : l ⊆ i.processors)
    (hk : k ⊆ i.processors) (hlk : List.Forall₂ Processors.Alike l k) {s₁ s₂ : Supply}
    (h₁ : i.supply.next ≤ s₁.next) (h₂ : i.supply.next ≤ s₂.next) :
    Agrees Processors.Alike (outcome (Processors.union l) s₁)
      (outcome (Processors.union k) s₂) := by
  have hunion := h.outcome_union_processors hk h₂
  -- The fault, if there is one, is the same for both lists.
  rw [← Processors.findSome?_fault?_congr hlk] at hunion
  refine agrees_of_fault (h.outcome_union_processors hl h₁) hunion fun hn p q hp hq => ?_
  exact hp.alike ((Processors.sums_congr hlk).mpr hq) (List.findSome?_eq_none_iff.mp hn)

/-- The two lists may belong to histories that have parted. -/
theorem Sound.union_congr (h : i.Sound) (h' : j.Sound) {l k : List PluginProvider}
    (hl : l ⊆ i.providers) (hk : k ⊆ j.providers) (hlk : List.Forall₂ PluginProvider.Alike l k)
    (b : Bool) {s₁ s₂ : Supply} (h₁ : i.supply.next ≤ s₁.next) (h₂ : j.supply.next ≤ s₂.next) :
    Agrees PluginProvider.Alike (outcome (PluginProvider.union l b) s₁)
      (outcome (PluginProvider.union k b) s₂) := by
  have hunion := h'.outcome_union hk b h₂
  rw [← PluginProvider.fault?_congr hlk] at hunion
  refine agrees_of_fault (h.outcome_union hl b h₁) hunion fun hn r s hr hs => ?_
  exact hr.toSums.alike ((PluginProvider.sums_congr hlk).mpr hs.toSums) hn
    (hr.outputs.trans hs.outputs.symm)

/-- The short cuts of a union of two are taken by equal records together. -/
theorem Sound.unionTwo_congr (h : i.Sound) (h' : j.Sound) {r r' s s' : PluginProvider}
    (hr : r ∈ i.providers) (hr' : r' ∈ j.providers) (hs : s ∈ i.providers)
    (hs' : s' ∈ j.providers) (hrr' : r.Alike r') (hss' : s.Alike s') {s₁ s₂ : Supply}
    (h₁ : i.supply.next ≤ s₁.next) (h₂ : j.supply.next ≤ s₂.next) :
    Agrees PluginProvider.Alike (outcome (PluginProvider.unionTwo r s) s₁)
      (outcome (PluginProvider.unionTwo r' s') s₂) := by
  rw [PluginProvider.unionTwo, PluginProvider.unionTwo, hrr'.isEmpty_eq, hss'.isEmpty_eq,
    hrr'.builtin, hss'.builtin]
  split
  · exact .ok hss'
  · split
    · exact .ok hrr'
    · exact h.union_congr h' (pair_subset hr hs) (pair_subset hr' hs')
        (.cons hrr' (.cons hss' .nil)) _ h₁ h₂

end Inventory

/-- Slot by slot, both are free, or both hold records that are related. -/
structure Slots.Related (R : PluginProvider → PluginProvider → Prop) (x y : Slots) : Prop where
  current : Option.Rel R x.current y.current
  legacy : Option.Rel R x.legacy y.legacy

/-- Slots that hold equal records make equal records, or fail with the same error. The events that
are noted are the same. -/
theorem Inventory.Sound.slots_union_congr {i j : Inventory} (h : i.Sound) (h' : j.Sound)
    {x y : Slots} (hx : x.Within i) (hy : y.Within j) (hxy : x.Related PluginProvider.Alike y)
    (log : Log) {s₁ s₂ : Supply} (h₁ : i.supply.next ≤ s₁.next) (h₂ : j.supply.next ≤ s₂.next) :
    Agrees (Option.Rel PluginProvider.Alike) (Attempt.outcome x.union log s₁).1
        (Attempt.outcome y.union log s₂).1 ∧
      (Attempt.outcome x.union log s₁).2 = (Attempt.outcome y.union log s₂).2 := by
  obtain ⟨xc, xl⟩ := x
  obtain ⟨yc, yl⟩ := y
  obtain ⟨hc, hl⟩ := hxy
  cases hc with
  | none =>
    cases hl with
    | none => exact ⟨.ok .none, rfl⟩
    | some hl => exact ⟨.ok (.some hl), rfl⟩
  | some hc =>
    cases hl with
    | none => exact ⟨.ok (.some hc), rfl⟩
    | some hl =>
      have htwo := h.unionTwo_congr h' (hx.current _ rfl) (hy.current _ rfl) (hx.legacy _ rfl)
        (hy.legacy _ rfl) hc hl h₁ h₂
      rw [Slots.outcome_union_both, Slots.outcome_union_both, hc.builtin, hl.builtin]
      exact ⟨htwo.map fun _ _ h => .some h, rfl⟩

/-! ### Equal parts -/

/-- Building does not tell equal sets at hand apart. A set is refused with the same error as an
equal one. If imports of a draft give way to equal sets, it still comes to an equal set. -/
structure Stock.Indifferent {α : Type} [BEq α] [Hashable α] (st : Stock α) : Prop where
  isEmpty : ∀ s ∈ st.sets, ∀ t ∈ st.sets, (s == t) = true → s.isEmpty = t.isEmpty
  addSet : ∀ s ∈ st.sets, ∀ t ∈ st.sets, (s == t) = true → ∀ (o : Order)
    (calls calls' : List (Draft.Call α)) (supply supply' : Supply) (e : OrderMismatch),
      ((Draft.ofCalls o calls).run supply).1.addSet s = .error e ↔
        ((Draft.ofCalls o calls').run supply').1.addSet t = .error e
  draft : ∀ (o : Order) (calls calls' : List (Draft.Call α)),
    List.Forall₂ st.Replaces calls calls' → ∀ supply supply' : Supply,
      ((Draft.ofCalls o calls).run supply).1.isEmpty =
        ((Draft.ofCalls o calls').run supply').1.isEmpty
  ofCalls : ∀ (o : Order) (calls calls' : List (Draft.Call α)),
    List.Forall₂ st.Replaces calls calls' → ∀ supply supply' : Supply,
      st.supply.next ≤ supply.next → st.supply.next ≤ supply'.next →
        (((TransitiveSet.ofCalls o calls).run supply).1 ==
          ((TransitiveSet.ofCalls o calls').run supply').1) = true

/-- Neither building nor uniting tells equal sets, or equal records, at hand apart. If records give
way to equal ones, their union is refused with the same error, or it is equal to the one that it
was. -/
structure Inventory.Indifferent (i : Inventory) : Prop where
  strings : i.stringStock.Indifferent
  files : i.fileStock.Indifferent
  processorsIsEmpty : ∀ p ∈ i.processors, ∀ q ∈ i.processors, (p == q) = true →
    p.isEmpty = q.isEmpty
  isEmpty : ∀ r ∈ i.providers, ∀ s ∈ i.providers, (r == s) = true → r.isEmpty = s.isEmpty
  hasProcessors : ∀ r ∈ i.providers, ∀ s ∈ i.providers, (r == s) = true →
    r.hasProcessors = s.hasProcessors
  processorsUnion : ∀ l ⊆ i.processors, ∀ k ⊆ i.processors,
    List.Forall₂ (fun p q => (p == q) = true) l k → ∀ s₁ s₂ : Supply,
      i.supply.next ≤ s₁.next → i.supply.next ≤ s₂.next →
        Agrees (fun p q => (p == q) = true) (outcome (Processors.union l) s₁)
          (outcome (Processors.union k) s₂)
  union : ∀ l ⊆ i.providers, ∀ k ⊆ i.providers,
    List.Forall₂ (fun r s => (r == s) = true) l k → ∀ (b : Bool) (s₁ s₂ : Supply),
      i.supply.next ≤ s₁.next → i.supply.next ≤ s₂.next →
        Agrees (fun r s => (r == s) = true) (outcome (PluginProvider.union l b) s₁)
          (outcome (PluginProvider.union k b) s₂)
  unionTwo : ∀ r ∈ i.providers, ∀ r' ∈ i.providers, ∀ s ∈ i.providers, ∀ s' ∈ i.providers,
    (r == r') = true → (s == s') = true → ∀ s₁ s₂ : Supply,
      i.supply.next ≤ s₁.next → i.supply.next ≤ s₂.next →
        Agrees (fun r s => (r == s) = true) (outcome (PluginProvider.unionTwo r s) s₁)
          (outcome (PluginProvider.unionTwo r' s') s₂)
  slots : ∀ x y : Slots, x.Within i → y.Within i → x.Related (fun r s => (r == s) = true) y →
    ∀ (log : Log) (s₁ s₂ : Supply), i.supply.next ≤ s₁.next → i.supply.next ≤ s₂.next →
      Agrees (Option.Rel fun r s => (r == s) = true) (Attempt.outcome x.union log s₁).1
          (Attempt.outcome y.union log s₂).1 ∧
        (Attempt.outcome x.union log s₁).2 = (Attempt.outcome y.union log s₂).2

theorem Stock.Sound.indifferent {α : Type} [BEq α] [Hashable α] [EquivBEq α] [LawfulHashable α]
    {st : Stock α} (h : st.Sound) : st.Indifferent where
  isEmpty s hs t ht heq := (h.matches_of_beq hs ht heq).isEmpty
  addSet s hs t ht heq o calls calls' := h.addSet_eq_error_iff o calls calls' hs ht heq
  draft o calls calls' hc supply supply' := by
    have hset := (h.ofCalls_replaces o hc (Nat.le_refl _) (Nat.le_refl _)).isEmpty
    rw [Bool.eq_iff_iff, TransitiveSet.isEmpty_ofCalls, TransitiveSet.isEmpty_ofCalls] at hset
    rw [Bool.eq_iff_iff, Draft.isEmpty_iff, Draft.isEmpty_iff, (Draft.ofCalls_spec o _ _).2.1,
      (Draft.ofCalls_spec o _ _).2.1, hset]
  ofCalls o calls calls' hc supply supply' hle hle' := (h.ofCalls_replaces o hc hle hle').beq

namespace Inventory

variable {i : Inventory}

theorem Sound.option_alike_of_beq (h : i.Sound) {x y : Option PluginProvider}
    (hx : ∀ r ∈ x, r ∈ i.providers) (hy : ∀ r ∈ y, r ∈ i.providers)
    (hxy : Option.Rel (fun r s => (r == s) = true) x y) : Option.Rel PluginProvider.Alike x y := by
  cases hxy with
  | none => exact .none
  | some heq => exact .some (h.alike_of_beq (hx _ rfl) (hy _ rfl) heq)

theorem Sound.indifferent (h : i.Sound) : i.Indifferent where
  strings := h.strings.indifferent
  files := h.files.indifferent
  processorsIsEmpty p hp q hq heq := (h.processors_alike_of_beq hp hq heq).isEmpty_eq
  isEmpty r hr s hs heq := (h.alike_of_beq hr hs heq).isEmpty_eq
  hasProcessors r hr s hs heq := (h.alike_of_beq hr hs heq).hasProcessors_eq
  processorsUnion l hl k hk hlk s₁ s₂ h₁ h₂ := by
    refine (h.union_processors_congr hl hk ?_ h₁ h₂).imp fun _ _ hpq => hpq.beq
    exact forall₂_imp_of_subset (fun p hp q hq => h.processors_alike_of_beq hp hq) hl hk hlk
  union l hl k hk hlk b s₁ s₂ h₁ h₂ := by
    refine (h.union_congr h hl hk ?_ b h₁ h₂).imp fun _ _ hrs => hrs.beq
    exact forall₂_imp_of_subset (fun r hr s hs => h.alike_of_beq hr hs) hl hk hlk
  unionTwo r hr r' hr' s hs s' hs' hrr' hss' s₁ s₂ h₁ h₂ := by
    refine (h.unionTwo_congr h hr hr' hs hs' ?_ ?_ h₁ h₂).imp fun _ _ hrs => hrs.beq
    · exact h.alike_of_beq hr hr' hrr'
    · exact h.alike_of_beq hs hs' hss'
  slots x y hx hy hxy log s₁ s₂ h₁ h₂ := by
    have hrel : x.Related PluginProvider.Alike y :=
      ⟨h.option_alike_of_beq hx.current hy.current hxy.current,
        h.option_alike_of_beq hx.legacy hy.legacy hxy.legacy⟩
    obtain ⟨hres, hlog⟩ := h.slots_union_congr h hx hy hrel log h₁ h₂
    refine ⟨hres.imp fun a b hab => ?_, hlog⟩
    cases hab with
    | none => exact .none
    | some hrs => exact .some hrs.beq

end Inventory

/-- **Equal parts make equal wholes.** Whatever the history, neither the building of sets nor the
union of records depends on which of several equal sets or records it is given. -/
theorem equal_parts {α : Type} [BEq α] [Hashable α] [EquivBEq α] [LawfulHashable α] {st : Stock α}
    (hst : st.Reachable) {i : Inventory} (hi : i.Reachable) : st.Indifferent ∧ i.Indifferent :=
  ⟨hst.sound.indifferent, hi.sound.indifferent⟩

/-! Two equal sets, one of which has a repeated element, and two equal records. -/

namespace Twins

/-- The elements 1 and 2. -/
def left : TransitiveSet Nat := ⟨.postorder, some (.mk ⟨0⟩ [.own 1, .own 2])⟩

/-- The same elements, the first of which was added twice. -/
def right : TransitiveSet Nat := ⟨.postorder, some (.mk ⟨1⟩ [.own 1, .own 2, .own 1])⟩

/-- The stock with both sets. -/
def stock : Stock Nat := ⟨⟨2⟩, [right, left]⟩

theorem reachable_stock : stock.Reachable :=
  (Relation.ReflTransGen.single (.ofList {} .postorder [1, 2])).tail
    (.ofList _ .postorder [1, 2, 1])

theorem left_beq_right : (left == right) = true := by
  refine TransitiveSet.beq_iff.mpr ⟨rfl, Or.inr ?_⟩
  rw [(reachable_stock.sound.coherent (s := left) (by simp [stock])).toList_eq,
    (reachable_stock.sound.coherent (s := right) (by simp [stock])).toList_eq]
  rfl

/-- A second record with the contents of the sample. -/
def provider : PluginProvider := { Inventory.Sample.provider with id := .issued ⟨3⟩ }

/-- The inventory with both records. -/
def inventory : Inventory :=
  { Inventory.Sample.inventory with
    supply := ⟨4⟩
    providers := provider :: Inventory.Sample.inventory.providers }

theorem reachable_inventory : inventory.Reachable :=
  Inventory.Sample.reachable_inventory.tail
    (.provider [] List.mem_cons_self List.mem_cons_self true)

theorem provider_beq_sample : (provider == Inventory.Sample.provider) = true :=
  PluginProvider.Alike.beq ⟨rfl, .refl _, .refl _, rfl⟩

end Twins

theorem equal_parts_twins :
    (Twins.left.same Twins.right = false ∧
      (((TransitiveSet.ofCalls .postorder [.add 3, .addSet Twins.left]).run ⟨2⟩).1 ==
        ((TransitiveSet.ofCalls .postorder [.add 3, .addSet Twins.right]).run ⟨9⟩).1) = true) ∧
    Twins.provider.same Inventory.Sample.provider = false ∧
      Agrees (fun r s => (r == s) = true)
        (Inventory.outcome (PluginProvider.union [Twins.provider, .empty true] true) ⟨4⟩)
        (Inventory.outcome (PluginProvider.union [Inventory.Sample.provider, .empty true] true)
          ⟨9⟩) := by
  obtain ⟨hst, hi⟩ := equal_parts Twins.reachable_stock Twins.reachable_inventory
  refine ⟨⟨rfl, ?_⟩, rfl, ?_⟩
  · have himport : Twins.stock.Replaces (.addSet Twins.left) (.addSet Twins.right) :=
      .addSet (List.mem_cons_of_mem _ List.mem_cons_self) List.mem_cons_self Twins.left_beq_right
    exact hst.ofCalls .postorder _ _ (.cons (.add 3) (.cons himport .nil)) _ _ (Nat.le_refl 2)
      (by decide)
  · have hempty : PluginProvider.empty true ∈ Twins.inventory.providers :=
      List.mem_cons_of_mem _ (List.mem_cons_of_mem _ List.mem_cons_self)
    refine hi.union _ ?_ _ ?_ (.cons Twins.provider_beq_sample (.cons ?_ .nil)) true _ _
      (Nat.le_refl 4) (by decide)
    · exact pair_subset List.mem_cons_self hempty
    · exact pair_subset (List.mem_cons_of_mem _ List.mem_cons_self) hempty
    · exact (PluginProvider.Alike.refl _).beq

end PluginClosure
