import PluginClosure.Proofs.Records.Contents

/-!
# Sums of contents

What a union of records has to come to can be said without making it. A record *sums* a list of
records if each of its sets lists the elements of the corresponding sets of the list one after the
other, repetitions removed. Sums say nothing about identities and about the structure behind a set,
so that many records may sum one list; all of these are alike, unless the list has a fault.

Sums of sums are sums. Empty parts and repeated parts make no difference.

## Main definitions

* `PluginClosure.Processors.fault?`, `PluginClosure.PluginProvider.fault?`: why records cannot be
  united.
* `PluginClosure.TransitiveSet.Sums`, `PluginClosure.Processors.Sums`,
  `PluginClosure.PluginProvider.Sums`: sums.

## Main results

* `PluginClosure.Processors.Sums.flatten`: sums of sums.
* `PluginClosure.Processors.sums_filter`: empty parts may be left out.
* `PluginClosure.PluginProvider.sums_dropRepeats`,
  `PluginClosure.PluginProvider.fault?_dropRepeats`: repeated parts may be left out.
* `PluginClosure.PluginProvider.Sums.alike`: two sums of one list are alike.
-/

namespace PluginClosure

variable {α β : Type}

/-! ### Faults -/

/-- Why a set cannot be imported into a set of an order. -/
def TransitiveSet.fault? (o : Order) (s : TransitiveSet α) : Option OrderMismatch :=
  if s.order = o then none else some ⟨o, s.order⟩

namespace Processors

/-- Why a record cannot be united with others: the first of its sets that has another order. -/
def fault? (p : Processors) : Option OrderMismatch :=
  (p.classes.fault? order).or ((p.classpath.fault? order).or (p.data.fault? order))

theorem fault?_eq_none {p : Processors} : p.fault? = none ↔
    p.classes.order = order ∧ p.classpath.order = order ∧ p.data.order = order := by
  simp [fault?, TransitiveSet.fault?]

theorem Alike.fault?_eq {p q : Processors} (h : p.Alike q) : p.fault? = q.fault? := by
  simp only [fault?, TransitiveSet.fault?, h.classes.order, h.classpath.order, h.data.order]

end Processors

/-! ### Sets -/

namespace TransitiveSet

variable [BEq α] [Hashable α] {s t u : TransitiveSet α} {l k : List (TransitiveSet α)}

/-- The set is what the sets of a list amount to together, in the order of records. -/
structure Sums (t : TransitiveSet α) (l : List (TransitiveSet α)) : Prop where
  order : t.order = Processors.order ↔ ∀ s ∈ l, s.order = Processors.order
  isEmpty : t.isEmpty = true ↔ ∀ s ∈ l, s.isEmpty = true
  toList : t.toList = (l.flatMap TransitiveSet.toList).eraseDups

theorem Sums.alike (ht : t.Sums l) (hu : u.Sums l)
    (hl : ∀ s ∈ l, s.order = Processors.order) : t.Alike u :=
  ⟨(ht.order.mpr hl).trans (hu.order.mpr hl).symm, ht.toList.trans hu.toList.symm,
    ht.isEmpty.trans hu.isEmpty.symm⟩

variable [EquivBEq α]

theorem sums_singleton (h : t.toList.Pairwise fun a b => (a == b) = false) : t.Sums [t] where
  order := by simp
  isEmpty := by simp
  toList := by rw [List.flatMap_singleton, eraseDups_of_pairwise h]

/-- A set that contributes nothing new may be left out. -/
theorem sums_append_cons_iff
    (ho : (∀ u ∈ l, u.order = Processors.order) → s.order = Processors.order)
    (he : (∀ u ∈ l, u.isEmpty = true) → s.isEmpty = true)
    (hs : ∀ a ∈ s.toList, (l.flatMap TransitiveSet.toList).contains a = true) :
    t.Sums (l ++ s :: k) ↔ t.Sums (l ++ k) := by
  have hall {P : TransitiveSet α → Prop} (hP : (∀ u ∈ l, P u) → P s) :
      (∀ u ∈ l ++ s :: k, P u) ↔ ∀ u ∈ l ++ k, P u := by
    rw [List.forall_mem_append, List.forall_mem_append, List.forall_mem_cons]
    exact and_congr_right fun hl => and_iff_right (hP hl)
  have hlist : ((l ++ s :: k).flatMap TransitiveSet.toList).eraseDups =
      ((l ++ k).flatMap TransitiveSet.toList).eraseDups := by
    rw [List.flatMap_append, List.flatMap_append, List.flatMap_cons, ← List.append_assoc]
    exact eraseDups_append_congr (eraseDups_append_of_contains hs) rfl
  constructor
  · intro h
    exact ⟨h.order.trans (hall ho), h.isEmpty.trans (hall he), h.toList.trans hlist⟩
  · intro h
    exact ⟨h.order.trans (hall ho).symm, h.isEmpty.trans (hall he).symm,
      h.toList.trans hlist.symm⟩

theorem sums_append_empty :
    t.Sums (l ++ .empty Processors.order :: k) ↔ t.Sums (l ++ k) :=
  sums_append_cons_iff (fun _ => rfl) (fun _ => rfl) fun _ ha => absurd ha List.not_mem_nil

theorem sums_append_alike (hu : u ∈ l) (hs : s.Alike u) :
    t.Sums (l ++ s :: k) ↔ t.Sums (l ++ k) := by
  refine sums_append_cons_iff (fun h => hs.order.trans (h u hu)) (fun h => hs.isEmpty.mpr (h u hu))
    fun a ha => ?_
  rw [hs.toList] at ha
  exact List.contains_iff_exists_mem_beq.mpr ⟨a, List.mem_flatMap.mpr ⟨u, hu, ha⟩, BEq.rfl⟩

theorem forall_mem_flatten_iff {P : β → Prop} {l : List β} {L : List (List β)}
    (h : List.Forall₂ (fun b k => P b ↔ ∀ c ∈ k, P c) l L) :
    (∀ b ∈ l, P b) ↔ ∀ b ∈ L.flatten, P b := by
  induction h with
  | nil => rfl
  | cons hb _ ih => rw [List.forall_mem_cons, List.flatten_cons, List.forall_mem_append, hb, ih]

theorem Sums.flatten {L : List (List (TransitiveSet α))} (h : List.Forall₂ Sums l L)
    (ht : t.Sums l) : t.Sums L.flatten where
  order := ht.order.trans (forall_mem_flatten_iff (h.imp fun _ _ h => h.order))
  isEmpty := ht.isEmpty.trans (forall_mem_flatten_iff (h.imp fun _ _ h => h.isEmpty))
  toList := by
    rw [ht.toList]
    clear ht
    induction h with
    | nil => rfl
    | cons hs _ ih =>
      rw [List.flatMap_cons, List.flatten_cons, List.flatMap_append]
      refine eraseDups_append_congr ?_ ih
      rw [hs.toList, eraseDups_eraseDups]

end TransitiveSet

/-! ### Records of processors -/

namespace Processors

variable {p q : Processors} {l k : List Processors}

/-- Each set of the record sums the corresponding sets of a list of records. -/
@[mk_iff]
structure Sums (p : Processors) (l : List Processors) : Prop where
  classes : p.classes.Sums (l.map Processors.classes)
  classpath : p.classpath.Sums (l.map Processors.classpath)
  data : p.data.Sums (l.map Processors.data)

theorem Sums.fault?_eq_none (h : p.Sums l) : p.fault? = none ↔ ∀ q ∈ l, q.fault? = none := by
  simp only [Processors.fault?_eq_none, h.classes.order, h.classpath.order, h.data.order,
    List.forall_mem_map, forall_and]

theorem Sums.isEmpty_iff (h : p.Sums l) : p.isEmpty = true ↔ ∀ q ∈ l, q.isEmpty = true := by
  simp only [isEmpty, Bool.and_eq_true, h.classes.isEmpty, h.classpath.isEmpty, h.data.isEmpty,
    List.forall_mem_map, forall_and]

theorem Sums.alike (hp : p.Sums l) (hq : q.Sums l) (hl : ∀ r ∈ l, r.fault? = none) :
    p.Alike q := by
  have horder (r : Processors) (hr : r ∈ l) := Processors.fault?_eq_none.mp (hl r hr)
  exact ⟨hp.classes.alike hq.classes (List.forall_mem_map.mpr fun r hr => (horder r hr).1),
    hp.classpath.alike hq.classpath (List.forall_mem_map.mpr fun r hr => (horder r hr).2.1),
    hp.data.alike hq.data (List.forall_mem_map.mpr fun r hr => (horder r hr).2.2)⟩

/-- Sums may be summed. -/
theorem Sums.flatten {L : List (List Processors)} (h : List.Forall₂ Sums l L) (hp : p.Sums l) :
    p.Sums L.flatten := by
  constructor
  · rw [List.map_flatten]
    refine .flatten (List.forall₂_map_left_iff.mpr (List.forall₂_map_right_iff.mpr ?_)) hp.classes
    exact h.imp fun _ _ h => h.classes
  · rw [List.map_flatten]
    refine .flatten (List.forall₂_map_left_iff.mpr (List.forall₂_map_right_iff.mpr ?_)) hp.classpath
    exact h.imp fun _ _ h => h.classpath
  · rw [List.map_flatten]
    refine .flatten (List.forall₂_map_left_iff.mpr (List.forall₂_map_right_iff.mpr ?_)) hp.data
    exact h.imp fun _ _ h => h.data

theorem sums_append_empty : p.Sums (l ++ .empty :: k) ↔ p.Sums (l ++ k) := by
  simp only [sums_iff, List.map_append, List.map_cons, empty, TransitiveSet.sums_append_empty]

theorem sums_append_alike {r : Processors} (hr : r ∈ l) (hq : q.Alike r) :
    p.Sums (l ++ q :: k) ↔ p.Sums (l ++ k) := by
  simp only [sums_iff, List.map_append, List.map_cons,
    TransitiveSet.sums_append_alike (List.mem_map_of_mem hr) hq.classes,
    TransitiveSet.sums_append_alike (List.mem_map_of_mem hr) hq.classpath,
    TransitiveSet.sums_append_alike (List.mem_map_of_mem hr) hq.data]

/-- Records without elements may be left out. -/
theorem sums_filter (hl : ∀ q ∈ l, q.isEmpty = true → q = .empty) :
    p.Sums (k ++ l.filter (!·.isEmpty)) ↔ p.Sums (k ++ l) := by
  induction l generalizing k with
  | nil => rfl
  | cons q l ih =>
    obtain ⟨hq, hl⟩ := List.forall_mem_cons.mp hl
    cases he : q.isEmpty with
    | true =>
      rw [List.filter_cons_of_neg (by simp [he]), ih hl, hq he, sums_append_empty]
    | false =>
      rw [List.filter_cons_of_pos (by simp [he]), List.append_cons, List.append_cons k q l, ih hl]

/-- Records without elements have no faults. -/
theorem findSome?_fault?_filter (hl : ∀ q ∈ l, q.isEmpty = true → q = .empty) :
    (l.filter (!·.isEmpty)).findSome? fault? = l.findSome? fault? := by
  induction l with
  | nil => rfl
  | cons q l ih =>
    obtain ⟨hq, hl⟩ := List.forall_mem_cons.mp hl
    cases he : q.isEmpty with
    | true =>
      rw [List.filter_cons_of_neg (by simp [he]), ih hl, List.findSome?_cons, hq he]
      rfl
    | false =>
      rw [List.filter_cons_of_pos (by simp [he]), List.findSome?_cons, List.findSome?_cons, ih hl]

end Processors

/-! ### Records of the plugin provider -/

namespace PluginProvider

variable {r s : PluginProvider} {l k : List PluginProvider} {b : Bool}

/-- Why the records of a list cannot be united. Records of processors that generate API come
last. -/
def fault? (l : List PluginProvider) : Option OrderMismatch :=
  ((l.map plugins).findSome? Processors.fault?).or ((l.map apiPlugins).findSome? Processors.fault?)

/-- The processors of the record sum those of a list of records. It bears the mark if all of them do
and `b` is given. -/
@[mk_iff]
structure Sums (r : PluginProvider) (l : List PluginProvider) (b : Bool) : Prop where
  plugins : r.plugins.Sums (l.map PluginProvider.plugins)
  apiPlugins : r.apiPlugins.Sums (l.map PluginProvider.apiPlugins)
  builtin : r.builtin = (b && l.all PluginProvider.builtin)

theorem fault?_eq_none : fault? l = none ↔
    ∀ s ∈ l, s.plugins.fault? = none ∧ s.apiPlugins.fault? = none := by
  simp only [fault?, Option.or_eq_none_iff, List.findSome?_eq_none_iff, List.forall_mem_map,
    forall_and]

theorem fault?_append_eq_none : fault? (l ++ k) = none ↔ fault? l = none ∧ fault? k = none := by
  simp only [fault?_eq_none, List.forall_mem_append]

theorem Sums.fault?_eq_none (h : r.Sums l b) :
    r.plugins.fault? = none ∧ r.apiPlugins.fault? = none ↔
      ∀ s ∈ l, s.plugins.fault? = none ∧ s.apiPlugins.fault? = none := by
  simp only [h.plugins.fault?_eq_none, h.apiPlugins.fault?_eq_none, List.forall_mem_map, forall_and]

theorem Sums.isEmpty_iff (h : r.Sums l b) :
    r.plugins.isEmpty = true ∧ r.apiPlugins.isEmpty = true ↔
      ∀ s ∈ l, s.plugins.isEmpty = true ∧ s.apiPlugins.isEmpty = true := by
  simp only [h.plugins.isEmpty_iff, h.apiPlugins.isEmpty_iff, List.forall_mem_map, forall_and]

/-- Two sums of one list are alike. -/
theorem Sums.alike (hr : r.Sums l b) (hs : s.Sums l b) (hl : fault? l = none)
    (ho : r.outputs = s.outputs) : r.Alike s := by
  have hfault := PluginProvider.fault?_eq_none.mp hl
  exact ⟨ho, hr.plugins.alike hs.plugins (List.forall_mem_map.mpr fun u hu => (hfault u hu).1),
    hr.apiPlugins.alike hs.apiPlugins (List.forall_mem_map.mpr fun u hu => (hfault u hu).2),
    hr.builtin.trans hs.builtin.symm⟩

/-- Sums of sums, each with a mark of its own. -/
theorem Sums.flatten {L : List (List PluginProvider × Bool)}
    (h : List.Forall₂ (fun s x => s.Sums x.1 x.2) l L) (hr : r.Sums l b) :
    r.Sums (L.map Prod.fst).flatten (b && L.all Prod.snd) := by
  constructor
  · rw [List.map_flatten, List.map_map]
    refine .flatten (List.forall₂_map_left_iff.mpr (List.forall₂_map_right_iff.mpr ?_)) hr.plugins
    exact h.imp fun _ _ h => h.plugins
  · rw [List.map_flatten, List.map_map]
    refine .flatten (List.forall₂_map_left_iff.mpr (List.forall₂_map_right_iff.mpr ?_))
      hr.apiPlugins
    exact h.imp fun _ _ h => h.apiPlugins
  · rw [hr.builtin, Bool.and_assoc]
    congr 1
    clear hr
    induction h with
    | nil => rfl
    | cons hs _ ih =>
      rw [List.all_cons, hs.builtin, ih, List.all_cons, List.map_cons, List.flatten_cons,
        List.all_append]
      ac_rfl

theorem sums_append_alike {u : PluginProvider} (hu : u ∈ l) (hs : s.Alike u) :
    r.Sums (l ++ s :: k) b ↔ r.Sums (l ++ k) b := by
  have hall : (l ++ s :: k).all PluginProvider.builtin = (l ++ k).all PluginProvider.builtin := by
    rw [List.all_append, List.all_append, List.all_cons, hs.builtin]
    cases hb : l.all PluginProvider.builtin with
    | false => rfl
    | true => rw [List.all_eq_true.mp hb u hu, Bool.true_and]
  simp only [sums_iff, hall, List.map_append, List.map_cons,
    Processors.sums_append_alike (List.mem_map_of_mem hu) hs.plugins,
    Processors.sums_append_alike (List.mem_map_of_mem hu) hs.apiPlugins]

theorem findSome?_append_cons {β γ : Type} {f : β → Option γ} {l k : List β} {b c : β}
    (hc : c ∈ l) (hf : f b = f c) : (l ++ b :: k).findSome? f = (l ++ k).findSome? f := by
  rw [List.findSome?_append, List.findSome?_append, List.findSome?_cons]
  cases hl : l.findSome? f with
  | some _ => rfl
  | none => rw [hf, List.findSome?_eq_none_iff.mp hl c hc]

theorem fault?_append_alike {u : PluginProvider} (hu : u ∈ l) (hs : s.Alike u) :
    fault? (l ++ s :: k) = fault? (l ++ k) := by
  simp only [fault?, List.map_append, List.map_cons,
    findSome?_append_cons (List.mem_map_of_mem hu) hs.plugins.fault?_eq,
    findSome?_append_cons (List.mem_map_of_mem hu) hs.apiPlugins.fault?_eq]

/-- What records alike cannot change is not changed when repeated records are dropped. -/
theorem dropRepeats_iff_of_alike {Q : List PluginProvider → Prop}
    (hQ : ∀ (l₁ : List PluginProvider) (s u : PluginProvider) (l₂ : List PluginProvider),
      u ∈ l₁ → s.Alike u → (Q (l₁ ++ s :: l₂) ↔ Q (l₁ ++ l₂)))
    (hl : ∀ s ∈ l, ∀ u ∈ l, (s == u) = true → s.Alike u) : Q (dropRepeats [] l) ↔ Q l := by
  refine dropRepeats_iff (k := []) fun l₁ s l₂ hsub hs => ?_
  obtain ⟨u, hu, hsu⟩ := List.contains_iff_exists_mem_beq.mp hs
  have hsl : s ∈ l := hsub.subset (List.mem_append_right l₁ List.mem_cons_self)
  exact hQ l₁ s u l₂ hu (hl s hsl u (hsub.subset (List.mem_append_left _ hu)) hsu)

/-- A record that equals an earlier one may be left out. -/
theorem sums_dropRepeats (hl : ∀ s ∈ l, ∀ u ∈ l, (s == u) = true → s.Alike u) :
    r.Sums (dropRepeats [] l) b ↔ r.Sums l b :=
  dropRepeats_iff_of_alike (Q := (r.Sums · b)) (fun _ _ _ _ => sums_append_alike) hl

/-- A record that equals an earlier one has no fault of its own. -/
theorem fault?_dropRepeats (hl : ∀ s ∈ l, ∀ u ∈ l, (s == u) = true → s.Alike u) :
    fault? (dropRepeats [] l) = fault? l := by
  refine (dropRepeats_iff_of_alike (Q := (fault? · = fault? l)) ?_ hl).mpr rfl
  intro l₁ s u l₂ hu hs
  rw [fault?_append_alike hu hs]

end PluginProvider

/-! ### Records at hand -/

namespace Inventory

variable {i : Inventory}

theorem Sound.sums_processors (h : i.Sound) {p : Processors} (hp : p ∈ i.processors) :
    p.Sums [p] := by
  obtain ⟨hc, hcp, hd⟩ := h.sets_mem p hp
  exact ⟨TransitiveSet.sums_singleton (h.strings.pairwise_toList hc),
    TransitiveSet.sums_singleton (h.files.pairwise_toList hcp),
    TransitiveSet.sums_singleton (h.files.pairwise_toList hd)⟩

/-- A record at hand sums itself. -/
theorem Sound.sums_singleton (h : i.Sound) {r : PluginProvider} (hr : r ∈ i.providers) :
    r.Sums [r] true := by
  obtain ⟨hp, ha⟩ := h.parts_mem r hr
  exact ⟨h.sums_processors hp, h.sums_processors ha, by simp⟩

end Inventory

end PluginClosure
