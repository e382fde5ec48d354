import Mathlib.Logic.Relation
import PluginClosure.TransitiveSet.Linearisation

/-!
# The graph behind a transitive set

A node holds its own elements and imports other nodes, and through these it reaches everything
below. The graph has no cycles, since a node is larger than what it imports. Serial numbers tell
nodes apart only in graphs that are *coherent*, where equal numbers mean the same node.

## Main definitions

* `PluginClosure.Node.Holds`, `PluginClosure.Node.Imports`, `PluginClosure.Node.Reaches`,
  `PluginClosure.Node.DependsOn`: the graph.
* `PluginClosure.Node.Contains`: the elements held anywhere below a node.
* `PluginClosure.Node.Coherent`: the serial numbers below a node identify nodes.
* `PluginClosure.TransitiveSet.Reaches`: the nodes behind a set.

## Main results

* `PluginClosure.Node.Imports.not_reaches`: no node reaches its importer.
* `PluginClosure.Node.mem_expand`: the expansion of a node lists what the node contains.
-/

namespace PluginClosure

variable {α : Type}

namespace Node

/-- The node has the element as one of its own. -/
def Holds (n : Node α) (a : α) : Prop := .own a ∈ n.branches

/-- The node imports another one directly. -/
def Imports (n m : Node α) : Prop := .imported m ∈ n.branches

/-- A chain of imports, which may be empty, leads from one node to the other. -/
def Reaches : Node α → Node α → Prop := Relation.ReflTransGen Imports

/-- A chain of one or more imports leads from one node to the other. -/
def DependsOn : Node α → Node α → Prop := Relation.TransGen Imports

/-- The element is held by the node, or by one that it reaches. -/
def Contains (n : Node α) (a : α) : Prop := ∃ m, n.Reaches m ∧ m.Holds a

/-- Nodes below `n` with the same serial number are the same. -/
def Coherent (n : Node α) : Prop := ∀ l m, n.Reaches l → n.Reaches m → l.id = m.id → l = m

@[simp] theorem holds_mk {i : Serial} {bs : List (Branch α (Node α))} {a : α} :
    (mk i bs).Holds a ↔ .own a ∈ bs := Iff.rfl

@[simp] theorem imports_mk {i : Serial} {bs : List (Branch α (Node α))} {m : Node α} :
    (mk i bs).Imports m ↔ .imported m ∈ bs := Iff.rfl

theorem Reaches.refl (n : Node α) : n.Reaches n := Relation.ReflTransGen.refl

theorem Reaches.trans {l m n : Node α} (h : l.Reaches m) (h' : m.Reaches n) : l.Reaches n :=
  Relation.ReflTransGen.trans h h'

theorem Reaches.tail {l m n : Node α} (h : l.Reaches m) (h' : m.Imports n) : l.Reaches n :=
  Relation.ReflTransGen.tail h h'

theorem Imports.reaches {n m : Node α} (h : n.Imports m) : n.Reaches m :=
  Relation.ReflTransGen.single h

theorem reaches_iff {n m : Node α} :
    n.Reaches m ↔ m = n ∨ ∃ l, n.Imports l ∧ l.Reaches m := by
  rw [Reaches, Relation.ReflTransGen.cases_head_iff, eq_comm]

theorem dependsOn_iff {n m : Node α} : n.DependsOn m ↔ ∃ l, n.Imports l ∧ l.Reaches m :=
  Relation.TransGen.head'_iff

theorem Imports.sizeOf_lt {n m : Node α} (h : n.Imports m) : sizeOf m < sizeOf n := by
  cases n
  exact sizeOf_lt_of_imported_mem h

theorem Reaches.sizeOf_le {n m : Node α} (h : n.Reaches m) : sizeOf m ≤ sizeOf n := by
  induction h with
  | refl => exact Nat.le_refl _
  | tail _ h ih => exact Nat.le_trans (Nat.le_of_lt h.sizeOf_lt) ih

/-- The graph has no cycles. -/
theorem Imports.not_reaches {n m : Node α} (h : n.Imports m) : ¬ m.Reaches n :=
  fun h' => absurd h'.sizeOf_le (Nat.not_le.mpr h.sizeOf_lt)

/-! ### Elements below a node -/

theorem contains_iff {n : Node α} {a : α} :
    n.Contains a ↔ n.Holds a ∨ ∃ m, n.Imports m ∧ m.Contains a := by
  constructor
  · rintro ⟨m, hm, ha⟩
    obtain rfl | ⟨l, hl, hlm⟩ := reaches_iff.mp hm
    · exact Or.inl ha
    · exact Or.inr ⟨l, hl, m, hlm, ha⟩
  · rintro (ha | ⟨l, hl, m, hlm, ha⟩)
    · exact ⟨n, Reaches.refl n, ha⟩
    · exact ⟨m, hl.reaches.trans hlm, ha⟩

/-- Where no node is without branches, none is without elements below it. -/
theorem exists_contains {n : Node α} (h : ∀ m, n.Reaches m → m.branches ≠ []) :
    ∃ a, n.Contains a := by
  induction n using Node.induction with
  | step i bs ih =>
    obtain ⟨b, bs, rfl⟩ := List.exists_cons_of_ne_nil (h _ (Reaches.refl _))
    cases b with
    | own a => exact ⟨a, contains_iff.mpr (Or.inl List.mem_cons_self)⟩
    | imported m =>
      have hm : (mk i (.imported m :: bs)).Imports m := List.mem_cons_self
      obtain ⟨a, ha⟩ := ih m List.mem_cons_self fun l hl => h l (hm.reaches.trans hl)
      exact ⟨a, contains_iff.mpr (Or.inr ⟨m, hm, ha⟩)⟩

end Node

namespace Branch

variable {β γ : Type}

theorem mem_filterMap_own? {bs : List (Branch α β)} {a : α} :
    a ∈ bs.filterMap own? ↔ .own a ∈ bs := by
  rw [List.mem_filterMap]
  constructor
  · rintro ⟨b | _, hb, h⟩
    · cases h; exact hb
    · cases h
  · exact fun h => ⟨_, h, rfl⟩

theorem mem_filterMap_imported? {bs : List (Branch α β)} {b : β} :
    b ∈ bs.filterMap imported? ↔ .imported b ∈ bs := by
  rw [List.mem_filterMap]
  constructor
  · rintro ⟨_ | c, hc, h⟩
    · cases h
    · cases h; exact hc
  · exact fun h => ⟨_, h, rfl⟩

theorem filterMap_own?_map (f : β → γ) (bs : List (Branch α β)) :
    (bs.map (map f)).filterMap own? = bs.filterMap own? := by
  rw [List.filterMap_map]
  congr 1
  funext b
  cases b <;> rfl

theorem filterMap_imported?_map (f : β → γ) (bs : List (Branch α β)) :
    (bs.map (map f)).filterMap imported? = (bs.filterMap imported?).map f := by
  rw [List.filterMap_map, List.map_filterMap]
  congr 1
  funext b
  cases b <;> rfl

theorem own_mem_map {f : β → γ} {bs : List (Branch α β)} {a : α} :
    .own a ∈ bs.map (map f) ↔ .own a ∈ bs := by
  rw [← mem_filterMap_own?, filterMap_own?_map, mem_filterMap_own?]

theorem imported_mem_map {f : β → γ} {bs : List (Branch α β)} {c : γ} :
    .imported c ∈ bs.map (map f) ↔ ∃ b, .imported b ∈ bs ∧ f b = c := by
  simp only [← mem_filterMap_imported? (b := c), filterMap_imported?_map, List.mem_map,
    mem_filterMap_imported?]

end Branch

theorem Order.mem_arrange {o : Order} {bs : List (Branch α (List α))} {a : α} :
    a ∈ o.arrange bs ↔ .own a ∈ bs ∨ ∃ l, .imported l ∈ bs ∧ a ∈ l := by
  have hown := @Branch.mem_filterMap_own? _ _ bs a
  have himported : a ∈ (bs.filterMap Branch.imported?).flatten ↔
      ∃ l, .imported l ∈ bs ∧ a ∈ l := by
    simp only [List.mem_flatten, Branch.mem_filterMap_imported?]
  cases o with
  | insertion =>
    simp only [arrange, List.mem_flatMap]
    constructor
    · rintro ⟨b | l, hb, h⟩
      · exact Or.inl (List.mem_singleton.mp h ▸ hb)
      · exact Or.inr ⟨l, hb, h⟩
    · rintro (h | ⟨l, hl, h⟩)
      · exact ⟨_, h, List.mem_singleton_self a⟩
      · exact ⟨_, hl, h⟩
  | postorder => rw [arrange, List.mem_append, hown, himported, or_comm]
  | preorder => rw [arrange, List.mem_append, hown, himported]
  | topological =>
    rw [arrange, List.mem_append, List.mem_reverse, hown, or_comm, ← himported]
    simp only [List.mem_flatten, List.mem_reverse]

/-- The expansion of a node lists the elements that it contains. -/
theorem Node.mem_expand {o : Order} {n : Node α} {a : α} : a ∈ n.expand o ↔ n.Contains a := by
  induction n using Node.induction with
  | step i bs ih =>
    rw [expand_eq, Order.mem_arrange, contains_iff, branches_mk, Branch.own_mem_map]
    refine or_congr Iff.rfl ?_
    constructor
    · rintro ⟨l, hl, ha⟩
      obtain ⟨m, hm, rfl⟩ := Branch.imported_mem_map.mp hl
      exact ⟨m, hm, (ih m hm).mp ha⟩
    · rintro ⟨m, hm, ha⟩
      exact ⟨_, Branch.imported_mem_map.mpr ⟨m, hm, rfl⟩, (ih m hm).mpr ha⟩

/-! ### Nodes behind a set -/

namespace TransitiveSet

/-- The node is the root of the set, or below it. -/
def Reaches (s : TransitiveSet α) (n : Node α) : Prop := ∃ r, s.root = some r ∧ r.Reaches n

theorem not_reaches_empty {o : Order} {n : Node α} : ¬ (empty o).Reaches n := by
  rintro ⟨r, h, -⟩
  cases h

theorem reaches_root {s : TransitiveSet α} {r n : Node α} (h : s.root = some r) :
    s.Reaches n ↔ r.Reaches n := by
  simp only [Reaches, h, Option.some.injEq, exists_eq_left']

end TransitiveSet

end PluginClosure
