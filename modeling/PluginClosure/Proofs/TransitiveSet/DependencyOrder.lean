import PluginClosure.Proofs.TransitiveSet.History

/-!
# Importers and what they depend on

In the topological order an element stands in front of everything on which its holder depends, and
in the postorder behind it. An element may be held by several nodes, in which case the statement is
about one of them: the one that the walk comes to first. Neither the number of paths to a node nor
the sequence of the imports matters.

Both orders write out the imports of a node before its own elements, from opposite ends. In the
expansion, therefore, every occurrence of an element has in front of it all on which its holder
depends.

## Main results

* `PluginClosure.Node.exists_holder`: an occurrence in the expansion, and its holder.
* `PluginClosure.Stock.dependency_order`: the place of an element in the list of a set.
-/

namespace PluginClosure

variable {α β : Type}

/-- The first of two lists ends behind a given place, or in front of it. -/
theorem append_eq_append_cons {l k l₁ l₂ : List α} {a : α} (h : l ++ k = l₁ ++ a :: l₂) :
    (∃ l', l = l₁ ++ a :: l') ∨ ∃ k', l₁ = l ++ k' ∧ k = k' ++ a :: l₂ := by
  obtain ⟨k', rfl, hk⟩ | ⟨l', rfl, hl⟩ := List.append_eq_append_iff.mp h
  · exact Or.inr ⟨k', rfl, hk⟩
  · cases l' with
    | nil => exact Or.inr ⟨[], by simp, hl.symm⟩
    | cons b l' =>
      obtain ⟨rfl, -⟩ := List.cons.inj hl
      exact Or.inl ⟨l', rfl⟩

theorem exists_eq_append_of_flatMap_eq {f : β → List α} {l : List β} {l₁ l₂ : List α} {a : α}
    (h : l.flatMap f = l₁ ++ a :: l₂) :
    ∃ b ∈ l, ∃ k₁ k₂, f b = k₁ ++ a :: k₂ ∧ k₁ ⊆ l₁ := by
  induction l generalizing l₁ with
  | nil => simp at h
  | cons b l ih =>
    rw [List.flatMap_cons] at h
    obtain ⟨l', hl⟩ | ⟨k', rfl, hk⟩ := append_eq_append_cons h
    · exact ⟨b, List.mem_cons_self, l₁, l', hl, List.Subset.refl l₁⟩
    · obtain ⟨c, hc, k₁, k₂, hf, hs⟩ := ih hk
      exact ⟨c, List.mem_cons_of_mem b hc, k₁, k₂, hf, List.subset_append_of_subset_right _ hs⟩

namespace Node

/-- The imports of a node are written out before its own elements, in one sequence or the other. -/
theorem expand_eq_append {o : Order} (ho : o = .topological ∨ o = .postorder) (n : Node α) :
    ∃ (ms : List (Node α)) (as : List α), n.expand o = ms.flatMap (expand o) ++ as ∧
      (∀ m, m ∈ ms ↔ n.Imports m) ∧ ∀ a, a ∈ as ↔ n.Holds a := by
  have him (m : Node α) : m ∈ n.branches.filterMap Branch.imported? ↔ n.Imports m :=
    Branch.mem_filterMap_imported?
  have hown (a : α) : a ∈ n.branches.filterMap Branch.own? ↔ n.Holds a :=
    Branch.mem_filterMap_own?
  obtain rfl | rfl := ho
  · refine ⟨(n.branches.filterMap Branch.imported?).reverse,
      (n.branches.filterMap Branch.own?).reverse, ?_, fun m => ?_, fun a => ?_⟩
    · rw [expand_eq, Order.arrange, Branch.filterMap_own?_map, Branch.filterMap_imported?_map,
        ← List.map_reverse, List.flatMap_def]
    · rw [List.mem_reverse, him]
    · rw [List.mem_reverse, hown]
  · refine ⟨_, _, ?_, him, hown⟩
    rw [expand_eq, Order.arrange, Branch.filterMap_own?_map, Branch.filterMap_imported?_map,
      List.flatMap_def]

/-- Every occurrence of an element in the expansion belongs to a node that holds the element, and
all on which that node depends occurs in front of it. -/
theorem exists_holder {o : Order} (ho : o = .topological ∨ o = .postorder) {n : Node α} {a : α}
    {l₁ l₂ : List α} (h : n.expand o = l₁ ++ a :: l₂) :
    ∃ m, n.Reaches m ∧ m.Holds a ∧ ∀ l b, m.DependsOn l → l.Holds b → b ∈ l₁ := by
  induction n using Node.induction generalizing l₁ l₂ with
  | step i bs ih =>
    obtain ⟨ms, as, hexpand, hms, has⟩ := expand_eq_append ho (mk i bs)
    rw [hexpand] at h
    obtain ⟨l', hl⟩ | ⟨k', rfl, hk⟩ := append_eq_append_cons h
    · obtain ⟨m, hm, k₁, k₂, hk, hs⟩ := exists_eq_append_of_flatMap_eq hl
      obtain ⟨n, hn, ha, hb⟩ := ih m ((hms m).mp hm) hk
      exact ⟨n, ((hms m).mp hm).reaches.trans hn, ha, fun l b hl hlb => hs (hb l b hl hlb)⟩
    · refine ⟨mk i bs, Reaches.refl _, (has a).mp (hk ▸ by simp), fun l b hl hb => ?_⟩
      obtain ⟨m, hm, hml⟩ := dependsOn_iff.mp hl
      refine List.mem_append_left _ (List.mem_flatMap.mpr ⟨m, (hms m).mpr hm, ?_⟩)
      exact mem_expand.mpr ⟨l, hml, hb⟩

/-- The element is held by a node on which this one depends. -/
def Inherits (n : Node α) (a : α) : Prop := ∃ m, n.DependsOn m ∧ m.Holds a

end Node

namespace TransitiveSet

variable [BEq α] [EquivBEq α]

/-- The first occurrence of an element in the expansion has a holder, and behind it nothing that
the holder depends on is seen for the first time. -/
theorem exists_holder_of_mem {s : TransitiveSet α} {a : α}
    (ho : s.order = .topological ∨ s.order = .postorder)
    (ha : a ∈ s.linearise) : ∃ n l, s.Reaches n ∧ n.Holds a ∧
      s.linearise = s.order.finish l ∧ ∀ b, n.Inherits b → Precedes l.eraseDups b a := by
  obtain ⟨o, _ | r⟩ := s
  · cases ha
  · have hmem : a ∈ (r.expand o).eraseDups := by
      obtain rfl | rfl := ho
      · exact List.mem_reverse.mp ha
      · exact ha
    obtain ⟨l₁, l₂, hexpand, hfirst⟩ := exists_eq_append_of_mem_eraseDups hmem
    obtain ⟨n, hn, hna, hbefore⟩ := Node.exists_holder ho hexpand
    refine ⟨n, r.expand o, ⟨r, rfl, hn⟩, hna, rfl, ?_⟩
    rintro b ⟨m, hm, hmb⟩
    rw [hexpand]
    refine precedes_eraseDups hfirst (List.contains_iff_exists_mem_beq.mpr ?_)
    exact ⟨b, hbefore m b hm hmb, BEq.rfl⟩

end TransitiveSet

namespace Stock

variable [BEq α] [Hashable α] [EquivBEq α] [LawfulHashable α]

/-- **Importers come before what they depend on in the topological order, and after it in the
postorder.** For every element listed this is true of some node that holds it, hence of the holder
if there is only one. No element is listed twice, so that its place is unambiguous. -/
theorem dependency_order {st : Stock α} (h : st.Reachable) {s : TransitiveSet α}
    (hs : s ∈ st.sets) {a : α} (ha : a ∈ s.toList) :
    s.toList.Pairwise (fun b c => (b == c) = false) ∧
      (s.order = .topological →
        (∃ n, s.Reaches n ∧ n.Holds a ∧ ∀ b, n.Inherits b → Precedes s.toList a b) ∧
        ∀ n, s.Reaches n → n.Holds a → (∀ m, s.Reaches m → m.Holds a → m = n) →
          ∀ b, n.Inherits b → Precedes s.toList a b) ∧
      (s.order = .postorder →
        (∃ n, s.Reaches n ∧ n.Holds a ∧ ∀ b, n.Inherits b → Precedes s.toList b a) ∧
        ∀ n, s.Reaches n → n.Holds a → (∀ m, s.Reaches m → m.Holds a → m = n) →
          ∀ b, n.Inherits b → Precedes s.toList b a) := by
  have honly {R : α → Prop}
      (hex : ∃ n, s.Reaches n ∧ n.Holds a ∧ ∀ b, n.Inherits b → R b) :
      (∃ n, s.Reaches n ∧ n.Holds a ∧ ∀ b, n.Inherits b → R b) ∧
        ∀ n, s.Reaches n → n.Holds a → (∀ m, s.Reaches m → m.Holds a → m = n) →
          ∀ b, n.Inherits b → R b := by
    refine ⟨hex, fun n _ _ hunique => ?_⟩
    obtain ⟨m, hm, hma, hb⟩ := hex
    rwa [← hunique m hm hma]
  rw [(h.sound.coherent hs).toList_eq] at ha ⊢
  refine ⟨s.pairwise_linearise, fun ho => honly ?_, fun ho => honly ?_⟩
  · obtain ⟨n, l, hn, hna, hl, hb⟩ := TransitiveSet.exists_holder_of_mem (Or.inl ho) ha
    refine ⟨n, hn, hna, fun b hnb => ?_⟩
    rw [hl, ho]
    exact (hb b hnb).reverse
  · obtain ⟨n, l, hn, hna, hl, hb⟩ := TransitiveSet.exists_holder_of_mem (Or.inr ho) ha
    refine ⟨n, hn, hna, fun b hnb => ?_⟩
    rw [hl, ho]
    exact hb b hnb

/-- The element `3` comes before the import of its holder, which the root imports first. -/
theorem dependency_order_top : Precedes (Shared.setOf Shared.top).toList 3 2 := by
  have hmem : Shared.setOf Shared.top ∈ Shared.triangle.sets := List.mem_cons_self
  have hlist : (Shared.setOf Shared.top).toList = [4, 3, 1, 2] :=
    (Shared.reachable_triangle.sound.coherent hmem).toList_eq
  have hbase (m : Node Nat) : Shared.base.Reaches m ↔ m = Shared.base := by
    rw [Node.reaches_iff]
    simp [Node.Imports, Shared.base]
  have hside (m : Node Nat) : Shared.side.Reaches m ↔ m = Shared.side ∨ m = Shared.base := by
    rw [Node.reaches_iff]
    simp [Node.Imports, Shared.side, hbase]
  have htop (m : Node Nat) : (Shared.setOf Shared.top).Reaches m ↔
      m = Shared.top ∨ m = Shared.base ∨ m = Shared.side ∨ m = Shared.base := by
    rw [TransitiveSet.reaches_root rfl, Node.reaches_iff]
    simp [Node.Imports, Shared.top, hbase, hside]
  obtain ⟨-, h, -⟩ := dependency_order Shared.reachable_triangle hmem (a := 3)
    (hlist ▸ by decide)
  refine (h rfl).2 Shared.side ((htop _).mpr (by simp)) (by simp [Shared.side]) ?_ 2 ?_
  · intro m hm hholds
    rcases (htop m).mp hm with rfl | rfl | rfl | rfl
    · simp [Shared.top] at hholds
    · simp [Shared.base] at hholds
    · rfl
    · simp [Shared.base] at hholds
  · exact ⟨Shared.base, .single (by simp [Shared.side]), by simp [Shared.base]⟩

end Stock

end PluginClosure
