import Mathlib.Data.List.Flatten
import Mathlib.Data.List.Nodup
import Mathlib.Data.List.Basic
import Mathlib.Data.List.Forall2

/-!
# First and last occurrences

Every order of a set is settled by which occurrence of a repeated element stays. `List.eraseDups`
keeps the first one. Elements are compared by `==`, of which nothing but an equivalence is asked, so
the occurrence that stays may differ from those that go.

Repetitions may be removed from the parts of a list before they are removed from the whole.

## Main definitions

* `PluginClosure.keepLast`: the elements of a list, each at the place of its last occurrence.
* `PluginClosure.Precedes`: one element occurs before another one.
* `PluginClosure.dropRepeats`: a list without the elements that equal earlier ones.
* `PluginClosure.Matching`: two lists with equal elements, place by place.

## Main results

* `PluginClosure.eraseDups_filter`, `PluginClosure.contains_eraseDups`,
  `PluginClosure.pairwise_eraseDups`.
* `PluginClosure.eraseDups_append_congr`, `PluginClosure.eraseDups_flatMap_congr`: absorption.
* `PluginClosure.exists_eq_append_of_mem_eraseDups`, `PluginClosure.precedes_eraseDups`: what stands
  before the first occurrence of an element stays before it.
* `PluginClosure.dropRepeats_iff`: repetitions may be dropped one by one.
* `PluginClosure.Matching.eraseDups`, `PluginClosure.Matching.keepLast`: lists with equal elements
  remain so when repetitions are removed.
-/

namespace PluginClosure

variable {α β : Type} [BEq α]

/-- The elements of a list, each at the place of its last occurrence. -/
def keepLast (l : List α) : List α := l.reverse.eraseDups.reverse

/-- The list can be cut so that `a` occurs in front of the cut and `b` behind it. -/
def Precedes (l : List α) (a b : α) : Prop :=
  ∃ l₁ l₂, l = l₁ ++ l₂ ∧ l₁.contains a ∧ l₂.contains b

/-- The lists have equal elements, place by place. -/
def Matching : List α → List α → Prop :=
  List.Forall₂ fun a b => (a == b) = true

theorem Precedes.reverse {l : List α} {a b : α} (h : Precedes l a b) :
    Precedes l.reverse b a := by
  obtain ⟨l₁, l₂, rfl, ha, hb⟩ := h
  refine ⟨l₂.reverse, l₁.reverse, List.reverse_append, ?_, ?_⟩
  · rwa [List.contains_reverse]
  · rwa [List.contains_reverse]

/-! ### Repetitions one by one -/

/-- The elements of a list that equal neither an earlier one nor one of `k`. -/
def dropRepeats (k : List α) : List α → List α
  | [] => []
  | a :: l => if k.contains a then dropRepeats (k ++ [a]) l else a :: dropRepeats (k ++ [a]) l

theorem dropRepeats_sublist (k l : List α) : (dropRepeats k l).Sublist l := by
  induction l generalizing k with
  | nil => exact List.Sublist.refl []
  | cons a l ih =>
    rw [dropRepeats]
    split
    · exact (ih _).cons a
    · exact (ih _).cons_cons a

/-- What a single repetition cannot change is not changed when all are dropped. They are dropped
from the right, so that the earlier element is still there. -/
theorem dropRepeats_iff {Q : List α → Prop} {k l : List α}
    (h : ∀ l₁ a l₂, (l₁ ++ a :: l₂).Sublist (k ++ l) → l₁.contains a = true →
      (Q (l₁ ++ a :: l₂) ↔ Q (l₁ ++ l₂))) :
    Q (k ++ dropRepeats k l) ↔ Q (k ++ l) := by
  induction l generalizing k with
  | nil => rfl
  | cons a l ih =>
    have hk : Q (k ++ a :: dropRepeats (k ++ [a]) l) ↔ Q (k ++ a :: l) := by
      rw [List.append_cons, List.append_cons k a l]
      exact ih fun l₁ b l₂ hs => h l₁ b l₂ (by rwa [List.append_cons k a l])
    rw [dropRepeats]
    split
    · next hc =>
      refine (h k a _ ?_ hc).symm.trans hk
      exact ((dropRepeats_sublist (k ++ [a]) l).cons_cons a).append_left k
    · exact hk

variable [EquivBEq α]

theorem eraseDups_filter {p : α → Bool} (hp : ∀ a b, a == b → p a = p b) (l : List α) :
    (l.filter p).eraseDups = l.eraseDups.filter p := by
  induction l generalizing p with
  | nil => rfl
  | cons a l ih =>
    have hne (b c : α) (h : b == c) : (!b == a) = !c == a := by rw [BEq.congr_left h]
    rw [List.eraseDups_cons, ih hne]
    by_cases ha : p a
    · have hnep (b c : α) (h : b == c) : (!b == a && p b) = (!c == a && p c) := by
        rw [hp b c h, hne b c h]
      rw [List.filter_cons_of_pos ha, List.eraseDups_cons, List.filter_filter, ih hnep,
        List.filter_cons_of_pos ha, List.filter_filter]
      simp only [Bool.and_comm]
    · rw [List.filter_cons_of_neg ha, List.filter_cons_of_neg ha, List.filter_filter, ih hp]
      refine List.filter_congr fun b _ => ?_
      by_cases hb : b == a
      · simpa [hb, hp b a hb] using ha
      · simp [hb]

theorem eraseDups_cons_filter (a : α) (l : List α) :
    (a :: l).eraseDups = a :: l.eraseDups.filter fun b => !b == a := by
  rw [List.eraseDups_cons, eraseDups_filter]
  exact fun b c h => by rw [BEq.congr_left h]

@[simp] theorem contains_eraseDups (l : List α) (a : α) :
    l.eraseDups.contains a = l.contains a := by
  induction l with
  | nil => rfl
  | cons b l ih =>
    rw [eraseDups_cons_filter, List.contains_cons, List.contains_cons, ← ih, List.contains_filter,
      List.contains_eq_any_beq]
    by_cases hb : a == b
    · simp [hb]
    · have hc (c : α) : (a == c && !c == b) = (a == c) := by
        by_cases hc : a == c
        · simp [hc, ← BEq.congr_left hc, hb]
        · simp [hc]
      simp only [hc]

theorem mem_of_mem_eraseDups {l : List α} {a : α} (h : a ∈ l.eraseDups) : a ∈ l := by
  induction l with
  | nil => exact h
  | cons b l ih =>
    rw [eraseDups_cons_filter, List.mem_cons, List.mem_filter] at h
    obtain rfl | ⟨h, -⟩ := h
    · exact List.mem_cons_self
    · exact List.mem_cons_of_mem b (ih h)

theorem pairwise_eraseDups (l : List α) : l.eraseDups.Pairwise fun a b => (a == b) = false := by
  induction l with
  | nil => exact List.Pairwise.nil
  | cons a l ih =>
    rw [eraseDups_cons_filter, List.pairwise_cons]
    refine ⟨fun b hb => ?_, ih.filter _⟩
    rw [BEq.comm]
    simpa using (List.mem_filter.mp hb).2

theorem eraseDups_of_pairwise {l : List α} (h : l.Pairwise fun a b => (a == b) = false) :
    l.eraseDups = l := by
  induction l with
  | nil => rfl
  | cons a l ih =>
    obtain ⟨ha, hl⟩ := List.pairwise_cons.mp h
    rw [eraseDups_cons_filter, ih hl, List.filter_eq_self.mpr]
    intro b hb
    simpa using BEq.symm_false (ha b hb)

@[simp] theorem eraseDups_eraseDups (l : List α) : l.eraseDups.eraseDups = l.eraseDups :=
  eraseDups_of_pairwise (pairwise_eraseDups l)

/-! ### Absorption -/

/-- What occurred in front is removed from what is appended. -/
theorem eraseDups_append_filter (l k : List α) :
    (l ++ k).eraseDups = l.eraseDups ++ k.eraseDups.filter fun a => !l.contains a := by
  induction l with
  | nil => simp
  | cons a l ih =>
    rw [List.cons_append, eraseDups_cons_filter, ih, eraseDups_cons_filter, List.filter_append,
      List.filter_filter]
    simp only [List.contains_cons, Bool.not_or, List.cons_append]

theorem eraseDups_append_of_contains {l k : List α} (h : ∀ a ∈ k, l.contains a) :
    (l ++ k).eraseDups = l.eraseDups := by
  rw [eraseDups_append_filter, List.filter_eq_nil_iff.mpr, List.append_nil]
  intro a ha
  simp only [h a (mem_of_mem_eraseDups ha), Bool.not_true, Bool.false_eq_true, not_false_eq_true]

/-- Repetitions may be removed from both parts first. -/
theorem eraseDups_append_congr {l l' k k' : List α} (hl : l.eraseDups = l'.eraseDups)
    (hk : k.eraseDups = k'.eraseDups) : (l ++ k).eraseDups = (l' ++ k').eraseDups := by
  have hc (a : α) : l.contains a = l'.contains a := by
    rw [← contains_eraseDups l, hl, contains_eraseDups]
  rw [eraseDups_append_filter, eraseDups_append_filter, hl, hk]
  simp only [hc]

theorem eraseDups_flatMap_congr {f g : β → List α} {l : List β}
    (h : ∀ b ∈ l, (f b).eraseDups = (g b).eraseDups) :
    (l.flatMap f).eraseDups = (l.flatMap g).eraseDups := by
  induction l with
  | nil => rfl
  | cons b l ih =>
    rw [List.flatMap_cons, List.flatMap_cons]
    exact eraseDups_append_congr (h b List.mem_cons_self)
      (ih fun c hc => h c (List.mem_cons_of_mem b hc))

/-! ### Places -/

/-- What `List.eraseDups` keeps of an element is its first occurrence. -/
theorem exists_eq_append_of_mem_eraseDups {l : List α} {a : α} (h : a ∈ l.eraseDups) :
    ∃ l₁ l₂, l = l₁ ++ a :: l₂ ∧ l₁.contains a = false := by
  induction l with
  | nil => cases h
  | cons b l ih =>
    rw [eraseDups_cons_filter, List.mem_cons, List.mem_filter] at h
    obtain rfl | ⟨h, hb⟩ := h
    · exact ⟨[], l, rfl, rfl⟩
    · obtain ⟨l₁, l₂, rfl, hl⟩ := ih h
      refine ⟨b :: l₁, l₂, rfl, ?_⟩
      rw [List.contains_cons, hl, Bool.or_false]
      simpa using hb

/-- If an element first occurs right behind `l`, then everything in `l` precedes it. -/
theorem precedes_eraseDups {l k : List α} {a b : α} (ha : l.contains a = false)
    (hb : l.contains b) : Precedes (l ++ a :: k).eraseDups b a := by
  refine ⟨_, _, eraseDups_append_filter l (a :: k), ?_, ?_⟩
  · rwa [contains_eraseDups]
  · rw [eraseDups_cons_filter, List.filter_cons_of_pos (by simp only [ha, Bool.not_false])]
    simp only [List.contains_cons, BEq.rfl, Bool.true_or]

/-! ### Equal elements -/

omit [EquivBEq α] in
theorem matching_iff_beq {l k : List α} : Matching l k ↔ (l == k) = true := by
  induction l generalizing k with
  | nil => cases k <;> simp [Matching]
  | cons a l ih =>
    cases k with
    | nil => simp [Matching]
    | cons b k =>
      rw [List.cons_beq_cons, Bool.and_eq_true, ← ih]
      exact List.forall₂_cons

theorem Matching.refl (l : List α) : Matching l l :=
  List.forall₂_same.mpr fun _ _ => BEq.rfl

omit [EquivBEq α] in
theorem Matching.eq_nil_iff {l k : List α} (h : Matching l k) : l = [] ↔ k = [] := by
  rw [← List.length_eq_zero_iff, ← List.length_eq_zero_iff, h.length_eq]

/-- Equal elements of matching lists have equal first occurrences. -/
theorem Matching.eraseDups {l k : List α} (h : Matching l k) :
    Matching l.eraseDups k.eraseDups := by
  induction h with
  | nil => exact List.Forall₂.nil
  | @cons a b l k hab _ ih =>
    rw [eraseDups_cons_filter, eraseDups_cons_filter]
    refine List.Forall₂.cons hab (List.rel_filter (fun c d hcd => ?_) ih)
    have heq : (c == a) = (d == b) := by rw [BEq.congr_left hcd, BEq.congr_right hab]
    simp only [heq]

theorem Matching.keepLast {l k : List α} (h : Matching l k) :
    Matching (keepLast l) (keepLast k) :=
  List.rel_reverse (Matching.eraseDups (List.rel_reverse h))

end PluginClosure
