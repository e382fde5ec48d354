import PluginClosure.Proofs.Session.Basic

/-!
# Emptiness is exact

Whether a set is empty is answered from the absence of a root, without a look at the elements.
The answer is exact, since no node at hand is without branches, so that every walk finds an element
in the end. A draft is empty as long as no call on it contributes: neither was an element added, nor
was a set accepted that is not empty. Then, and only then, the set that it comes to is empty.

## Main definitions

* `PluginClosure.Bench.Exact`: emptiness is exact for the sets and drafts of a bench.

## Main results

* `PluginClosure.Draft.Logged.isEmpty_iff`: drafts on which no call contributes.
* `PluginClosure.Session.emptiness_exact`: emptiness is exact in every session.
-/

namespace PluginClosure

variable {α : Type}

/-! ### Drafts -/

namespace Draft

/-- The draft does not refuse the set. The answer is the same at all times, as the order of a draft
does not change. -/
def Accepts (d : Draft α) (s : TransitiveSet α) : Prop := ∃ e, d.addSet s = .ok e

theorem accepts_iff {d : Draft α} {s : TransitiveSet α} : d.Accepts s ↔ s.order = d.order := by
  constructor
  · rintro ⟨e, he⟩
    exact (branches_of_addSet he).1
  · intro ho
    cases he : d.addSet s with
    | ok e => exact ⟨e, he⟩
    | error e => exact absurd ho (addSet_eq_error_iff.mp he).1

/-- A draft is empty as long as the set is empty that it comes to. -/
theorem isEmpty_finish (d : Draft α) (supply : Supply) :
    (d.finish.run supply).1.isEmpty = d.isEmpty := by
  rw [Bool.eq_iff_iff, isEmpty_iff]
  rcases d.finish_spec supply with ⟨hb, h⟩ | ⟨n, hb, h⟩ | ⟨hb, h⟩
  · simp [h, hb]
  · simp [h, hb, TransitiveSet.isEmpty]
  · simp [h, hb, TransitiveSet.isEmpty]

/-- A draft is empty exactly if no call contributes a branch. -/
theorem Logged.isEmpty_iff (d : Logged α) : d.draft.isEmpty = true ↔
    (∀ a, .add a ∉ d.calls) ∧ (∀ l, .addList l ∈ d.calls → l = []) ∧
      ∀ s, .addSet s ∈ d.calls → d.draft.Accepts s → s.isEmpty = true := by
  rw [Draft.isEmpty_iff, d.branches_eq, List.flatMap_eq_nil_iff]
  constructor
  · intro h
    refine ⟨fun a ha => ?_, fun l hl => List.map_eq_nil_iff.mp (h _ hl), fun s hs ho => ?_⟩
    · cases h _ ha
    · have hs := h _ hs
      rw [Call.branches, if_pos (accepts_iff.mp ho), List.map_eq_nil_iff] at hs
      rw [TransitiveSet.isEmpty, Option.isNone_iff_eq_none]
      exact Option.toList_eq_nil_iff.mp hs
  · rintro ⟨hadd, hlist, hset⟩ c hc
    cases c with
    | add a => exact absurd hc (hadd a)
    | addList l => rw [hlist l hc, Call.branches, List.map_nil]
    | addSet s =>
      rw [Call.branches]
      split
      · next ho =>
        rw [Option.isNone_iff_eq_none.mp (hset s hc (accepts_iff.mpr ho))]
        rfl
      · rfl
    | finish => rfl

end Draft

/-! ### Nodes -/

theorem TransitiveSet.branches_ne_nil_of_ofList (o : Order) (l : List α) (supply : Supply)
    {n : Node α} (hn : ((ofList o l).run supply).1.root = some n) : n.branches ≠ [] := by
  cases l with
  | nil => cases hn
  | cons a l =>
    cases hn
    exact List.cons_ne_nil _ _

namespace Bench

variable {b : Bench α}

theorem Sound.branches_ne_nil_of_finish (h : b.Sound) {d : Draft.Logged α} (hd : d ∈ b.drafts)
    (supply : Supply) {n : Node α} (hn : (d.draft.finish.run supply).1.root = some n) :
    n.branches ≠ [] := by
  rcases d.draft.finish_spec supply with ⟨-, hf⟩ | ⟨m, hb, hf⟩ | ⟨hb, hf⟩
  · rw [hf] at hn
    cases hn
  · rw [hf] at hn
    cases hn
    have hm : .imported n ∈ d.draft.branches := hb ▸ List.mem_cons_self
    exact h.stock.branches_ne_nil n ⟨_, h.mem_of_imported hd hm, n, rfl, .refl n⟩
  · rw [hf] at hn
    cases hn
    exact hb

variable [BEq α] [Hashable α]

/-- Emptiness is exact. No node at hand is without branches, and none is ever made, be it by
finishing a draft or from a list. A set is empty exactly if it lists nothing, and if a cursor finds
nothing. A draft is empty exactly if the set is that it comes to, and if no call on it contributes.
-/
structure Exact (b : Bench α) : Prop where
  sets_branches : ∀ s ∈ b.sets, ∀ n, s.Reaches n → n.branches ≠ []
  drafts_branches : ∀ d ∈ b.drafts, ∀ n, d.draft.Reaches n → n.branches ≠ []
  finish_branches : ∀ d ∈ b.drafts, ∀ supply n,
    (d.draft.finish.run supply).1.root = some n → n.branches ≠ []
  ofList_branches : ∀ (o : Order) (l : List α) supply n,
    ((TransitiveSet.ofList o l).run supply).1.root = some n → n.branches ≠ []
  sets_toList : ∀ s ∈ b.sets, s.isEmpty = true ↔ s.toList = []
  sets_cursor : ∀ s ∈ b.sets, s.isEmpty = true ↔ s.cursor.next.1 = none
  drafts_finish : ∀ d ∈ b.drafts, ∀ supply,
    d.draft.isEmpty = true ↔ (d.draft.finish.run supply).1.isEmpty = true
  drafts_calls : ∀ d ∈ b.drafts, d.draft.isEmpty = true ↔
    (∀ a, .add a ∉ d.calls) ∧ (∀ l, .addList l ∈ d.calls → l = []) ∧
      ∀ s, .addSet s ∈ d.calls → d.draft.Accepts s → s.isEmpty = true

theorem Sound.exact [EquivBEq α] [LawfulHashable α] (h : b.Sound) : b.Exact where
  sets_branches s hs n hn := h.stock.branches_ne_nil n ⟨s, hs, hn⟩
  drafts_branches d hd n hn := by
    obtain ⟨s, hs, -, hn⟩ := h.exists_mem_of_reaches hd hn
    exact h.stock.branches_ne_nil n ⟨s, hs, hn⟩
  finish_branches d hd supply n := h.branches_ne_nil_of_finish hd supply
  ofList_branches o l supply n := TransitiveSet.branches_ne_nil_of_ofList o l supply
  sets_toList s hs := h.stock.isEmpty_iff hs
  sets_cursor s hs := by
    have hc := h.stock.coherent hs
    have hnext : s.cursor.next.1 = s.linearise[0]? := (hc.lists_cursor.nth 0).1
    rw [h.stock.isEmpty_iff hs, hnext, hc.toList_eq, List.getElem?_eq_none_iff, Nat.le_zero,
      List.length_eq_zero_iff]
  drafts_finish d hd supply := by rw [d.draft.isEmpty_finish]
  drafts_calls d hd := d.isEmpty_iff

end Bench

/-! ### Sessions -/

namespace Session

variable {s : Session α}

/-- **Emptiness is exact.** Whatever the history, an answer that is given without a look at the
elements is the one that they would give. This is true of all sets and drafts, and so of those sets
that records and values hold. -/
theorem emptiness_exact [BEq α] [Hashable α] [EquivBEq α] [LawfulHashable α] (h : s.Reachable) :
    s.stringBench.Exact ∧ s.fileBench.Exact ∧ s.otherBench.Exact ∧ s.Closed :=
  ⟨h.sound.strings.exact, h.sound.files.exact, h.sound.others.exact, h.sound.closed⟩

/-- The draft of the sample is not empty, since the set that it imports has an element. -/
theorem emptiness_exact_sample : Sample.session.Reachable ∧
    Sample.leaf.toList ≠ [] ∧ Sample.wrapper.draft.isEmpty = false ∧
    ((Sample.wrapper.draft.finish).run ⟨7⟩).1.isEmpty = false := by
  obtain ⟨-, -, h, -⟩ := emptiness_exact Sample.reachable_session
  have hset := h.sets_toList Sample.leaf List.mem_cons_self
  have hdraft := h.drafts_finish Sample.wrapper List.mem_cons_self ⟨7⟩
  refine ⟨Sample.reachable_session, fun hl => ?_, rfl, ?_⟩
  · cases hset.mpr hl
  · exact Bool.eq_false_iff.mpr fun hf => by cases hdraft.mpr hf

end Session

end PluginClosure
