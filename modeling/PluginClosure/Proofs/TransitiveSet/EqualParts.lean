import PluginClosure.Proofs.TransitiveSet.Gathering

/-!
# Sets made of equal parts

Equal sets may be made of different nodes. Nevertheless no draft tells them apart: if the imports of
a draft are replaced by equal sets, the same calls are refused, with the same error, and the set
that the draft comes to is equal to the one that it came to before. The argument is that the list of
a set depends on the lists of its parts only, and that every order gathers matching parts into
matching lists.

Elements are compared by `==`, of which nothing but an equivalence is asked. Two lists *match* if
they have equal elements, place by place.

## Main definitions

* `PluginClosure.TransitiveSet.Matches`: sets of one order with matching lists.
* `PluginClosure.Stock.Replaces`: a call whose import, if any, is replaced by an equal set.

## Main results

* `PluginClosure.Order.gather_matching`: matching parts are gathered into matching lists.
* `PluginClosure.Stock.Sound.matches_of_beq`: sets at hand are equal only if they match.
* `PluginClosure.Stock.Sound.ofCalls_replaces`: drafts with replaced imports.
-/

namespace PluginClosure

variable {α : Type}

/-- Whether an import is refused, and with which error, depends on the order of the set only. -/
theorem Draft.addSet_ofCalls_eq_error_iff (o : Order) (calls : List (Call α)) (s : TransitiveSet α)
    (supply : Supply) (e : OrderMismatch) :
    ((ofCalls o calls).run supply).1.addSet s = .error e ↔ s.order ≠ o ∧ e = ⟨o, s.order⟩ := by
  rw [addSet_eq_error_iff, (ofCalls_spec o calls supply).1]

section Branches

variable [BEq α]

/-- The branches have equal own elements, or import matching lists. -/
inductive Branch.Matches : Branch α (List α) → Branch α (List α) → Prop
  | own {a b : α} (h : (a == b) = true) : Matches (own a) (own b)
  | imported {l k : List α} (h : Matching l k) : Matches (imported l) (imported k)

theorem Branch.Matches.elements {b c : Branch α (List α)} (h : b.Matches c) :
    Matching b.elements c.elements := by
  cases h with
  | own h => exact .cons h .nil
  | imported h => exact h

theorem Branch.Matches.own? {b c : Branch α (List α)} (h : b.Matches c) :
    Option.Rel (fun a b => (a == b) = true) b.own? c.own? := by
  cases h with
  | own h => exact .some h
  | imported _ => exact .none

theorem Branch.Matches.imported? {b c : Branch α (List α)} (h : b.Matches c) :
    Option.Rel Matching b.imported? c.imported? := by
  cases h with
  | own _ => exact .none
  | imported h => exact .some h

/-- Matching parts are gathered into matching lists. -/
theorem Order.gather_matching [EquivBEq α] (o : Order) {bs cs : List (Branch α (List α))}
    (h : List.Forall₂ Branch.Matches bs cs) : Matching (o.gather bs) (o.gather cs) := by
  have hown : Matching (bs.filterMap Branch.own?) (cs.filterMap Branch.own?) :=
    List.rel_filterMap (fun _ _ => Branch.Matches.own?) h
  have himported : Matching (bs.filterMap Branch.imported?).flatten
      (cs.filterMap Branch.imported?).flatten :=
    List.rel_flatten (List.rel_filterMap (fun _ _ => Branch.Matches.imported?) h)
  cases o with
  | insertion => exact Matching.eraseDups (List.rel_flatMap h fun _ _ => Branch.Matches.elements)
  | postorder => exact Matching.eraseDups (List.rel_append himported hown)
  | preorder => exact Matching.eraseDups (List.rel_append hown himported)
  | topological => exact Matching.keepLast (List.rel_append hown himported)

end Branches

variable [BEq α] [Hashable α]

namespace TransitiveSet

/-- The sets have the same order and matching lists. Either both or none of them has a root. -/
structure Matches (s t : TransitiveSet α) : Prop where
  order : s.order = t.order
  toList : Matching s.toList t.toList
  isEmpty : s.isEmpty = t.isEmpty

theorem Matches.beq {s t : TransitiveSet α} (h : s.Matches t) : (s == t) = true := by
  show (decide (s.order = t.order) && (s.same t || s.toList == t.toList)) = true
  rw [matching_iff_beq.mp h.toList, decide_eq_true h.order, Bool.or_true, Bool.and_true]

end TransitiveSet

namespace Stock

variable {st : Stock α}

/-- A call, and the call that takes its place: an import may give way to that of an equal set. Both
sets are at hand. -/
inductive Replaces (st : Stock α) : Draft.Call α → Draft.Call α → Prop
  | add (a : α) : Replaces st (.add a) (.add a)
  | addList (l : List α) : Replaces st (.addList l) (.addList l)
  | addSet {s t : TransitiveSet α} (hs : s ∈ st.sets) (ht : t ∈ st.sets) (h : (s == t) = true) :
      Replaces st (.addSet s) (.addSet t)
  | finish : Replaces st .finish .finish

theorem mem_of_replaces {calls calls' : List (Draft.Call α)}
    (hc : List.Forall₂ st.Replaces calls calls') :
    (∀ s, .addSet s ∈ calls → s ∈ st.sets) ∧ ∀ s, .addSet s ∈ calls' → s ∈ st.sets := by
  induction hc with
  | nil => exact ⟨fun s h => absurd h List.not_mem_nil, fun s h => absurd h List.not_mem_nil⟩
  | cons h _ ih =>
    constructor
    · intro s hs
      rcases List.mem_cons.mp hs with rfl | hs
      · cases h
        assumption
      · exact ih.1 s hs
    · intro s hs
      rcases List.mem_cons.mp hs with rfl | hs
      · cases h
        assumption
      · exact ih.2 s hs

variable [EquivBEq α] [LawfulHashable α] {s t : TransitiveSet α}

/-- Sets at hand with the same order and matching lists are empty only together. -/
theorem Sound.matches_of_matching (h : st.Sound) (hs : s ∈ st.sets) (ht : t ∈ st.sets)
    (ho : s.order = t.order) (hl : Matching s.toList t.toList) : s.Matches t := by
  refine ⟨ho, hl, Bool.eq_iff_iff.mpr ?_⟩
  rw [h.isEmpty_iff hs, h.isEmpty_iff ht, hl.eq_nil_iff]

/-- The short cut for one and the same object is justified. -/
theorem Sound.matches_of_beq (h : st.Sound) (hs : s ∈ st.sets) (ht : t ∈ st.sets)
    (heq : (s == t) = true) : s.Matches t := by
  have heq : (decide (s.order = t.order) && (s.same t || s.toList == t.toList)) = true := heq
  rw [Bool.and_eq_true, decide_eq_true_iff, Bool.or_eq_true] at heq
  obtain ⟨ho, hsame | hl⟩ := heq
  · rw [h.eq_of_same hs ht ho hsame]
    exact ⟨rfl, Matching.refl _, rfl⟩
  · exact h.matches_of_matching hs ht ho (matching_iff_beq.mpr hl)

theorem Sound.parts_matches (h : st.Sound) (o : Order) {c c' : Draft.Call α}
    (hc : st.Replaces c c') : List.Forall₂ Branch.Matches
      (c.parts TransitiveSet.toList o) (c'.parts TransitiveSet.toList o) := by
  cases hc with
  | add a => exact .cons (.own BEq.rfl) .nil
  | addList l =>
    exact List.forall₂_map_left_iff.mpr (List.forall₂_map_right_iff.mpr
      (List.forall₂_same.mpr fun _ _ => .own BEq.rfl))
  | addSet hs ht heq =>
    have hm := h.matches_of_beq hs ht heq
    rw [Draft.Call.parts, Draft.Call.parts, hm.order]
    split
    · exact .cons (.imported hm.toList) .nil
    · exact .nil
  | finish => exact .nil

/-- The import of an equal set is refused with the same error, or accepted as well. -/
theorem Sound.addSet_eq_error_iff (h : st.Sound) (o : Order) (calls calls' : List (Draft.Call α))
    (hs : s ∈ st.sets) (ht : t ∈ st.sets) (heq : (s == t) = true) (supply supply' : Supply)
    (e : OrderMismatch) :
    ((Draft.ofCalls o calls).run supply).1.addSet s = .error e ↔
      ((Draft.ofCalls o calls').run supply').1.addSet t = .error e := by
  rw [Draft.addSet_ofCalls_eq_error_iff, Draft.addSet_ofCalls_eq_error_iff,
    (h.matches_of_beq hs ht heq).order]

/-- What a draft comes to stays equal when imports give way to equal sets. The two runs may start
with different supplies. -/
theorem Sound.ofCalls_replaces (h : st.Sound) (o : Order) {calls calls' : List (Draft.Call α)}
    (hc : List.Forall₂ st.Replaces calls calls') {supply supply' : Supply}
    (hle : st.supply.next ≤ supply.next) (hle' : st.supply.next ≤ supply'.next) :
    ((TransitiveSet.ofCalls o calls).run supply).1.Matches
      ((TransitiveSet.ofCalls o calls').run supply').1 := by
  obtain ⟨hs, hs'⟩ := mem_of_replaces hc
  have hn := hle.trans (TransitiveSet.ofCalls_next_le o calls supply)
  have hn' := hle'.trans (TransitiveSet.ofCalls_next_le o calls' supply')
  -- Each set is put into a stock of its own: they may have been given the same serial number.
  have hput := h.put hn (brings_ofCalls hle hs)
  have hput' := h.put hn' (brings_ofCalls hle' hs')
  have hl := o.gather_matching (List.rel_flatMap hc fun _ _ => h.parts_matches o)
  rw [← h.toList_eq_gather o hs hle, ← h.toList_eq_gather o hs' hle'] at hl
  refine ⟨?_, hl, Bool.eq_iff_iff.mpr ?_⟩
  · rw [TransitiveSet.order_ofCalls, TransitiveSet.order_ofCalls]
  · rw [hput.isEmpty_iff List.mem_cons_self, hput'.isEmpty_iff List.mem_cons_self, hl.eq_nil_iff]

end Stock

end PluginClosure
