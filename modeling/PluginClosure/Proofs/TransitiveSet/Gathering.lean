import PluginClosure.Proofs.TransitiveSet.History

/-!
# The list of a set in terms of its parts

A set is walked as one graph, with one memory for all its nodes. Nevertheless its list depends on
the lists of its parts only. Every order gathers own elements and the lists of imports in its own
way: three orders keep the first occurrence of an element, and the topological order lists the own
elements in front of the imports and keeps the last one.

## Main definitions

* `PluginClosure.Order.gather`: what an order makes of own elements and lists of imports.
* `PluginClosure.Draft.Call.parts`: what a call contributes.

## Main results

* `PluginClosure.Order.finish_arrange`: an order may finish the parts before it arranges them.
* `PluginClosure.Stock.toList_ofCalls`: the list of a set made by calls on a draft.
-/

namespace PluginClosure

variable {α : Type}

namespace Order

/-- The list that an order makes of own elements and the lists of imports, in the sequence in which
they were added. -/
def gather [BEq α] : Order → List (Branch α (List α)) → List α
  | insertion, bs => (bs.flatMap Branch.elements).eraseDups
  | postorder, bs =>
    ((bs.filterMap Branch.imported?).flatten ++ bs.filterMap Branch.own?).eraseDups
  | preorder, bs =>
    (bs.filterMap Branch.own? ++ (bs.filterMap Branch.imported?).flatten).eraseDups
  | topological, bs =>
    keepLast (bs.filterMap Branch.own? ++ (bs.filterMap Branch.imported?).flatten)

/-- The import of an empty list changes nothing. -/
theorem arrange_imported_nil (o : Order) (bs bs' : List (Branch α (List α))) :
    o.arrange (bs ++ .imported [] :: bs') = o.arrange (bs ++ bs') := by
  cases o <;> simp [arrange, List.filterMap_cons, Branch.own?, Branch.imported?]

variable [BEq α] [EquivBEq α]

theorem eraseDups_flatten_map (f : List α → List α) (hf : ∀ l, (f l).eraseDups = l.eraseDups)
    (L : List (List α)) : (L.map f).flatten.eraseDups = L.flatten.eraseDups := by
  rw [← List.flatMap_def, ← List.flatMap_id']
  exact eraseDups_flatMap_congr fun l _ => hf l

/-- An order may finish the lists of the imports before it gathers them. -/
theorem finish_arrange (o : Order) (bs : List (Branch α (List α))) :
    o.finish (o.arrange bs) = o.gather (bs.map (Branch.map o.finish)) := by
  cases o with
  | insertion =>
    rw [gather, List.flatMap_map]
    refine eraseDups_flatMap_congr fun b _ => ?_
    cases b with
    | own a => rfl
    | imported l => exact (eraseDups_eraseDups l).symm
  | postorder =>
    rw [gather, Branch.filterMap_own?_map, Branch.filterMap_imported?_map]
    exact eraseDups_append_congr (eraseDups_flatten_map _ eraseDups_eraseDups _).symm rfl
  | preorder =>
    rw [gather, Branch.filterMap_own?_map, Branch.filterMap_imported?_map]
    exact eraseDups_append_congr rfl (eraseDups_flatten_map _ eraseDups_eraseDups _).symm
  | topological =>
    rw [gather, Branch.filterMap_own?_map, Branch.filterMap_imported?_map, keepLast,
      List.reverse_append, List.reverse_flatten]
    refine congrArg List.reverse (eraseDups_append_congr ?_ rfl)
    rw [List.map_map, ← List.map_reverse]
    refine (eraseDups_flatten_map _ (fun l => ?_) _).symm
    rw [Function.comp_apply, finish, List.reverse_reverse, eraseDups_eraseDups]

end Order

/-! ### Sets made by calls -/

namespace TransitiveSet

/-- The elements behind a set, repetitions included. -/
def expansion (s : TransitiveSet α) : List α :=
  match s.root with
  | none => []
  | some n => n.expand s.order

theorem linearise_eq_finish [BEq α] (s : TransitiveSet α) :
    s.linearise = s.order.finish s.expansion := by
  obtain ⟨o, _ | n⟩ := s
  · cases o <;> rfl
  · rfl

end TransitiveSet

namespace Draft

/-- What a call contributes to a set of an order, when `f` tells what an import contributes. Sets of
another order are refused. -/
def Call.parts (f : TransitiveSet α → List α) (o : Order) : Call α → List (Branch α (List α))
  | add a => [.own a]
  | addList l => l.map .own
  | addSet s => if s.order = o then [.imported (f s)] else []
  | finish => []

theorem order_finish (d : Draft α) (supply : Supply) : (d.finish.run supply).1.order = d.order := by
  obtain ⟨-, h⟩ | ⟨n, -, h⟩ | ⟨-, h⟩ := d.finish_spec supply <;> rw [h]
  rfl

theorem expansion_finish (d : Draft α) (supply : Supply) :
    (d.finish.run supply).1.expansion =
      d.order.arrange (d.branches.map (Branch.map (Node.expand d.order))) := by
  obtain ⟨hb, h⟩ | ⟨n, hb, h⟩ | ⟨hb, h⟩ := d.finish_spec supply
  · rw [h, hb]
    cases d.order <;> rfl
  · rw [h, hb]
    cases d.order <;> simp [TransitiveSet.expansion, Order.arrange, Branch.own?, Branch.imported?]
  · rw [h]
    exact Node.expand_eq ..

theorem arrange_branches (o : Order) (bs : List (Branch α (List α))) (calls : List (Call α)) :
    o.arrange (bs ++ (calls.flatMap (Call.branches o)).map (Branch.map (Node.expand o))) =
      o.arrange (bs ++ calls.flatMap (Call.parts TransitiveSet.expansion o)) := by
  induction calls generalizing bs with
  | nil => rfl
  | cons c calls ih =>
    rw [List.flatMap_cons, List.flatMap_cons, List.map_append, ← List.append_assoc, ih,
      List.append_assoc]
    cases c with
    | add a => rfl
    | addList l => rw [Call.branches, List.map_map]; rfl
    | addSet s =>
      rw [Call.branches, Call.parts]
      split
      · next ho =>
        obtain ⟨_, _ | n⟩ := s
        · exact (o.arrange_imported_nil bs _).symm
        · cases ho
          rfl
      · rfl
    | finish => rfl

end Draft

namespace TransitiveSet

theorem order_ofCalls (o : Order) (calls : List (Draft.Call α)) (supply : Supply) :
    ((ofCalls o calls).run supply).1.order = o := by
  obtain ⟨d, supply', ho, -, -, hd⟩ := ofCalls_run o calls supply
  rw [hd, Draft.order_finish, ho]

theorem ofList_spec (o : Order) (l : List α) (supply : Supply) :
    ((ofList o l).run supply).1.order = o ∧ supply.next ≤ ((ofList o l).run supply).2.next := by
  rw [ofList_eq_finish]
  exact ⟨(Draft.order_finish _ supply).trans (Draft.order_addList _ l),
    Draft.finish_next_le _ supply⟩

theorem isEmpty_ofCalls (o : Order) (calls : List (Draft.Call α)) (supply : Supply) :
    ((ofCalls o calls).run supply).1.isEmpty = true ↔
      calls.flatMap (Draft.Call.branches o) = [] := by
  obtain ⟨d, supply', -, hb, -, hd⟩ := ofCalls_run o calls supply
  rw [hd, ← hb]
  rcases d.finish_spec supply' with ⟨hd, h⟩ | ⟨n, hd, h⟩ | ⟨hd, h⟩
  · simp [h, hd]
  · simp [h, hd, isEmpty]
  · simp [h, hd, isEmpty]

/-- The recursion over the graph, one level deep. -/
theorem linearise_ofCalls [BEq α] [EquivBEq α] (o : Order) (calls : List (Draft.Call α))
    (supply : Supply) : ((ofCalls o calls).run supply).1.linearise =
      o.gather (calls.flatMap (Draft.Call.parts linearise o)) := by
  obtain ⟨d, supply', ho, hb, -, hd⟩ := ofCalls_run o calls supply
  have harrange := Draft.arrange_branches o [] calls
  rw [List.nil_append, List.nil_append] at harrange
  rw [hd, linearise_eq_finish, Draft.order_finish, Draft.expansion_finish, ho, hb, harrange,
    Order.finish_arrange, List.map_flatMap]
  congr 1
  refine List.flatMap_congr fun c _ => ?_
  cases c with
  | add a => rfl
  | addList l => rw [Draft.Call.parts, List.map_map]; rfl
  | addSet s =>
    rw [Draft.Call.parts, Draft.Call.parts]
    split
    · next ho => rw [linearise_eq_finish, ho]; rfl
    · rfl
  | finish => rfl

end TransitiveSet

namespace Stock

variable [BEq α] [Hashable α] [EquivBEq α] [LawfulHashable α]

theorem Sound.toList_eq_gather {st : Stock α} (h : st.Sound) (o : Order)
    {calls : List (Draft.Call α)} (hs : ∀ s, .addSet s ∈ calls → s ∈ st.sets) {supply : Supply}
    (hle : st.supply.next ≤ supply.next) :
    ((TransitiveSet.ofCalls o calls).run supply).1.toList =
      o.gather (calls.flatMap (Draft.Call.parts TransitiveSet.toList o)) := by
  have hn := hle.trans (TransitiveSet.ofCalls_next_le o calls supply)
  have hc := (h.put hn (brings_ofCalls hle hs)).coherent List.mem_cons_self
  rw [hc.toList_eq, TransitiveSet.linearise_ofCalls]
  congr 1
  refine List.flatMap_congr fun c hc => ?_
  cases c with
  | addSet s => rw [Draft.Call.parts, Draft.Call.parts, (h.coherent (hs s hc)).toList_eq]
  | add | addList | finish => rfl

/-- **The list of a set depends on the lists of its parts only.** The calls may add elements, import
sets at hand, empty ones and repeated ones among them, try to import sets of another order, which
are refused, and finish the draft in between. -/
theorem toList_ofCalls {st : Stock α} (h : st.Reachable) (o : Order)
    {calls : List (Draft.Call α)} (hs : ∀ s, .addSet s ∈ calls → s ∈ st.sets) :
    ((TransitiveSet.ofCalls o calls).run st.supply).1.toList =
        o.gather (calls.flatMap (Draft.Call.parts TransitiveSet.toList o)) ∧
      ∀ (before : List (Draft.Call α)) (s : TransitiveSet α) (e : OrderMismatch),
        ((Draft.ofCalls o before).run st.supply).1.addSet s = .error e ↔
          s.order ≠ o ∧ e = ⟨o, s.order⟩ := by
  refine ⟨h.sound.toList_eq_gather o hs (Nat.le_refl _), fun before s e => ?_⟩
  rw [Draft.addSet_eq_error_iff, (Draft.ofCalls_spec o before st.supply).1]

theorem toList_ofCalls_pair :
    ((TransitiveSet.ofCalls .topological [.addSet (Shared.setOf Shared.base), .add 4, .finish,
      .addSet (Shared.setOf Shared.side), .addSet (Shared.setOf Shared.base)]).run
        Shared.pair.supply).1.toList = [4, 3, 1, 2] := by
  refine (toList_ofCalls Shared.reachable_pair .topological fun s hs =>
    Shared.setOf_mem_pair ?_).1.trans ?_
  · simp only [List.mem_cons, Draft.Call.addSet.injEq, reduceCtorEq, List.not_mem_nil, or_false,
      false_or] at hs
    rcases hs with rfl | rfl | rfl
    · exact Or.inl rfl
    · exact Or.inr rfl
    · exact Or.inl rfl
  · have hlist {s : TransitiveSet Nat} (hs : s = Shared.setOf Shared.base ∨
        s = Shared.setOf Shared.side) : s.toList = s.linearise :=
      (Shared.reachable_pair.sound.coherent (Shared.setOf_mem_pair hs)).toList_eq
    simp only [List.flatMap_cons, List.flatMap_nil, Draft.Call.parts, hlist (Or.inl rfl),
      hlist (Or.inr rfl)]
    rfl

end Stock

end PluginClosure
