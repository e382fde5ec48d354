import PluginClosure.Proofs.TransitiveSet.Turns

/-!
# Skipped imports

A walk passes over an import whose node it has entered before. What it remembers at such a turn, and
at every other one, is settled by its past: the nodes are those that it has entered, the elements
those that it has yielded. Everything below a node that was entered and left again has been yielded.
So the import that is skipped has nothing to add. The walk could visit it once more, on its own or
before it goes on, and forget which nodes it had entered: no other elements would come of it.

## Main definitions

* `PluginClosure.Walk.yields`: the elements that turns have yielded.
* `PluginClosure.Walk.Skips`: the next turn passes over an import.
* `PluginClosure.Walk.again`, `PluginClosure.Walk.detour`: a second visit of a node.
* `PluginClosure.Walk.Remembers`: what a walk remembers, and what it may forget.

## Main results

* `PluginClosure.Walk.Takes.perm_yielded`: turns remember the elements that they yield.
* `PluginClosure.Walk.Sound.drain_again`, `PluginClosure.Walk.Sound.next_after_detour`: a second
  visit yields nothing, and changes nothing.
* `PluginClosure.Walk.Progress.remembers`: any walk that has taken turns since it began.
* `PluginClosure.Stock.remembers_turns`: the walks below any set at hand.
-/

namespace PluginClosure

variable {α : Type}

namespace Walk

variable [BEq α] [Hashable α]

/-- The element that the next turn yields, if there is one. -/
def yield? (w : Walk α) : Option α :=
  match w.turn with
  | .yield a _ => some a
  | _ => none

/-- The elements that turns have yielded, the first one first. -/
def yields (turns : List (Walk α)) : List α := turns.filterMap yield?

/-- The node is in the middle of its visit. -/
def OnStack (w : Walk α) (n : Node α) : Prop := ∃ v ∈ w.stack, v.node.id = n.id

/-- The next turn comes upon an import in a pass that follows imports, and does not enter it. -/
def Skips (w : Walk α) (m : Node α) : Prop :=
  ∃ n q, w.act? = some (.examine n q (.imported m)) ∧
    q.accepts (.imported m : Branch α (Node α)) = true ∧ w.entered? = none

/-- A visit of the node on its own. What is remembered are the elements yielded so far, and the
nodes given. -/
def again (w : Walk α) (m : Node α) (visited : Std.HashSet Serial) : Walk α :=
  ⟨w.plan, [Visit.start w.plan m], w.yielded, visited⟩

/-- The walk with a visit of the node ahead of what is left. What is remembered are the elements
yielded so far, and the nodes given. -/
def detour (w : Walk α) (m : Node α) (visited : Std.HashSet Serial) : Walk α :=
  ⟨w.plan, Visit.start w.plan m :: w.stack, w.yielded, visited⟩

/-- What a walk remembers that has taken turns since it began at a root, and what it may forget. -/
structure Remembers (root : Node α) (past : List (Walk α)) (w : Walk α) : Prop where
  /-- Every node on the stack is imported by the next one. -/
  linked : Linked w.stack
  /-- The nodes remembered are those that were entered. -/
  visited : w.visited.toList.Perm ((entries root past).map Node.id)
  /-- The elements remembered are those that were yielded. -/
  yielded : w.yielded.toList.Perm (yields past)
  /-- Everything below a node that was entered and left again has been yielded. -/
  finished : ∀ n ∈ entries root past, ¬ w.OnStack n → ∀ a, n.Contains a → a ∈ w.yielded
  /-- An import that is skipped was entered and left again. -/
  skipped : ∀ m, w.Skips m → m ∈ entries root past ∧ ¬ w.OnStack m
  /-- To visit it again would yield nothing, whichever nodes were forgotten. -/
  again : ∀ m, w.Skips m → ∀ visited, ((w.again m visited).drain []).1 = []
  /-- To visit it again before the walk goes on would change no answer. -/
  detour : ∀ m v visited, w.Skips m → w.turn.rest? = some v →
    (∀ i ∈ visited, i ∈ w.visited) →
      ∀ k, ((v.detour m visited).after k).next.1 = (v.after k).next.1

/-! ### Elements -/

theorem yields_cons (w : Walk α) (turns : List (Walk α)) :
    yields (w :: turns) = w.yield?.toList ++ yields turns := by
  rw [yields, List.filterMap_cons]
  cases w.yield? <;> rfl

/-- The turns of a call yield its answer. -/
theorem yields_spell (w : Walk α) : yields w.spell = w.next.1.toList := by
  fun_induction next w with
  | case1 w v hw =>
    rw [spell_of_done hw]
    rfl
  | case2 w v hw ih =>
    rw [spell_of_quiet hw, yields_cons, yield?, hw]
    exact ih
  | case3 w a v hw =>
    rw [spell_of_yield hw, yields_cons, yield?, hw]
    rfl

/-- The turns of calls yield their answers. -/
theorem yields_turns (w : Walk α) (k : Nat) :
    yields (w.turns k) = (List.range k).filterMap fun i => (w.after i).next.1 := by
  induction k with
  | zero => rfl
  | succ k ih =>
    have hs := (w.after k).yields_spell
    rw [yields] at ih hs
    rw [turns_succ, yields, List.filterMap_append, ih, hs, List.range_succ, List.filterMap_append]
    cases h : (w.after k).next.1 <;> simp [h]

theorem perm_yielded_of_turn [EquivBEq α] [LawfulHashable α] {w v : Walk α}
    (h : w.turn.rest? = some v) : v.yielded.toList.Perm (w.yielded.toList ++ w.yield?.toList) := by
  rw [yield?]
  revert h
  fun_cases turn w with
  | case1 => intro h; cases h
  | case4 p n q passes a rest stack yielded visited ha =>
    intro h
    cases h
    have ha : a ∉ yielded := by simpa using (Bool.and_eq_true_iff.mp ha).2
    have hi := Std.HashSet.toList_insert_perm (m := yielded) (k := a)
    rw [if_neg ha] at hi
    exact hi.trans (List.perm_append_singleton a _).symm
  | case2 | case3 | case5 | case6 | case7 =>
    intro h
    cases h
    exact .of_eq (List.append_nil _).symm

/-- The elements that turns yield are remembered, and no others. -/
theorem Takes.perm_yielded [EquivBEq α] [LawfulHashable α] {w v : Walk α} {l : List (Walk α)}
    (h : Takes w l v) : v.yielded.toList.Perm (w.yielded.toList ++ yields l) := by
  induction h with
  | none w => exact .of_eq (List.append_nil _).symm
  | turn hw _ ih =>
    rw [yields_cons, ← List.append_assoc]
    exact ih.trans ((perm_yielded_of_turn hw).append_right _)

/-! ### Skipped imports -/

variable {root m n : Node α} {w v : Walk α} {p : Plan} {o : Order} {u : Visit α}
  {stack : List (Visit α)} {yielded : Std.HashSet α} {visited visited' : Std.HashSet Serial}
  {past : List (Walk α)}

theorem stack_of_act? {q : Pass} {b : Branch α (Node α)}
    (h : w.act? = some (.examine n q b)) :
    ∃ passes rest stack, w.stack = ⟨n, q :: passes, b :: rest⟩ :: stack := by
  rw [act?] at h
  split at h
  · cases h
  · cases h
  · cases h
  · next hs =>
    cases h
    exact ⟨_, _, _, hs⟩

/-- In a pass that follows imports, an import is skipped just in case it was entered before. -/
theorem entered?_eq_none_iff {q : Pass} (h : w.act? = some (.examine n q (.imported m)))
    (hq : q.accepts (.imported m : Branch α (Node α)) = true) :
    w.entered? = none ↔ m.id ∈ w.visited := by
  obtain ⟨passes, rest, stack, hstack⟩ := stack_of_act? h
  obtain ⟨p, _, yielded, visited⟩ := w
  cases hstack
  by_cases hm : m.id ∈ visited <;> simp [entered?, turn, hq, hm, Turn.rest?]

/-- When an import is skipped, the walk goes on to the next branch. -/
theorem Skips.exists_turn (h : w.Skips m) :
    ∃ n q passes rest stack, w.stack = ⟨n, q :: passes, .imported m :: rest⟩ :: stack ∧
      m.id ∈ w.visited ∧
        w.turn = .quiet ⟨w.plan, ⟨n, q :: passes, rest⟩ :: stack, w.yielded, w.visited⟩ := by
  obtain ⟨n, q, hact, hq, hentered⟩ := h
  have hm : m.id ∈ w.visited := (entered?_eq_none_iff hact hq).mp hentered
  obtain ⟨passes, rest, stack, hstack⟩ := stack_of_act? hact
  obtain ⟨p, _, yielded, visited⟩ := w
  cases hstack
  refine ⟨n, q, passes, rest, stack, rfl, hm, ?_⟩
  simp [turn, Std.HashSet.mem_iff_contains.mp hm]

/-- An import that is skipped is not on the stack, and everything below it was yielded. -/
theorem Sound.of_skips (h : w.Sound root) (hc : root.Coherent) (hs : w.Skips m) :
    root.Reaches m ∧ ¬ w.OnStack m ∧ ∀ a ∈ m.unfold w.plan, a ∈ w.yielded := by
  obtain ⟨n, q, passes, rest, stack, hstack, hid, -⟩ := hs.exists_turn
  obtain ⟨p, _, yielded, visited⟩ := w
  cases hstack
  have hm : n.Imports m := h.rest_subset _ List.mem_cons_self List.mem_cons_self
  have hr : root.Reaches m := (h.reaches _ List.mem_cons_self).tail hm
  refine ⟨hr, ?_, h.mem_yielded_of_skip hm hid⟩
  rintro ⟨u, hu, hum⟩
  -- The importer is on top of the stack, so that a visit of the import would close a cycle.
  have hu' := h.linked.reaches u hu
  rw [hc u.node m (h.reaches u hu) hr hum] at hu'
  exact hm.not_reaches hu'

/-! ### Second visits -/

/-- A visit below which everything was yielded leaves what is left as it is. -/
theorem remaining_visit (hy : ∀ a ∈ m.unfold p, a ∈ yielded) :
    remaining ⟨p, Visit.start p m :: stack, yielded, visited⟩ =
      remaining ⟨p, stack, yielded, visited'⟩ := by
  rw [remaining_eq, List.filter_append, Visit.pending_start, List.filter_eq_nil_iff.mpr]
  · rfl
  · intro a ha
    simp [Std.HashSet.mem_iff_contains.mp (hy a ha)]

/-- A visit below which everything was yielded may begin on top, and nodes may be forgotten. -/
theorem Sound.visit (h : Sound root ⟨p, u :: stack, yielded, visited⟩) (hm : u.node.Imports m)
    (hy : ∀ a ∈ m.unfold p, a ∈ yielded) (hv : ∀ i ∈ visited', i ∈ visited) :
    Sound root ⟨p, Visit.start p m :: u :: stack, yielded, visited'⟩ where
  reaches := List.forall_mem_cons.mpr ⟨(h.reaches u List.mem_cons_self).tail hm, h.reaches⟩
  linked := h.linked.push hm p
  rest_subset := List.forall_mem_cons.mpr ⟨Visit.rest_start_subset p m, h.rest_subset⟩
  covered := ⟨fun a ha => Or.inl (hy a ha), h.covered.mono fun _ ha => Or.inl ha⟩
  visited n hn hid := (h.visited n hn (hv _ hid)).imp_left fun ⟨t, ht, htn⟩ =>
    ⟨t, List.mem_cons_of_mem _ ht, htn⟩

/-- Where everything below a node was yielded, a walk from there is sound whatever nodes it
remembers. -/
theorem Sound.again (hy : ∀ a ∈ m.unfold o.plan, a ∈ yielded) :
    Sound m ⟨o.plan, [Visit.start o.plan m], yielded, visited⟩ where
  reaches := List.forall_mem_singleton.mpr (.refl m)
  linked := Linked.singleton _
  rest_subset := List.forall_mem_singleton.mpr (Visit.rest_start_subset o.plan m)
  covered := ⟨fun a ha => Or.inl (hy a ha), trivial⟩
  visited n hn _ := Or.inr fun a ha => by
    obtain ⟨l, hl, hla⟩ := Node.mem_unfold_plan.mp ha
    exact hy a (Node.mem_unfold_plan.mpr ⟨l, hn.trans hl, hla⟩)

variable [EquivBEq α] [LawfulHashable α]

/-- To visit a skipped import again, on its own, yields nothing. -/
theorem Sound.drain_again (h : w.Sound root) (hc : root.Coherent) (hp : w.plan = o.plan)
    (hs : w.Skips m) (visited : Std.HashSet Serial) : ((w.again m visited).drain []).1 = [] := by
  obtain ⟨hr, -, hy⟩ := h.of_skips hc hs
  have hcm : m.Coherent := fun k l hk hl => hc k l (hr.trans hk) (hr.trans hl)
  have hsound : (w.again m visited).Sound m := by
    rw [Walk.again, hp]
    exact .again (hp ▸ hy)
  have hleft : (w.again m visited).remaining = remaining ⟨w.plan, [], w.yielded, visited⟩ :=
    remaining_visit hy
  rw [(hsound.drain hcm []).1, hleft]
  rfl

/-- To visit a skipped import again, before the walk goes on, changes no answer. -/
theorem Sound.next_after_detour (h : w.Sound root) (hc : root.Coherent) (hs : w.Skips m)
    (hv : w.turn.rest? = some v) (hvisited : ∀ i ∈ visited, i ∈ w.visited) (k : Nat) :
    ((v.detour m visited).after k).next.1 = (v.after k).next.1 := by
  obtain ⟨-, -, hy⟩ := h.of_skips hc hs
  obtain ⟨n, q, passes, rest, stack, hstack, -, hturn⟩ := hs.exists_turn
  have hm : n.Imports m := h.rest_subset _ (hstack ▸ List.mem_cons_self) List.mem_cons_self
  have hsound := (h.turn_quiet hc hturn).1
  rw [hturn] at hv
  cases hv
  have hdetour := hsound.visit hm hy hvisited
  have hleft := hdetour.next_after hc k
  rw [remaining_visit hy] at hleft
  rw [hsound.next_after hc k]
  exact hleft

/-- What a walk remembers is settled by its past. -/
theorem Progress.remembers (h : Progress o.plan root past w) (hc : root.Coherent)
    (hw : Takes (Walk.start o.plan root) past w) : Remembers root past w where
  linked := h.sound.linked
  visited := by
    have hn : w.visited.toList.Nodup :=
      Std.HashSet.distinct_toList.imp fun hij => ne_of_beq_false hij
    refine (List.perm_ext_iff_of_nodup hn h.nodup).mpr fun i => ?_
    rw [Std.HashSet.mem_toList, h.mem_visited]
  yielded := by
    have hp := hw.perm_yielded
    rwa [Walk.start, Std.HashSet.toList_empty, List.nil_append] at hp
  finished n hn hstack a ha := by
    have hid := (h.mem_visited n.id).mpr (List.mem_map_of_mem hn)
    obtain ⟨v, hv, rfl⟩ | hy := h.sound.visited n (h.reaches n hn) hid
    · exact absurd ⟨v, hv, rfl⟩ hstack
    · rw [h.plan] at hy
      exact hy a (Node.mem_unfold_plan.mpr ha)
  skipped m hs := by
    obtain ⟨hr, hstack, -⟩ := h.sound.of_skips hc hs
    obtain ⟨n, q, passes, rest, stack, -, hid, -⟩ := hs.exists_turn
    obtain ⟨l, hl, hlm⟩ := List.mem_map.mp ((h.mem_visited m.id).mp hid)
    exact ⟨hc l m (h.reaches l hl) hr hlm ▸ hl, hstack⟩
  again m hs visited := h.sound.drain_again hc h.plan hs visited
  detour m v visited hs hv hvisited := h.sound.next_after_detour hc hs hv hvisited

end Walk

namespace Stock

variable [BEq α] [Hashable α] [EquivBEq α] [LawfulHashable α]

/-- **What a walk skips it has dealt with.** Whatever the set was made of and in whatever order it
is walked, at every turn the walk remembers the nodes that it has entered and the elements that it
has yielded, and an import that it skips has nothing to add. This is so within calls and between
them. The elements that the turns of calls yield are the answers of the calls. -/
theorem remembers_turns {st : Stock α} (h : st.Reachable) {s : TransitiveSet α} (hs : s ∈ st.sets)
    {root : Node α} (hr : s.root = some root) (o : Order) :
    (∀ past w, (Walk.start o.plan root).Takes past w → Walk.Remembers root past w) ∧
      ∀ k, (Walk.start o.plan root).Takes ((Walk.start o.plan root).turns k)
          ((Walk.start o.plan root).after k) ∧
        Walk.yields ((Walk.start o.plan root).turns k) =
          (List.range k).filterMap fun i => ((Walk.start o.plan root).after i).next.1 := by
  have hc : root.Coherent := h.sound.coherent hs root hr
  refine ⟨fun past w hw => ?_, fun k => ⟨Walk.takes_turns _ k, Walk.yields_turns _ k⟩⟩
  exact ((Walk.Progress.start o.plan hc).takes hc hw).remembers hc hw

namespace Shared

/-- A walk from `top` enters `base`, yields what it holds and leaves it, and enters `side`. There it
comes upon `base` again. -/
theorem exists_takes_skips : ∃ past w,
    (Walk.start Order.insertion.plan top).Takes past w ∧ w.Skips base := by
  have hpos {c : Bool} {t t' : Walk.Turn Nat} {v : Walk Nat} (hc : c = true)
      (ht : t.rest? = some v) : (if c = true then t else t').rest? = some v := by
    rw [if_pos hc, ht]
  refine ⟨_, _, .turn (hpos (by simp [Pass.accepts, base, top]) rfl) <|
    .turn (hpos (by simp [Pass.accepts]) rfl) <| .turn (hpos (by simp [Pass.accepts]) rfl) <|
    .turn rfl <| .turn rfl <| .turn (hpos (by simp [Pass.accepts, side, base, top]) rfl) <| .none _,
    side, .all, rfl, rfl, ?_⟩
  exact (Walk.entered?_eq_none_iff rfl rfl).mpr (by simp [base])

end Shared

/-- Behind `Shared.side` the walk does not enter `Shared.base` a second time. -/
theorem remembers_turns_top : ∃ past w, (Walk.start Order.insertion.plan Shared.top).Takes past w ∧
    w.Skips Shared.base ∧ ¬ w.OnStack Shared.base ∧ ((w.again Shared.base ∅).drain []).1 = [] := by
  obtain ⟨past, w, hw, hs⟩ := Shared.exists_takes_skips
  obtain ⟨hremembers, -⟩ := remembers_turns Shared.reachable_triangle
    (s := Shared.setOf Shared.top) List.mem_cons_self rfl .insertion
  have h := hremembers past w hw
  exact ⟨past, w, hw, hs, (h.skipped _ hs).2, h.again _ hs ∅⟩

end Stock

end PluginClosure
