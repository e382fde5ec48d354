import PluginClosure.TransitiveSet.Outline
import PluginClosure.Proofs.TransitiveSet.History

/-!
# Calls on a cursor

A cursor is asked for the next element, or for one further on, for all elements that are left, for
their number or for the last of them, and its debug text may be looked at in between. Behind the
answers there is a walk, which is suspended after every element and resumed at the next call, and
which the topological order makes all at once when the first element is asked for.

None of this shows. The answers are those of a *bookmark*: a place in the list of the set, which
moves over the elements that have been read. The debug text is settled by the order of the set, by
whether the set is empty, and by whether an element has been asked for.

## Main definitions

* `PluginClosure.Cursor.Call`, `PluginClosure.Cursor.perform`, `PluginClosure.Cursor.answers`: calls
  and what a cursor answers.
* `PluginClosure.Bookmark`, with `Bookmark.perform` and `Bookmark.answers`: a place in a list.
* `PluginClosure.Cursor.Follows`: the cursor stands where the bookmark is.

## Main results

* `PluginClosure.Cursor.rest_eq`: to read all that is left is to read element by element.
* `PluginClosure.Cursor.Follows.perform`: one call.
* `PluginClosure.Stock.answers_cursor`: all calls, in any sequence.
-/

namespace PluginClosure

variable {α : Type}

/-! ### Calls and answers -/

/-- A call on a cursor. -/
inductive Cursor.Call where
  /-- Reads an element. -/
  | next
  /-- Skips `n` elements and reads the one after them. -/
  | nth (n : Nat)
  /-- Reads all elements that are left. -/
  | rest
  /-- Reads all elements that are left, and counts them. -/
  | count
  /-- Reads all elements that are left, and keeps the last one. -/
  | last
  /-- Looks at the debug text. -/
  | debug
deriving DecidableEq, Repr

/-- What a call is answered with. -/
inductive Cursor.Answer (α : Type) where
  /-- An element, unless there is none. -/
  | element (a : Option α)
  /-- The elements of a list. -/
  | elements (l : List α)
  /-- A number of elements. -/
  | number (n : Nat)
  /-- A text. -/
  | text (s : String)
deriving DecidableEq, Repr

namespace Cursor

/-- The debug text of a cursor in a state of the given name. -/
def debugText (stateName : String) : String :=
  "Iter \x7b state: \"" ++ stateName ++ "\", .. \x7d"

variable [BEq α] [Hashable α]

/-- The answer to a call, and the cursor after it. -/
def perform (c : Cursor α) : Call → Answer α × Cursor α
  | .next => (.element c.next.1, c.next.2)
  | .nth n => (.element (c.nth n).1, (c.nth n).2)
  | .rest => (.elements c.rest.1, c.rest.2)
  | .count => (.number c.rest.1.length, c.rest.2)
  | .last => (.element c.rest.1.getLast?, c.rest.2)
  | .debug => (.text c.outline.line, c)

/-- The answers to calls that are made one after the other. -/
def answers (c : Cursor α) : List Call → List (Answer α)
  | [] => []
  | call :: calls => (c.perform call).1 :: answers (c.perform call).2 calls

end Cursor

/-- A place in the list of a set. -/
structure Bookmark where
  /-- The number of elements that have been read. -/
  passed : Nat := 0
  /-- Whether an element has been asked for. -/
  opened : Bool := false

/-- The name of the state that the debug text of a cursor over the set reports. -/
def TransitiveSet.stateName (s : TransitiveSet α) (opened : Bool) : String :=
  if s.isEmpty then "empty" else
    match s.order with
    | .topological => if opened then "buffered" else "pending"
    | _ => "walking"

namespace Bookmark

variable [BEq α] [Hashable α]

/-- The bookmark after `n` more elements have been read, or all that there are. -/
def advance (m : Bookmark) (s : TransitiveSet α) (n : Nat) : Bookmark :=
  ⟨min (m.passed + n) s.toList.length, true⟩

/-- The answer to a call at a place in the list of a set, and the place after it. -/
def perform (s : TransitiveSet α) (m : Bookmark) : Cursor.Call → Cursor.Answer α × Bookmark
  | .next => (.element s.toList[m.passed]?, m.advance s 1)
  | .nth n => (.element s.toList[m.passed + n]?, m.advance s (n + 1))
  | .rest => (.elements (s.toList.drop m.passed), m.advance s s.toList.length)
  | .count => (.number (s.toList.length - m.passed), m.advance s s.toList.length)
  | .last => (.element (s.toList.drop m.passed).getLast?, m.advance s s.toList.length)
  | .debug => (.text (Cursor.debugText (s.stateName m.opened)), m)

/-- The answers to calls that are made one after the other. -/
def answers (s : TransitiveSet α) (m : Bookmark) : List Cursor.Call → List (Cursor.Answer α)
  | [] => []
  | call :: calls => (m.perform s call).1 :: answers s (m.perform s call).2 calls

end Bookmark

/-! ### Element by element -/

section Reading

variable [BEq α] [Hashable α]

namespace Walk

variable {w v : Walk α} {a : α}

theorem drain_of_done (h : w.turn = .done v) (l : List α) : w.drain l = (l, v) := by
  rw [drain]
  split <;> simp_all

theorem drain_of_quiet (h : w.turn = .quiet v) (l : List α) : w.drain l = v.drain l := by
  rw [drain]
  split <;> simp_all

theorem drain_of_yield (h : w.turn = .yield a v) (l : List α) : w.drain l = v.drain (a :: l) := by
  rw [drain]
  split <;> simp_all

/-- What a walk puts in front of a list does not depend on the list. -/
theorem drain_eq (w : Walk α) (l : List α) :
    w.drain l = ((w.drain []).1 ++ l, (w.drain []).2) := by
  suffices h : ∀ k, w.drain (k ++ l) = ((w.drain k).1 ++ l, (w.drain k).2) from h []
  intro k
  fun_induction Walk.drain w k with
  | case1 w k v hw => exact drain_of_done hw (k ++ l)
  | case2 w k v hw ih => exact (drain_of_quiet hw (k ++ l)).trans ih
  | case3 w k a v hw ih => exact (drain_of_yield hw (k ++ l)).trans ih

/-- A walk to the end goes to the next element first. -/
theorem drain_next (w : Walk α) (l : List α) :
    w.drain l = match w.next with
      | (none, v) => (l, v)
      | (some a, v) => v.drain (a :: l) := by
  fun_induction Walk.next w with
  | case1 w v hw => exact drain_of_done hw l
  | case2 w v hw ih => exact (drain_of_quiet hw l).trans ih
  | case3 w a v hw => exact drain_of_yield hw l

end Walk

namespace Cursor

/-- All elements that are left are read one after the other, until there is none. -/
theorem rest_eq (c : Cursor α) :
    c.rest = match c.next with
      | (none, d) => ([], d)
      | (some a, d) => (a :: d.rest.1, d.rest.2) := by
  cases c with
  | empty => rfl
  | walking w =>
    rw [rest, next, w.drain_next]
    rcases w.next with ⟨_ | a, v⟩
    · rfl
    · simp only [v.drain_eq [a], rest, List.reverse_append, List.reverse_singleton,
        List.singleton_append]
  | pending w =>
    rw [rest, next]
    cases (w.drain []).1 <;> rfl
  | buffered l => cases l <;> rfl

/-! ### States -/

theorem line_outline (c : Cursor α) : c.outline.line = debugText c.stateName := by
  have hline : c.outline.line =
      "Iter \x7b" ++ " " ++ ", ".intercalate ["state: " ++ Text.quoted c.stateName, ".."] ++ " " ++
        "\x7d" := rfl
  have hname : c.stateName ∈ ["empty", "walking", "pending", "buffered"] := by
    cases c <;> simp [stateName]
  rw [hline]
  generalize c.stateName = name at hname
  revert name
  decide

/-- The name of the state that a call for elements leads to. -/
def openedName : String → String
  | "pending" => "buffered"
  | name => name

theorem stateName_next (c : Cursor α) : c.next.2.stateName = openedName c.stateName := by
  cases c with
  | pending w =>
    rw [next]
    split <;> rfl
  | buffered l => cases l <;> rfl
  | empty | walking => rfl

theorem openedName_openedName (name : String) : openedName (openedName name) = openedName name := by
  rw [openedName.eq_def name]
  split <;> simp_all [openedName]

theorem stateName_nth (c : Cursor α) (n : Nat) :
    (c.nth n).2.stateName = openedName c.stateName := by
  induction n generalizing c with
  | zero => exact c.stateName_next
  | succ n ih =>
    have hnext := c.stateName_next
    rw [nth]
    rcases hc : c.next with ⟨_ | a, d⟩
    · rwa [hc] at hnext
    · rw [hc] at hnext
      exact (ih d).trans ((congrArg openedName hnext).trans (openedName_openedName _))

theorem stateName_rest (c : Cursor α) : c.rest.2.stateName = openedName c.stateName := by
  cases c <;> rfl

end Cursor

omit [BEq α] [Hashable α] in
theorem TransitiveSet.openedName_stateName (s : TransitiveSet α) (b : Bool) :
    Cursor.openedName (s.stateName b) = s.stateName true := by
  rw [stateName, stateName]
  cases s.isEmpty <;> cases s.order <;> cases b <;> rfl

theorem TransitiveSet.stateName_cursor (s : TransitiveSet α) :
    s.cursor.stateName = s.stateName false := by
  obtain ⟨o, _ | n⟩ := s
  · rfl
  · cases o <;> rfl

end Reading

/-! ### Cursors and bookmarks -/

namespace Cursor

variable [BEq α] [Hashable α]

/-- The cursor stands in front of the elements that are behind the bookmark, and reports the state
that goes with it. -/
structure Follows (s : TransitiveSet α) (c : Cursor α) (m : Bookmark) : Prop where
  lists : c.Lists (s.toList.drop m.passed)
  passed_le : m.passed ≤ s.toList.length
  stateName : c.stateName = s.stateName m.opened

variable {s : TransitiveSet α} {c d : Cursor α} {m : Bookmark}

/-- The cursor has read `n` elements, or all that there are. -/
theorem Follows.advance (h : Follows s c m) {n : Nat}
    (hl : d.Lists ((s.toList.drop m.passed).drop n)) (hd : d.stateName = openedName c.stateName) :
    Follows s d (m.advance s n) where
  lists := by
    rw [List.drop_drop] at hl
    rw [Bookmark.advance]
    rcases Nat.le_total (m.passed + n) s.toList.length with hle | hle
    · rwa [Nat.min_eq_left hle]
    · rw [Nat.min_eq_right hle, List.drop_length]
      rwa [List.drop_eq_nil_of_le hle] at hl
  passed_le := Nat.min_le_right _ _
  stateName := hd.trans ((congrArg openedName h.stateName).trans (s.openedName_stateName m.opened))

variable [EquivBEq α] [LawfulHashable α]

theorem Follows.rest (h : Follows s c m) :
    c.rest.1 = s.toList.drop m.passed ∧ Follows s c.rest.2 (m.advance s s.toList.length) := by
  obtain ⟨hl, hd⟩ := h.lists.rest
  refine ⟨hl, h.advance ?_ c.stateName_rest⟩
  rwa [List.drop_drop, List.drop_eq_nil_of_le (Nat.le_add_left _ _)]

/-- A call on the cursor is answered as at the bookmark, and the two move on together. -/
theorem Follows.perform (h : Follows s c m) (call : Call) :
    (c.perform call).1 = (m.perform s call).1 ∧
      Follows s (c.perform call).2 (m.perform s call).2 := by
  cases call with
  | next =>
    obtain ⟨ha, hd⟩ := h.lists.next
    refine ⟨congrArg Answer.element ?_, h.advance ?_ c.stateName_next⟩
    · rw [ha, List.head?_drop]
    · rwa [List.drop_one]
  | nth n =>
    obtain ⟨ha, hd⟩ := h.lists.nth n
    refine ⟨congrArg Answer.element ?_, h.advance hd (c.stateName_nth n)⟩
    rw [ha, List.getElem?_drop]
  | rest => exact ⟨congrArg Answer.elements h.rest.1, h.rest.2⟩
  | count =>
    refine ⟨congrArg Answer.number ?_, h.rest.2⟩
    rw [h.rest.1, List.length_drop]
  | last =>
    refine ⟨congrArg Answer.element ?_, h.rest.2⟩
    rw [h.rest.1]
  | debug =>
    refine ⟨congrArg Answer.text ?_, h⟩
    rw [line_outline, h.stateName]

/-- All calls are answered as at the bookmark. -/
theorem Follows.answers_eq (h : Follows s c m) (calls : List Call) :
    c.answers calls = m.answers s calls := by
  induction calls generalizing c m with
  | nil => rfl
  | cons call calls ih =>
    obtain ⟨ha, hf⟩ := h.perform call
    rw [Cursor.answers, Bookmark.answers, ha, ih hf]

end Cursor

namespace Stock

variable [BEq α] [Hashable α] [EquivBEq α] [LawfulHashable α]

theorem Sound.follows_cursor {st : Stock α} (h : st.Sound) {s : TransitiveSet α}
    (hs : s ∈ st.sets) : Cursor.Follows s s.cursor {} where
  lists := by
    rw [List.drop_zero, (h.coherent hs).toList_eq]
    exact (h.coherent hs).lists_cursor
  passed_le := Nat.zero_le _
  stateName := s.stateName_cursor

/-- **A cursor moves over the list of its set.** Whatever the set was made of and whatever sequence
of calls is made, the cursor answers as a bookmark in the list of the set. All that is left is read
element by element. -/
theorem answers_cursor {st : Stock α} (h : st.Reachable) {s : TransitiveSet α} (hs : s ∈ st.sets)
    (calls : List Cursor.Call) :
    s.cursor.answers calls = Bookmark.answers s {} calls ∧
      ∀ c : Cursor α, c.rest = match c.next with
        | (none, d) => ([], d)
        | (some a, d) => (a :: d.rest.1, d.rest.2) :=
  ⟨(h.sound.follows_cursor hs).answers_eq calls, Cursor.rest_eq⟩

/-- The topological order suspends nothing: its elements are kept from the first call on. -/
theorem answers_cursor_top :
    (Shared.setOf Shared.top).cursor.answers
        [.debug, .next, .debug, .nth 1, .count, .next, .last, .debug] =
      [.text (Cursor.debugText "pending"), .element (some 4), .text (Cursor.debugText "buffered"),
        .element (some 1), .number 1, .element none, .element none,
        .text (Cursor.debugText "buffered")] := by
  have hs : Shared.setOf Shared.top ∈ Shared.triangle.sets := List.mem_cons_self
  have hlist : (Shared.setOf Shared.top).toList = [4, 3, 1, 2] :=
    (Shared.reachable_triangle.sound.coherent hs).toList_eq
  rw [(answers_cursor Shared.reachable_triangle hs _).1]
  simp only [Bookmark.answers, Bookmark.perform, Bookmark.advance, hlist]
  rfl

end Stock

end PluginClosure
