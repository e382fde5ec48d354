/-!
# Named fields

A struct of the configuration language has named fields. The fields are kept in the order of their
names, code point by code point, so the sequence in which they were given does not matter, except
that a later field replaces an earlier one of the same name.

## Main definitions

* `PluginClosure.Fields`, `Fields.ofList`, `Fields.insert`, `Fields.get?`.

## Main results

* `PluginClosure.Fields.get?_insert`: what is found after an insertion.
* `PluginClosure.Fields.get?_ofList`: the last field of a name is the one that counts.
-/

namespace PluginClosure

variable {β : Type}

/-- Named fields, in the order of their names. -/
structure Fields (β : Type) where
  /-- The names with their values. -/
  entries : List (String × β)

namespace Fields

/-- No fields. -/
def empty : Fields β := ⟨[]⟩

/-- Puts an entry at its place, in exchange for one of the same name. -/
def insertEntry (name : String) (v : β) : List (String × β) → List (String × β)
  | [] => [(name, v)]
  | (n, w) :: l =>
    if name < n then (name, v) :: (n, w) :: l
    else if name = n then (name, v) :: l
    else (n, w) :: insertEntry name v l

/-- Adds a field, in exchange for one of the same name. -/
def insert (f : Fields β) (name : String) (v : β) : Fields β :=
  ⟨insertEntry name v f.entries⟩

/-- The fields of a list. Of several fields of one name the last one counts. -/
def ofList (l : List (String × β)) : Fields β :=
  l.foldl (fun f e => f.insert e.1 e.2) empty

/-- The value of a field. -/
def get? (f : Fields β) (name : String) : Option β := f.entries.lookup name

@[simp] theorem get?_empty (name : String) : (empty : Fields β).get? name = none := rfl

theorem lookup_cons_eq (m n : String) (w : β) (l : List (String × β)) :
    ((n, w) :: l).lookup m = if m = n then some w else l.lookup m := by
  by_cases h : m = n
  · simp [h]
  · have : (m == n) = false := by simpa using h
    simp [List.lookup_cons, this, h]

theorem lookup_insertEntry (name m : String) (v : β) (l : List (String × β)) :
    (insertEntry name v l).lookup m = if m = name then some v else l.lookup m := by
  induction l with
  | nil => rw [insertEntry, lookup_cons_eq]
  | cons e l ih =>
    obtain ⟨n, w⟩ := e
    rw [insertEntry]
    split
    · rw [lookup_cons_eq]
    · split
      · next hn =>
        subst hn
        rw [lookup_cons_eq, lookup_cons_eq]
        split <;> rfl
      · next hn =>
        rw [lookup_cons_eq, lookup_cons_eq, ih]
        by_cases h : m = n
        · simp [h, Ne.symm hn]
        · simp [h]

theorem get?_insert (f : Fields β) (name m : String) (v : β) :
    (f.insert name v).get? m = if m = name then some v else f.get? m :=
  lookup_insertEntry name m v f.entries

/-- Of several fields of one name the last one counts. -/
theorem get?_ofList (l : List (String × β)) (m : String) :
    (ofList l).get? m = l.reverse.lookup m := by
  suffices h : ∀ f : Fields β, (l.foldl (fun f e => f.insert e.1 e.2) f).get? m =
      (l.reverse.lookup m).or (f.get? m) by
    simpa [ofList] using h empty
  induction l with
  | nil => simp
  | cons e l ih =>
    intro f
    obtain ⟨n, w⟩ := e
    rw [List.foldl_cons, ih, get?_insert, List.reverse_cons, List.lookup_append]
    rw [lookup_cons_eq]
    cases l.reverse.lookup m with
    | some _ => rfl
    | none => by_cases h : m = n <;> simp [h]

end Fields

end PluginClosure
