import PluginClosure.Proofs.Records.Attempts

/-!
# Operations in histories

All operations on records are made of the steps of histories: the union of records, the creation of
new ones, and the reading of records from values. What an operation comes to is at hand afterwards.

Values hold sets and records, directly or inside lists, structs and instances. A value is *over* an
inventory if everything that it holds is at hand there. Records are read from such values, and
written as such values.

## Main definitions

* `PluginClosure.Value.Over`, `PluginClosure.Fields.Over`: values that hold what is at hand.
* `PluginClosure.Target.Over`: targets that expose such values.

## Main results

* `PluginClosure.Value.Over.strings?`, `PluginClosure.Value.Over.files?`: a set that is read from a
  value is at hand, or it is an empty one.
* `PluginClosure.Inventory.Attempts.ofValue`, `PluginClosure.Inventory.Attempts.unionTwo`,
  `PluginClosure.Inventory.Attempts.ofTarget` and others: the operations, one by one.
* `PluginClosure.Inventory.Sound.toInstance_over`: written records.
-/

namespace PluginClosure

/-! ### Values over an inventory -/

/-- The sets and the records that the value holds are at hand. -/
inductive Value.Over (i : Inventory) : Value → Prop
  | none : Over i .none
  | bool (b : Bool) : Over i (.bool b)
  | int (n : Int) : Over i (.int n)
  | string (s : String) : Over i (.string s)
  | file (f : File) : Over i (.file f)
  | list {l : List Value} (h : ∀ v ∈ l, Over i v) : Over i (.list l)
  | strings {s : TransitiveSet String} (h : s ∈ i.strings) : Over i (.strings s)
  | files {s : TransitiveSet File} (h : s ∈ i.files) : Over i (.files s)
  | struct {f : Fields Value} (h : ∀ e ∈ f.entries, Over i e.2) : Over i (.struct f)
  | processors {p : Processors} (h : p ∈ i.processors) : Over i (.processors p)
  | native {r : PluginProvider} (h : r ∈ i.providers) : Over i (.provider (.native r))
  | generic (k : ProviderKey) {f : Fields Value} (h : ∀ e ∈ f.entries, Over i e.2) :
      Over i (.provider (.generic k f))

/-- The fields hold values over the inventory. -/
def Fields.Over (i : Inventory) (f : Fields Value) : Prop := ∀ e ∈ f.entries, e.2.Over i

/-- The target exposes values over the inventory. -/
def Target.Over (i : Inventory) (t : Target) : Prop :=
  ∀ k a, t.provider k = some a → (Value.provider a).Over i

variable {i j : Inventory} {v : Value} {f : Fields Value} {name : String}

/-- What is at hand stays at hand. -/
theorem Value.Over.mono (h : v.Over i) (hij : i.Within j) : v.Over j := by
  induction h with
  | none => exact .none
  | bool b => exact .bool b
  | int n => exact .int n
  | string s => exact .string s
  | file f => exact .file f
  | list _ ih => exact .list ih
  | strings h => exact .strings (hij.strings h)
  | files h => exact .files (hij.files h)
  | struct _ ih => exact .struct ih
  | processors h => exact .processors (hij.processors h)
  | native h => exact .native (hij.providers h)
  | generic k _ ih => exact .generic k ih

/-- A set of strings that is read from a value is at hand, or it is an empty one. -/
theorem Value.Over.strings? (h : v.Over i) {s : TransitiveSet String}
    (hs : v.strings? name = .ok s) : s ∈ i.strings ∨ ∃ o, s = .empty o := by
  cases h with
  | strings h =>
    cases hs
    exact Or.inl h
  | @files t h =>
    rw [Value.strings?] at hs
    split at hs
    · cases hs
      exact Or.inr ⟨t.order, rfl⟩
    · cases hs
  | _ => cases hs

/-- A set of files that is read from a value is at hand, or it is an empty one. -/
theorem Value.Over.files? (h : v.Over i) {s : TransitiveSet File}
    (hs : v.files? name = .ok s) : s ∈ i.files ∨ ∃ o, s = .empty o := by
  cases h with
  | files h =>
    cases hs
    exact Or.inl h
  | @strings t h =>
    rw [Value.files?] at hs
    split at hs
    · cases hs
      exact Or.inr ⟨t.order, rfl⟩
    · cases hs
  | _ => cases hs

namespace Fields

theorem Over.mono (h : f.Over i) (hij : i.Within j) : f.Over j :=
  fun e he => (h e he).mono hij

theorem Over.require (h : f.Over i) (hv : f.require name = .ok v) : v.Over i := by
  rw [Fields.require, Fields.get?] at hv
  split at hv
  · next w hw =>
    cases hv
    obtain ⟨l, k, hl, -⟩ := List.lookup_eq_some_iff.mp hw
    exact h (name, v) (hl ▸ List.mem_append_right l List.mem_cons_self)
  · cases hv

theorem mem_insertEntry {β : Type} {w : β} {l : List (String × β)} {e : String × β}
    (h : e ∈ insertEntry name w l) : e = (name, w) ∨ e ∈ l := by
  induction l with
  | nil => exact Or.inl (List.mem_singleton.mp h)
  | cons d l ih =>
    rw [insertEntry] at h
    split at h
    · exact List.mem_cons.mp h
    · split at h
      · exact (List.mem_cons.mp h).imp_right (List.mem_cons_of_mem _)
      · rcases List.mem_cons.mp h with rfl | h
        · exact Or.inr List.mem_cons_self
        · exact (ih h).imp_right (List.mem_cons_of_mem _)

theorem mem_ofList {β : Type} {l : List (String × β)} {e : String × β}
    (h : e ∈ (ofList l).entries) : e ∈ l := by
  suffices hfold : ∀ f : Fields β, e ∈ (l.foldl (fun f d => f.insert d.1 d.2) f).entries →
      e ∈ l ∨ e ∈ f.entries from (hfold empty h).resolve_right List.not_mem_nil
  clear h
  induction l with
  | nil => exact fun f h => Or.inr h
  | cons d l ih =>
    intro f h
    rcases ih (f.insert d.1 d.2) h with h | h
    · exact Or.inl (List.mem_cons_of_mem d h)
    · exact (mem_insertEntry h).imp_left fun he => List.mem_cons.mpr (Or.inl he)

end Fields

/-! ### Readings of records -/

theorem Processors.readSet_eq_ok {α : Type} {e : ElementKind}
    {read : Value → String → Except FieldError (TransitiveSet α)} {s : TransitiveSet α}
    (h : readSet e read f name = .ok s) :
    ∃ v, f.require name = .ok v ∧ read v name = .ok s ∧ s.order = order := by
  rw [readSet] at h
  cases hv : f.require name with
  | error e =>
    rw [hv] at h
    cases h
  | ok v =>
    rw [hv] at h
    cases ht : read v name with
    | error e =>
      simp only [bind, Except.bind, ht] at h
      cases h
    | ok t =>
      simp only [bind, Except.bind, ht] at h
      split at h
      · next ho =>
        cases h
        exact ⟨v, rfl, ht, ho⟩
      · cases h

namespace Inventory

theorem yields_create_mem {classes : TransitiveSet String} {classpath data : TransitiveSet File}
    (hc : classes ∈ i.strings) (hp : classpath ∈ i.files) (hd : data ∈ i.files) :
    i.Yields (Processors.create classes classpath data) fun p j => p ∈ j.processors :=
  ⟨_, _, rfl, .single (.processors hc hp hd), List.mem_cons_self⟩

namespace Attempts

theorem readStrings (hf : f.Over i) (name : String) :
    i.Attempts (liftM (Processors.readStrings f name) : Attempt RecordError _) fun s j =>
      s ∈ j.strings := by
  intro log
  rw [Attempt.run_lift_field]
  cases hs : Processors.readStrings f name with
  | error e => exact .pure fun s h => by cases h
  | ok s =>
    obtain ⟨v, hv, hs, -⟩ := Processors.readSet_eq_ok hs
    rcases (hf.require hv).strings? hs with h | ⟨o, rfl⟩
    · refine .pure ?_
      rintro _ ⟨⟩
      exact h
    · refine ⟨_, { i with strings := .empty o :: i.strings }, rfl,
        .single (.strings (.empty i.stringStock o)), ?_⟩
      rintro _ ⟨⟩
      exact List.mem_cons_self

theorem readFiles (hf : f.Over i) (name : String) :
    i.Attempts (liftM (Processors.readFiles f name) : Attempt RecordError _) fun s j =>
      s ∈ j.files := by
  intro log
  rw [Attempt.run_lift_field]
  cases hs : Processors.readFiles f name with
  | error e => exact .pure fun s h => by cases h
  | ok s =>
    obtain ⟨v, hv, hs, -⟩ := Processors.readSet_eq_ok hs
    rcases (hf.require hv).files? hs with h | ⟨o, rfl⟩
    · refine .pure ?_
      rintro _ ⟨⟩
      exact h
    · refine ⟨_, { i with files := .empty o :: i.files }, rfl,
        .single (.files (.empty i.fileStock o)), ?_⟩
      rintro _ ⟨⟩
      exact List.mem_cons_self

theorem processorsOfFields (hf : f.Over i) :
    i.Attempts (Processors.ofFields f) fun p j => p ∈ j.processors := by
  refine (readStrings hf _).bind fun classes i₁ h₁ hc => ?_
  have hf₁ := hf.mono h₁.within
  refine (readFiles hf₁ _).bind fun classpath i₂ h₂ hp => ?_
  refine (readFiles (hf₁.mono h₂.within) _).bind fun data i₃ h₃ hd => ?_
  have hw := h₂.within.trans h₃.within
  exact lift_fresh (yields_create_mem (hw.strings hc) (h₃.within.files hp) hd)

theorem processorsOfValue (hv : v.Over i) :
    i.Attempts (Processors.ofValue v) fun p j => p ∈ j.processors := by
  refine Attempts.onFailure ?_ _
  cases hv with
  | processors h => exact .pure h
  | struct h => exact processorsOfFields h
  | _ => exact .throw _

theorem readProcessors (hf : f.Over i) (name : String) :
    i.Attempts (PluginProvider.readProcessors f name) fun p j => p ∈ j.processors :=
  (lift_field fun _ => hf.require).bind fun _ _ _ hv => processorsOfValue hv

theorem ofFields (p : Origin) (hf : f.Over i) :
    i.Attempts (PluginProvider.ofFields p f) fun r j => r ∈ j.providers := by
  refine (lift_field (P := fun _ _ => True) fun _ _ => trivial).bind fun outputs i₁ h₁ _ => ?_
  have hf₁ := hf.mono h₁.within
  refine (readProcessors hf₁ _).bind fun plugins i₂ h₂ hp => ?_
  refine (readProcessors (hf₁.mono h₂.within) _).bind fun apiPlugins i₃ h₃ ha => ?_
  exact lift_fresh ((yields_make outputs (h₃.within.processors hp) ha _).imp fun _ _ _ h => h.1)

theorem ofInstance {a : Instance} (ha : (Value.provider a).Over i) :
    i.Attempts (PluginProvider.ofInstance a) fun r j => r ∈ j.providers := by
  refine Attempts.onFailure ?_ _
  cases ha with
  | native h => exact .pure h
  | generic k h =>
    cases k with
    | plugin p => exact ofFields p h
    | compilation p => exact .throw _
    | other name => exact .throw _

theorem ofValue (hv : v.Over i) :
    i.Attempts (PluginProvider.ofValue v) fun r j => r ∈ j.providers := by
  cases hv with
  | native h => exact ofInstance (.native h)
  | generic k h => exact ofInstance (.generic k h)
  | _ => exact .throw _

theorem ofCompilationFields (hi : i.Sound) (p : Origin) (hf : f.Over i) :
    i.Attempts (PluginProvider.ofCompilationFields p f) fun r j => r ∈ j.providers := by
  refine (readProcessors hf _).bind fun plugins i₁ h₁ hp => ?_
  refine (readProcessors (hf.mono h₁.within) _).bind fun apiPlugins i₂ h₂ ha => ?_
  split
  · exact .pure (((h₁.trans h₂).sound hi).empty_mem_providers _)
  · exact lift_fresh ((yields_make [] (h₂.within.processors hp) ha _).imp fun _ _ _ h => h.1)

theorem ofCompilation (hi : i.Sound) {a : Instance} (ha : (Value.provider a).Over i) :
    i.Attempts (PluginProvider.ofCompilation a) fun r j => r ∈ j.providers := by
  refine Attempts.onFailure ?_ _
  cases ha with
  | native h => exact .throw _
  | generic k h =>
    cases k with
    | plugin p => exact .throw _
    | compilation p => exact ofCompilationFields hi p h
    | other name => exact .throw _

/-- The record under a key is at hand, if there is one. -/
theorem readSlot {t : Target} (ht : t.Over i) (p : Origin) :
    i.Attempts (Slots.read t p) fun x j => ∀ r ∈ x, r ∈ j.providers := by
  rw [Slots.read]
  split
  · exact .pure fun r hr => by cases hr
  · next a ha =>
    refine (ofInstance (ht _ a ha)).bind fun r j _ hr => .pure ?_
    rintro _ ⟨⟩
    exact hr

theorem slotsOfTarget {t : Target} (ht : t.Over i) :
    i.Attempts (Slots.ofTarget t) fun x j => x.Within j := by
  refine Attempts.onFailure ?_ _
  refine (readSlot ht .rulesDefined).bind fun current i₁ h₁ hc => ?_
  have ht₁ : t.Over i₁ := fun k a ha => (ht k a ha).mono h₁.within
  refine (readSlot ht₁ .builtin).bind fun legacy i₂ h₂ hl => ?_
  exact .pure ⟨fun r hr => h₂.within.providers (hc r hr), hl⟩

/-! ### Unions -/

theorem unionProcessors (hi : i.Sound) {l : List Processors} (hl : l ⊆ i.processors) :
    i.Attempts (liftM (Processors.union l) : Attempt OrderMismatch _) fun p j =>
      p ∈ j.processors :=
  lift ((hi.yields_union hl).imp fun r j _ hr p hp => by
    subst hp
    exact hr.2.1)

theorem union (hi : i.Sound) {l : List PluginProvider} (hl : l ⊆ i.providers) (b : Bool) :
    i.Attempts (liftM (PluginProvider.union l b) : Attempt OrderMismatch _) fun r j =>
      r ∈ j.providers :=
  lift ((hi.yields_union_providers hl b).imp fun res j _ hr r h => by
    subst h
    exact hr.2.1)

theorem unionTwo (hi : i.Sound) {r s : PluginProvider} (hr : r ∈ i.providers)
    (hs : s ∈ i.providers) :
    i.Attempts (liftM (PluginProvider.unionTwo r s) : Attempt OrderMismatch _) fun u j =>
      u ∈ j.providers := by
  rw [PluginProvider.unionTwo]
  split
  · exact .pure hs
  · split
    · exact .pure hr
    · exact union hi (pair_subset hr hs) _

theorem slotsUnion (hi : i.Sound) {x : Slots} (hx : x.Within i) :
    i.Attempts x.union fun u j => ∀ r ∈ u, r ∈ j.providers := by
  obtain ⟨current, legacy⟩ := x
  cases current with
  | none =>
    cases legacy with
    | none => exact .pure fun r hr => by cases hr
    | some s => exact .pure hx.legacy
  | some r =>
    cases legacy with
    | none => exact .pure hx.current
    | some s =>
      refine (Attempts.note _).bind fun _ i₁ h₁ _ => ?_
      refine (unionTwo (h₁.sound hi) (h₁.within.providers (hx.current r rfl))
        (h₁.within.providers (hx.legacy s rfl))).bind fun u j _ hu => .pure ?_
      rintro _ ⟨⟩
      exact hu

theorem ofTarget (hi : i.Sound) {t : Target} (ht : t.Over i) :
    i.Attempts (PluginProvider.ofTarget t) fun x j => ∀ r ∈ x, r ∈ j.providers :=
  (slotsOfTarget ht).bind fun _ _ hj hx => (slotsUnion (hj.sound hi) hx).mapError _

/-! ### New records -/

theorem ofLists {ε : Type} (classes : List String) (classpath data : List File) :
    i.Attempts (liftM (Processors.ofLists classes classpath data) : Attempt ε _) fun p j =>
      p ∈ j.processors := by
  refine lift_fresh ?_
  have hstrings : i.Yields (TransitiveSet.ofList Processors.order classes) fun s j =>
      s ∈ j.strings := ⟨_, _, rfl, .single (.strings (.ofList i.stringStock _ classes)),
        List.mem_cons_self⟩
  have hfiles (j : Inventory) (l : List File) :
      j.Yields (TransitiveSet.ofList Processors.order l) fun s j => s ∈ j.files :=
    ⟨_, _, rfl, .single (.files (.ofList j.fileStock _ l)), List.mem_cons_self⟩
  refine hstrings.bind fun c i₁ _ hc => ?_
  refine (hfiles i₁ classpath).bind fun p i₂ h₂ hp => ?_
  refine (hfiles i₂ data).bind fun d i₃ h₃ hd => ?_
  exact yields_create_mem ((h₂.within.trans h₃.within).strings hc) (h₃.within.files hp) hd

theorem create (outputs : List CompiledOutput) {plugins apiPlugins : Processors}
    (hp : plugins ∈ i.processors) (ha : apiPlugins ∈ i.processors) (b : Bool) :
    i.Attempts (liftM (PluginProvider.create outputs plugins apiPlugins b) :
      Attempt ApiNotAmongPlugins _) fun r j => r ∈ j.providers := by
  refine lift ?_
  rw [PluginProvider.create]
  split
  · refine (yields_make outputs hp ha b).lift.imp fun res j _ hr r h => ?_
    subst h
    exact hr.2.1
  · exact .pure fun r h => by cases h

end Attempts

end Inventory

/-! ### Written records -/

theorem Fields.ofList_over {l : List (String × Value)} (h : ∀ e ∈ l, e.2.Over i) :
    (Fields.ofList l).Over i := fun e he => h e (Fields.mem_ofList he)

theorem CompiledOutput.toValue_over (o : CompiledOutput) : o.toValue.Over i := by
  obtain ⟨classJar, compileJar, sourceJars⟩ := o
  have hsources : (Value.list (sourceJars.map .file)).Over i :=
    .list (List.forall_mem_map.mpr fun f _ => .file f)
  refine .struct (Fields.ofList_over (List.forall_mem_cons.mpr ⟨.file classJar,
    List.forall_mem_cons.mpr ⟨?_, List.forall_mem_singleton.mpr hsources⟩⟩))
  cases compileJar with
  | none => exact .none
  | some f => exact .file f

namespace Inventory

theorem Sound.toFields_over (h : i.Sound) {p : Processors} (hp : p ∈ i.processors) :
    p.toFields.Over i := by
  obtain ⟨hc, hcp, hd⟩ := h.sets_mem p hp
  exact Fields.ofList_over (List.forall_mem_cons.mpr ⟨.strings hc,
    List.forall_mem_cons.mpr ⟨.files hcp, List.forall_mem_singleton.mpr (.files hd)⟩⟩)

theorem Sound.toInstance_over (h : i.Sound) {r : PluginProvider} (hr : r ∈ i.providers) :
    (Value.provider r.toInstance).Over i := by
  obtain ⟨hp, ha⟩ := h.parts_mem r hr
  have houtputs : (Value.list (r.outputs.map CompiledOutput.toValue)).Over i :=
    .list (List.forall_mem_map.mpr fun o _ => o.toValue_over)
  exact .generic _ (Fields.ofList_over (List.forall_mem_cons.mpr ⟨houtputs,
    List.forall_mem_cons.mpr ⟨.processors hp, List.forall_mem_singleton.mpr (.processors ha)⟩⟩))

end Inventory

end PluginClosure
