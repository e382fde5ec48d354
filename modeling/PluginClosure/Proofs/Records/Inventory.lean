import PluginClosure.PluginProvider.Basic
import PluginClosure.Proofs.TransitiveSet.History

/-!
# Histories of records

Records are made of sets, and records of the plugin provider are made of records of processors. An
*inventory* holds all objects that are at hand, with one supply of serial numbers for all kinds. A
history starts from the canonical records. Everything else comes into being in four ways: as a set
of strings, as a set of files, through `Processors.create` from sets at hand, or through
`PluginProvider.make` from records of processors at hand. All other operations on records, readings
of values among them, are made of these.

## Main definitions

* `PluginClosure.Identified`: identities tell the objects of a list apart.
* `PluginClosure.Inventory`, `PluginClosure.Inventory.Step`, `PluginClosure.Inventory.Leads`,
  `PluginClosure.Inventory.Reachable`: histories.
* `PluginClosure.Inventory.Sound`: what is true of all inventories that histories lead to.
* `PluginClosure.Inventory.Yields`, with `Inventory.Unless` and `Inventory.Given`: computations as
  pieces of histories.

## Main results

* `PluginClosure.Inventory.Leads.within`: what is at hand stays at hand.
* `PluginClosure.Inventory.Reachable.sound`: identities tell records apart, and a record of
  processors without elements is the canonical one.
* `PluginClosure.Inventory.Yields.bind`, `Inventory.Yields.bind_unless`,
  `Inventory.Yields.bind_given`: computations in sequence.
-/

namespace PluginClosure

/-! ### Identities -/

/-- Identities tell the objects of a list apart, canonical ones and ones with serial numbers. The
index of the next serial number is given. -/
structure Identified {ι β : Type} (id : β → Identity ι) (canon : ι → β) (next : Nat)
    (l : List β) : Prop where
  eq_canon : ∀ x ∈ l, ∀ i, id x = .canonical i → x = canon i
  lt_next : ∀ x ∈ l, ∀ s, id x = .issued s → s.index < next
  eq_of_id : ∀ x ∈ l, ∀ y ∈ l, id x = id y → x = y

namespace Identified

variable {ι β : Type} {id : β → Identity ι} {canon : ι → β} {next next' : Nat} {l : List β} {x : β}

theorem mono (h : Identified id canon next l) (hle : next ≤ next') :
    Identified id canon next' l :=
  ⟨h.eq_canon, fun x hx s hs => (h.lt_next x hx s hs).trans_le hle, h.eq_of_id⟩

theorem cons_of_mem (h : Identified id canon next l) (hx : x ∈ l) :
    Identified id canon next (x :: l) := by
  have hmem {y : β} (hy : y ∈ x :: l) : y ∈ l := by
    rcases List.mem_cons.mp hy with rfl | hy
    · exact hx
    · exact hy
  exact ⟨fun y hy => h.eq_canon y (hmem hy), fun y hy => h.lt_next y (hmem hy),
    fun y hy z hz => h.eq_of_id y (hmem hy) z (hmem hz)⟩

/-- An object with the next serial number may be added. -/
theorem cons_of_issued (h : Identified id canon next l) (hx : id x = .issued ⟨next⟩) :
    Identified id canon (next + 1) (x :: l) := by
  have hne (y : β) (hy : y ∈ l) : id y ≠ id x := by
    intro hid
    exact absurd (h.lt_next y hy ⟨next⟩ (hid.trans hx)) (Nat.lt_irrefl next)
  constructor
  · intro y hy i hi
    rcases List.mem_cons.mp hy with rfl | hy
    · exact absurd (hx.symm.trans hi) (by simp)
    · exact h.eq_canon y hy i hi
  · intro y hy s hs
    rcases List.mem_cons.mp hy with rfl | hy
    · obtain rfl : ⟨next⟩ = s := Identity.issued.inj (hx.symm.trans hs)
      exact Nat.lt_succ_self next
    · exact (h.lt_next y hy s hs).trans (Nat.lt_succ_self next)
  · intro y hy z hz hid
    rcases List.mem_cons.mp hy with rfl | hy'
    · rcases List.mem_cons.mp hz with rfl | hz'
      · rfl
      · exact absurd hid.symm (hne z hz')
    · rcases List.mem_cons.mp hz with rfl | hz'
      · exact absurd hid (hne y hy')
      · exact h.eq_of_id y hy' z hz' hid

end Identified

/-! ### Creation -/

namespace Processors

/-- A record without elements is the canonical one, and any other has the next serial number. -/
theorem create_spec (classes : TransitiveSet String) (classpath data : TransitiveSet File)
    (supply : Supply) :
    ((classes.isEmpty && classpath.isEmpty && data.isEmpty) = true ∧
      (create classes classpath data).run supply = (empty, supply)) ∨
    ((classes.isEmpty && classpath.isEmpty && data.isEmpty) = false ∧
      (create classes classpath data).run supply =
        (⟨.issued ⟨supply.next⟩, classes, classpath, data⟩, ⟨supply.next + 1⟩)) := by
  cases h : classes.isEmpty && classpath.isEmpty && data.isEmpty with
  | true => exact Or.inl ⟨rfl, by rw [create, if_pos h]; rfl⟩
  | false => exact Or.inr ⟨rfl, by rw [create, if_neg (Bool.eq_false_iff.mp h)]; rfl⟩

theorem create_next_le (classes : TransitiveSet String) (classpath data : TransitiveSet File)
    (supply : Supply) :
    supply.next ≤ ((create classes classpath data).run supply).2.next := by
  rcases create_spec classes classpath data supply with ⟨-, h⟩ | ⟨-, h⟩
  · rw [h]
  · rw [h]
    exact Nat.le_succ _

end Processors

/-! ### Inventories -/

/-- The objects that are at hand, and the serial numbers that have not been issued. -/
structure Inventory where
  /-- The serial numbers that are left. -/
  supply : Supply
  /-- The sets of strings at hand. -/
  strings : List (TransitiveSet String)
  /-- The sets of files at hand. -/
  files : List (TransitiveSet File)
  /-- The records of processors at hand. -/
  processors : List Processors
  /-- The records of the plugin provider at hand. -/
  providers : List PluginProvider

namespace Inventory

/-- The canonical records, and the sets that they hold. -/
def initial : Inventory where
  supply := {}
  strings := [.empty Processors.order]
  files := [.empty Processors.order]
  processors := [.empty]
  providers := [.empty true, .empty false]

/-- The sets of strings at hand. -/
def stringStock (i : Inventory) : Stock String := ⟨i.supply, i.strings⟩

/-- The sets of files at hand. -/
def fileStock (i : Inventory) : Stock File := ⟨i.supply, i.files⟩

/-- Makes a record of processors and puts it into the inventory. -/
def putProcessors (i : Inventory) (x : Fresh Processors) : Inventory :=
  { i with supply := (x.run i.supply).2, processors := (x.run i.supply).1 :: i.processors }

/-- Makes a record of the plugin provider and puts it into the inventory. -/
def putProvider (i : Inventory) (x : Fresh PluginProvider) : Inventory :=
  { i with supply := (x.run i.supply).2, providers := (x.run i.supply).1 :: i.providers }

/-- A step of a history. -/
inductive Step : Inventory → Inventory → Prop
  /-- A step of the sets of strings. -/
  | strings {i : Inventory} {st : Stock String} (h : i.stringStock.Step st) :
      Step i { i with supply := st.supply, strings := st.sets }
  /-- A step of the sets of files. -/
  | files {i : Inventory} {st : Stock File} (h : i.fileStock.Step st) :
      Step i { i with supply := st.supply, files := st.sets }
  /-- A record of processors with sets at hand. -/
  | processors {i : Inventory} {classes : TransitiveSet String}
      {classpath data : TransitiveSet File} (hc : classes ∈ i.strings)
      (hp : classpath ∈ i.files) (hd : data ∈ i.files) :
        Step i (i.putProcessors (Processors.create classes classpath data))
  /-- A record of the plugin provider with records of processors at hand. -/
  | provider {i : Inventory} (outputs : List CompiledOutput) {plugins apiPlugins : Processors}
      (hp : plugins ∈ i.processors) (ha : apiPlugins ∈ i.processors) (builtin : Bool) :
        Step i (i.putProvider (PluginProvider.make outputs plugins apiPlugins builtin))

/-- A history leads from one inventory to the other. -/
def Leads : Inventory → Inventory → Prop := Relation.ReflTransGen Step

/-- The inventories that histories lead to. -/
def Reachable (i : Inventory) : Prop := initial.Leads i

/-- What one inventory holds, the other one holds too. -/
structure Within (i j : Inventory) : Prop where
  next_le : i.supply.next ≤ j.supply.next
  strings : i.strings ⊆ j.strings
  files : i.files ⊆ j.files
  processors : i.processors ⊆ j.processors
  providers : i.providers ⊆ j.providers

variable {i j k : Inventory}

theorem Within.refl (i : Inventory) : i.Within i :=
  ⟨Nat.le_refl _, List.Subset.refl _, List.Subset.refl _, List.Subset.refl _, List.Subset.refl _⟩

theorem Within.trans (h : i.Within j) (h' : j.Within k) : i.Within k :=
  ⟨h.next_le.trans h'.next_le, List.Subset.trans h.strings h'.strings,
    List.Subset.trans h.files h'.files, List.Subset.trans h.processors h'.processors,
    List.Subset.trans h.providers h'.providers⟩

theorem Step.within (h : Step i j) : i.Within j := by
  cases h with
  | strings h => exact { Within.refl i with next_le := h.brings.1, strings := h.sets_subset }
  | files h => exact { Within.refl i with next_le := h.brings.1, files := h.sets_subset }
  | processors hc hp hd =>
    exact { Within.refl i with
      next_le := Processors.create_next_le .., processors := List.subset_cons_self .. }
  | provider outputs hp ha builtin =>
    exact { Within.refl i with
      next_le := Nat.le_succ _, providers := List.subset_cons_self .. }

/-- What is at hand stays at hand. -/
theorem Leads.within (h : i.Leads j) : i.Within j := by
  induction h with
  | refl => exact Within.refl i
  | tail _ hs ih => exact ih.trans hs.within

theorem Leads.trans (h : i.Leads j) (h' : j.Leads k) : i.Leads k := Relation.ReflTransGen.trans h h'

theorem Leads.single (h : Step i j) : i.Leads j := Relation.ReflTransGen.single h

/-- Objects of other kinds may take serial numbers at any time. -/
theorem leads_pass {supply : Supply} (h : i.supply.next ≤ supply.next) :
    i.Leads { i with supply := supply } :=
  .single (.strings (.pass i.stringStock supply.next h))

/-! ### Soundness -/

/-- Serial numbers tell the nodes of sets apart, and identities tell records apart. Parts of records
at hand are at hand, and so are the canonical records. A record of processors without elements is
the canonical one. -/
structure Sound (i : Inventory) : Prop where
  initial_within : initial.Within i
  strings : i.stringStock.Sound
  files : i.fileStock.Sound
  sets_mem : ∀ p ∈ i.processors, p.classes ∈ i.strings ∧ p.classpath ∈ i.files ∧ p.data ∈ i.files
  eq_empty : ∀ p ∈ i.processors, p.isEmpty = true → p = .empty
  processors : Identified Processors.id (fun _ => .empty) i.supply.next i.processors
  parts_mem : ∀ r ∈ i.providers, r.plugins ∈ i.processors ∧ r.apiPlugins ∈ i.processors
  providers : Identified PluginProvider.id .empty i.supply.next i.providers

theorem sound_initial : initial.Sound where
  initial_within := Within.refl initial
  strings := Stock.Reachable.sound (.single (.empty {} Processors.order))
  files := Stock.Reachable.sound (.single (.empty {} Processors.order))
  sets_mem p hp := by
    cases List.mem_singleton.mp hp
    exact ⟨List.mem_singleton_self _, List.mem_singleton_self _, List.mem_singleton_self _⟩
  eq_empty p hp _ := List.mem_singleton.mp hp
  processors := by
    constructor
    · exact fun p hp _ _ => List.mem_singleton.mp hp
    · intro p hp s hs
      cases List.mem_singleton.mp hp
      cases hs
    · exact fun p hp q hq _ => (List.mem_singleton.mp hp).trans (List.mem_singleton.mp hq).symm
  parts_mem r hr := by
    have hmem (b : Bool) (h : r = .empty b) :
        r.plugins ∈ initial.processors ∧ r.apiPlugins ∈ initial.processors := by
      rw [h]
      exact ⟨List.mem_singleton_self _, List.mem_singleton_self _⟩
    rcases List.mem_pair.mp hr with h | h
    · exact hmem true h
    · exact hmem false h
  providers := by
    have hempty {r : PluginProvider} (hr : r ∈ initial.providers) : ∃ b, r = .empty b :=
      (List.mem_pair.mp hr).elim (fun h => ⟨true, h⟩) fun h => ⟨false, h⟩
    constructor
    · intro r hr b hb
      obtain ⟨c, rfl⟩ := hempty hr
      cases hb
      rfl
    · intro r hr s hs
      obtain ⟨c, rfl⟩ := hempty hr
      cases hs
    · intro r hr s hs hid
      obtain ⟨b, rfl⟩ := hempty hr
      obtain ⟨c, rfl⟩ := hempty hs
      cases hid
      rfl

theorem Sound.empty_mem (h : i.Sound) : Processors.empty ∈ i.processors :=
  h.initial_within.processors (List.mem_singleton_self _)

theorem Sound.putProcessors (h : i.Sound) {classes : TransitiveSet String}
    {classpath data : TransitiveSet File} (hc : classes ∈ i.strings) (hp : classpath ∈ i.files)
    (hd : data ∈ i.files) :
    (i.putProcessors (Processors.create classes classpath data)).Sound := by
  have hw := (Step.processors hc hp hd).within
  rcases Processors.create_spec classes classpath data i.supply with ⟨-, hr⟩ | ⟨hne, hr⟩
  · rw [Inventory.putProcessors, hr] at hw ⊢
    exact { h with
      initial_within := h.initial_within.trans hw
      sets_mem := List.forall_mem_cons.mpr ⟨h.sets_mem _ h.empty_mem, h.sets_mem⟩
      eq_empty := List.forall_mem_cons.mpr ⟨fun _ => rfl, h.eq_empty⟩
      processors := h.processors.cons_of_mem h.empty_mem
      parts_mem := fun r hr =>
        (h.parts_mem r hr).imp (List.mem_cons_of_mem _) (List.mem_cons_of_mem _) }
  · rw [Inventory.putProcessors, hr] at hw ⊢
    exact
      { initial_within := h.initial_within.trans hw
        strings := h.strings.step (.pass _ _ hw.next_le)
        files := h.files.step (.pass _ _ hw.next_le)
        sets_mem := List.forall_mem_cons.mpr ⟨⟨hc, hp, hd⟩, h.sets_mem⟩
        eq_empty := List.forall_mem_cons.mpr
          ⟨fun he => absurd (hne.symm.trans he) Bool.false_ne_true, h.eq_empty⟩
        processors := h.processors.cons_of_issued rfl
        parts_mem := fun r hr =>
          (h.parts_mem r hr).imp (List.mem_cons_of_mem _) (List.mem_cons_of_mem _)
        providers := h.providers.mono hw.next_le }

theorem Step.sound (h : Step i j) (hi : i.Sound) : j.Sound := by
  have hw := h.within
  cases h with
  | strings h =>
    exact { hi with
      initial_within := hi.initial_within.trans hw
      strings := hi.strings.step h
      files := hi.files.step (.pass _ _ hw.next_le)
      sets_mem := fun p hp => (hi.sets_mem p hp).imp_left fun hc => hw.strings hc
      processors := hi.processors.mono hw.next_le
      providers := hi.providers.mono hw.next_le }
  | files h =>
    exact { hi with
      initial_within := hi.initial_within.trans hw
      strings := hi.strings.step (.pass _ _ hw.next_le)
      files := hi.files.step h
      sets_mem := fun p hp => (hi.sets_mem p hp).imp_right fun hs =>
        ⟨hw.files hs.1, hw.files hs.2⟩
      processors := hi.processors.mono hw.next_le
      providers := hi.providers.mono hw.next_le }
  | processors hc hp hd => exact hi.putProcessors hc hp hd
  | provider outputs hp ha builtin =>
    exact { hi with
      initial_within := hi.initial_within.trans hw
      strings := hi.strings.step (.pass _ _ hw.next_le)
      files := hi.files.step (.pass _ _ hw.next_le)
      processors := hi.processors.mono hw.next_le
      parts_mem := List.forall_mem_cons.mpr ⟨⟨hp, ha⟩, hi.parts_mem⟩
      providers := hi.providers.cons_of_issued rfl }

theorem Leads.sound (h : i.Leads j) (hi : i.Sound) : j.Sound := by
  induction h with
  | refl => exact hi
  | tail _ hs ih => exact hs.sound ih

/-- Whatever the history, the inventory is sound. -/
theorem Reachable.sound (h : i.Reachable) : i.Sound := Leads.sound h sound_initial

/-! ### Computations in histories -/

variable {β γ : Type} {x : Fresh β} {P : β → Inventory → Prop} {Q : γ → Inventory → Prop}

/-- Run in the inventory, the computation is a piece of a history. `P` is true of its result and of
the inventory afterwards. -/
def Yields (i : Inventory) (x : Fresh β) (P : β → Inventory → Prop) : Prop :=
  ∃ b j, x.run i.supply = (b, j.supply) ∧ i.Leads j ∧ P b j

theorem Yields.pure {b : β} (h : P b i) : i.Yields (pure b) P :=
  ⟨b, i, rfl, Relation.ReflTransGen.refl, h⟩

theorem Yields.bind {f : β → Fresh γ} (hx : i.Yields x P)
    (hf : ∀ b j, i.Leads j → P b j → j.Yields (f b) Q) : i.Yields (x >>= f) Q := by
  obtain ⟨b, j, hrun, hij, hb⟩ := hx
  obtain ⟨c, k, hrun', hjk, hc⟩ := hf b j hij hb
  refine ⟨c, k, ?_, hij.trans hjk, hc⟩
  rw [StateT.run_bind, hrun]
  exact hrun'

theorem Yields.map {f : β → γ} (hx : i.Yields x P)
    (hf : ∀ b j, i.Leads j → P b j → Q (f b) j) : i.Yields (f <$> x) Q := by
  rw [map_eq_pure_bind]
  exact hx.bind fun b j hij hb => .pure (hf b j hij hb)

variable {ε : Type}

/-- If there is a fault, it is the error. Otherwise `P` is true of the result. -/
def Unless (fault : Option ε) (P : β → Inventory → Prop) : Except ε β → Inventory → Prop
  | .error e, _ => fault = some e
  | .ok b, j => fault = none ∧ P b j

theorem Unless.imp {fault fault' : Option ε} {P Q : β → Inventory → Prop} {r : Except ε β}
    (hr : Unless fault P r j) (hf : fault = fault') (hPQ : ∀ b, P b j → Q b j) :
    Unless fault' Q r j := by
  subst hf
  cases r with
  | error e => exact hr
  | ok b => exact ⟨hr.1, hPQ b hr.2⟩

theorem Yields.imp (hx : i.Yields x P) {Q : β → Inventory → Prop}
    (hPQ : ∀ b j, i.Leads j → P b j → Q b j) : i.Yields x Q := by
  obtain ⟨b, j, hrun, hj, hb⟩ := hx
  exact ⟨b, j, hrun, hj, hPQ b j hj hb⟩

/-- Of two computations in sequence the first one that has a fault is the last one to run. -/
theorem Yields.bind_unless {x : ExceptT ε Fresh β} {f : β → ExceptT ε Fresh γ}
    {fault fault' : Option ε} (hx : i.Yields x.run (Unless fault P))
    (hf : ∀ b j, i.Leads j → P b j → j.Yields (f b).run (Unless fault' Q)) :
    i.Yields (x >>= f).run (Unless (fault.or fault') Q) := by
  rw [ExceptT.run_bind]
  refine hx.bind fun r j hij hr => ?_
  cases r with
  | error e =>
    have he : fault = some e := hr
    exact .pure (by rw [Unless, he, Option.some_or])
  | ok b =>
    obtain ⟨hn, hb⟩ : fault = none ∧ P b j := hr
    rw [hn, Option.none_or]
    exact hf b j hij hb

/-- Given `h`, there is no error. Without an error, `P` is true of the result. -/
def Given (h : Prop) (P : β → Inventory → Prop) : Except ε β → Inventory → Prop
  | .error _, _ => ¬ h
  | .ok b, j => P b j

theorem Unless.given {fault : Option ε} {h : Prop} {r : Except ε β} (hr : Unless fault P r j)
    (hf : h → fault = none) : Given h (fun b j => fault = none ∧ P b j) r j := by
  cases r with
  | error e =>
    have he : fault = some e := hr
    exact fun hh => Option.some_ne_none e (he.symm.trans (hf hh))
  | ok b => exact hr

theorem Given.imp {h h' : Prop} {P Q : β → Inventory → Prop} {r : Except ε β}
    (hr : Given h P r j) (hh : h' → h) (hPQ : ∀ b, P b j → Q b j) : Given h' Q r j := by
  cases r with
  | error e => exact fun h => hr (hh h)
  | ok b => exact hPQ b hr

theorem Yields.given_imp {x : ExceptT ε Fresh β} {h h' : Prop}
    (hx : i.Yields x.run (Given h P)) (hh : h' → h) : i.Yields x.run (Given h' P) :=
  hx.imp fun _ _ _ hr => hr.imp hh fun _ hb => hb

theorem Yields.bind_given {x : ExceptT ε Fresh β} {f : β → ExceptT ε Fresh γ} {h : Prop}
    (hx : i.Yields x.run (Given h P))
    (hf : ∀ b j, i.Leads j → P b j → j.Yields (f b).run (Given h Q)) :
    i.Yields (x >>= f).run (Given h Q) := by
  rw [ExceptT.run_bind]
  refine hx.bind fun r j hij hr => ?_
  cases r with
  | error e => exact .pure hr
  | ok b => exact hf b j hij hr

theorem Yields.lift (hx : i.Yields x P) :
    i.Yields (liftM x : ExceptT ε Fresh β).run (Unless none P) := by
  have hrun : (liftM x : ExceptT ε Fresh β).run = Except.ok <$> x := rfl
  rw [hrun]
  exact hx.map fun b j _ hb => ⟨rfl, hb⟩

/-! ### A small history -/

namespace Sample

/-- A set with one class. -/
def classes : TransitiveSet String := ⟨.insertion, some (.mk ⟨0⟩ [.own "Generator"])⟩

/-- A record with one class. -/
def processors : Processors := ⟨.issued ⟨1⟩, classes, .empty .insertion, .empty .insertion⟩

/-- A record whose only processor generates API. -/
def provider : PluginProvider := ⟨.issued ⟨2⟩, [], processors, processors, true⟩

/-- The inventory with these objects. -/
def inventory : Inventory where
  supply := ⟨3⟩
  strings := classes :: initial.strings
  files := initial.files
  processors := processors :: initial.processors
  providers := provider :: initial.providers

theorem reachable_inventory : inventory.Reachable := by
  have hset := Step.strings (.ofList initial.stringStock .insertion ["Generator"])
  have hprocessors := (Relation.ReflTransGen.single hset).tail
    (.processors (List.mem_cons_self (a := classes))
      (List.mem_singleton_self (TransitiveSet.empty .insertion))
      (List.mem_singleton_self (TransitiveSet.empty .insertion)))
  exact hprocessors.tail (.provider [] List.mem_cons_self List.mem_cons_self true)

end Sample

end Inventory

end PluginClosure
