import PluginClosure.Proofs.Records.Operations
import PluginClosure.Proofs.Session.Bench

/-!
# Sessions

A *session* holds everything that callers can hold: sets and drafts with strings, with files, and
with elements of any other kind, records of both kinds, and values of the configuration language.
All kinds of objects draw on one supply of serial numbers, of which one ledger is kept.

A session starts with the canonical records. Its steps are the operations on sets and drafts, the
reading of sets from values, the making of values and the making of records. All other operations
on records are sequences of such steps.

## Main definitions

* `PluginClosure.Session`, `PluginClosure.Session.Step`, `PluginClosure.Session.Leads`,
  `PluginClosure.Session.Reachable`: histories.
* `PluginClosure.Session.Sound`: what is true of all sessions that histories lead to.
* `PluginClosure.Session.Closed`: what records and values hold is at hand.
* `PluginClosure.Session.Runs`, `PluginClosure.Session.Operates`: operations on records as sequences
  of steps.

## Main results

* `PluginClosure.Session.Reachable.sound`: the benches are sound, values are over the inventory, and
  the inventory is one to which histories of records lead.
* `PluginClosure.Session.leads_of_inventory`: what happens in histories of records can happen in a
  session.
* `PluginClosure.Session.Sound.operates`: every operation on records is a sequence of steps.
-/

namespace PluginClosure

/-! ### Histories of sets in histories of records -/

namespace Inventory

variable {i : Inventory}

theorem leads_strings {st : Stock String}
    (h : Relation.ReflTransGen Stock.Step i.stringStock st) :
    i.Leads { i with supply := st.supply, strings := st.sets } := by
  induction h with
  | refl => exact .refl
  | tail _ hs ih => exact ih.tail (.strings hs)

theorem leads_files {st : Stock File}
    (h : Relation.ReflTransGen Stock.Step i.fileStock st) :
    i.Leads { i with supply := st.supply, files := st.sets } := by
  induction h with
  | refl => exact .refl
  | tail _ hs ih => exact ih.tail (.files hs)

end Inventory

/-! ### Sessions -/

/-- Everything that is at hand, and what serial numbers were issued for. -/
structure Session (α : Type) where
  /-- What serial numbers were issued for. -/
  ledger : Ledger := {}
  /-- The sets of strings at hand. -/
  strings : List (TransitiveSet String) := Inventory.initial.strings
  /-- The drafts of sets of strings. -/
  stringDrafts : List (Draft.Logged String) := []
  /-- The sets of files at hand. -/
  files : List (TransitiveSet File) := Inventory.initial.files
  /-- The drafts of sets of files. -/
  fileDrafts : List (Draft.Logged File) := []
  /-- The sets with other elements. -/
  others : List (TransitiveSet α) := []
  /-- The drafts of sets with other elements. -/
  otherDrafts : List (Draft.Logged α) := []
  /-- The records of processors at hand. -/
  processors : List Processors := Inventory.initial.processors
  /-- The records of the plugin provider at hand. -/
  providers : List PluginProvider := Inventory.initial.providers
  /-- The values at hand. -/
  values : List Value := []

namespace Session

variable {α : Type}

/-- The sets and drafts with strings. -/
def stringBench (s : Session α) : Bench String := ⟨s.ledger, s.strings, s.stringDrafts⟩

/-- The sets and drafts with files. -/
def fileBench (s : Session α) : Bench File := ⟨s.ledger, s.files, s.fileDrafts⟩

/-- The sets and drafts with other elements. -/
def otherBench (s : Session α) : Bench α := ⟨s.ledger, s.others, s.otherDrafts⟩

/-- The sets that records are made of, and the records. -/
def inventory (s : Session α) : Inventory where
  supply := s.ledger.supply
  strings := s.strings
  files := s.files
  processors := s.processors
  providers := s.providers

/-- Exchanges the sets and drafts with strings. -/
def withStrings (s : Session α) (b : Bench String) : Session α :=
  { s with ledger := b.ledger, strings := b.sets, stringDrafts := b.drafts }

/-- Exchanges the sets and drafts with files. -/
def withFiles (s : Session α) (b : Bench File) : Session α :=
  { s with ledger := b.ledger, files := b.sets, fileDrafts := b.drafts }

/-- Exchanges the sets and drafts with other elements. -/
def withOthers (s : Session α) (b : Bench α) : Session α :=
  { s with ledger := b.ledger, others := b.sets, otherDrafts := b.drafts }

/-- Puts a record of processors at hand. -/
def putProcessors (s : Session α) (x : Fresh Processors) : Session α :=
  { s with
    ledger := s.ledger.record (x.run s.ledger.supply).2 none
    processors := (x.run s.ledger.supply).1 :: s.processors }

/-- Puts a record of the plugin provider at hand. -/
def putProvider (s : Session α) (x : Fresh PluginProvider) : Session α :=
  { s with
    ledger := s.ledger.record (x.run s.ledger.supply).2 none
    providers := (x.run s.ledger.supply).1 :: s.providers }

/-- A step of a history. -/
inductive Step : Session α → Session α → Prop
  /-- An operation on sets and drafts with strings. -/
  | strings {s : Session α} {b : Bench String} (h : s.stringBench.Step b) :
      Step s (s.withStrings b)
  /-- An operation on sets and drafts with files. -/
  | files {s : Session α} {b : Bench File} (h : s.fileBench.Step b) :
      Step s (s.withFiles b)
  /-- An operation on sets and drafts with other elements. -/
  | others {s : Session α} {b : Bench α} (h : s.otherBench.Step b) :
      Step s (s.withOthers b)
  /-- A value that holds what is at hand. -/
  | value {s : Session α} {v : Value} (h : v.Over s.inventory) :
      Step s { s with values := v :: s.values }
  /-- A set of strings that is read from a value. -/
  | readStrings {s : Session α} {v : Value} (hv : v ∈ s.values) {name : String}
      {t : TransitiveSet String} (h : v.strings? name = .ok t) :
        Step s { s with strings := t :: s.strings }
  /-- A set of files that is read from a value. -/
  | readFiles {s : Session α} {v : Value} (hv : v ∈ s.values) {name : String}
      {t : TransitiveSet File} (h : v.files? name = .ok t) :
        Step s { s with files := t :: s.files }
  /-- A record of processors with sets at hand. -/
  | processors {s : Session α} {classes : TransitiveSet String}
      {classpath data : TransitiveSet File} (hc : classes ∈ s.strings) (hp : classpath ∈ s.files)
      (hd : data ∈ s.files) : Step s (s.putProcessors (Processors.create classes classpath data))
  /-- A record of the plugin provider with records of processors at hand. -/
  | provider {s : Session α} (outputs : List CompiledOutput) {plugins apiPlugins : Processors}
      (hp : plugins ∈ s.processors) (ha : apiPlugins ∈ s.processors) (builtin : Bool) :
        Step s (s.putProvider (PluginProvider.make outputs plugins apiPlugins builtin))

/-- A history leads from one session to the other. -/
def Leads : Session α → Session α → Prop := Relation.ReflTransGen Step

/-- The sessions that histories lead to. -/
def Reachable (s : Session α) : Prop := Leads {} s

/-- The benches are sound, and values hold what is at hand. The inventory is one of those that
histories of records lead to. -/
structure Sound (s : Session α) : Prop where
  inventory : s.inventory.Reachable
  strings : s.stringBench.Sound
  files : s.fileBench.Sound
  others : s.otherBench.Sound
  values : ∀ v ∈ s.values, v.Over s.inventory

/-- What records and values hold is at hand. -/
structure Closed (s : Session α) : Prop where
  sets : ∀ p ∈ s.processors, p.classes ∈ s.strings ∧ p.classpath ∈ s.files ∧ p.data ∈ s.files
  parts : ∀ r ∈ s.providers, r.plugins ∈ s.processors ∧ r.apiPlugins ∈ s.processors
  values : ∀ v ∈ s.values, v.Over s.inventory

variable {s s' : Session α}

theorem Sound.closed (h : s.Sound) : s.Closed :=
  ⟨h.inventory.sound.sets_mem, h.inventory.sound.parts_mem, h.values⟩

theorem sound_initial : ({} : Session α).Sound := by
  -- At first all sets at hand are empty, so that there are no nodes to speak of.
  have hempty {β : Type} {b : Bench β} (hs : b.stock.Sound)
      (hn : ∀ t ∈ b.sets, t = .empty Processors.order) (hd : b.drafts = []) : b.Sound := by
    refine ⟨hs, ?_, fun t ht n hr => ?_⟩
    · rw [hd]
      exact fun d hd => absurd hd List.not_mem_nil
    · rw [hn t ht] at hr
      exact absurd hr TransitiveSet.not_reaches_empty
  refine ⟨.refl, hempty Inventory.sound_initial.strings ?_ rfl,
    hempty Inventory.sound_initial.files ?_ rfl,
    hempty (Stock.Reachable.sound .refl) (fun t ht => absurd ht List.not_mem_nil) rfl,
    fun v hv => absurd hv List.not_mem_nil⟩
  · exact fun t ht => List.mem_singleton.mp ht
  · exact fun t ht => List.mem_singleton.mp ht

/-! ### Steps -/

/-- Whatever happens to records, and to sets that records can be made of, could have happened in a
history of records. -/
theorem Step.inventory_leads (h : s.Step s') (hs : s.Sound) : s.inventory.Leads s'.inventory := by
  cases h with
  | strings h => exact Inventory.leads_strings (i := s.inventory) (h.stock_leads hs.strings)
  | files h => exact Inventory.leads_files (i := s.inventory) (h.stock_leads hs.files)
  | others h => exact Inventory.leads_pass (i := s.inventory) (h.spec hs.others).1.next_le
  | value h => exact .refl
  | readStrings hv h =>
    rcases (hs.values _ hv).strings? h with ht | ⟨o, rfl⟩
    · exact .single (.strings (.copy s.inventory.stringStock _ ht))
    · exact .single (.strings (.empty s.inventory.stringStock o))
  | readFiles hv h =>
    rcases (hs.values _ hv).files? h with ht | ⟨o, rfl⟩
    · exact .single (.files (.copy s.inventory.fileStock _ ht))
    · exact .single (.files (.empty s.inventory.fileStock o))
  | processors hc hp hd => exact .single (.processors (i := s.inventory) hc hp hd)
  | provider outputs hp ha builtin =>
    exact .single (.provider (i := s.inventory) outputs hp ha builtin)

/-- No step changes what serial numbers were issued for. -/
theorem Step.ledger_extends (h : s.Step s') (hs : s.Sound) : s.ledger.Extends s'.ledger := by
  have hnext := (h.inventory_leads hs).within.next_le
  cases h with
  | strings h => exact (h.spec hs.strings).1
  | files h => exact (h.spec hs.files).1
  | others h => exact (h.spec hs.others).1
  | value | readStrings | readFiles => exact .refl _
  | processors | provider => exact s.ledger.extends_record hnext _

theorem Step.sound (h : s.Step s') (hs : s.Sound) : s'.Sound := by
  have he := h.ledger_extends hs
  have hleads := h.inventory_leads hs
  have hinventory : s'.inventory.Reachable := hs.inventory.trans hleads
  have hvalues (v : Value) (hv : v ∈ s.values) : v.Over s'.inventory :=
    (hs.values v hv).mono hleads.within
  cases h with
  | strings h =>
    exact ⟨hinventory, hs.strings.step h, hs.files.later he, hs.others.later he, hvalues⟩
  | files h =>
    exact ⟨hinventory, hs.strings.later he, hs.files.step h, hs.others.later he, hvalues⟩
  | others h =>
    exact ⟨hinventory, hs.strings.later he, hs.files.later he, hs.others.step h, hvalues⟩
  | value h => exact { hs with values := List.forall_mem_cons.mpr ⟨h, hs.values⟩ }
  | readStrings hv h =>
    exact ⟨hinventory, hs.strings.handle ((hs.values _ hv).strings? h), hs.files, hs.others,
      hvalues⟩
  | readFiles hv h =>
    exact ⟨hinventory, hs.strings, hs.files.handle ((hs.values _ hv).files? h), hs.others,
      hvalues⟩
  | processors | provider =>
    exact ⟨hinventory, hs.strings.later he, hs.files.later he, hs.others.later he, hvalues⟩

/-- Whatever the history, the session is sound. -/
theorem Reachable.sound (h : s.Reachable) : s.Sound := by
  induction h with
  | refl => exact sound_initial
  | tail _ hs ih => exact hs.sound ih

/-! ### Histories of records in a session -/

theorem leads_strings {b : Bench String} (h : s.stringBench.Leads b) :
    s.Leads (s.withStrings b) := by
  induction h with
  | refl => exact .refl
  | tail _ hs ih => exact ih.tail (.strings hs)

theorem leads_files {b : Bench File} (h : s.fileBench.Leads b) : s.Leads (s.withFiles b) := by
  induction h with
  | refl => exact .refl
  | tail _ hs ih => exact ih.tail (.files hs)

theorem leads_others {b : Bench α} (h : s.otherBench.Leads b) : s.Leads (s.withOthers b) := by
  induction h with
  | refl => exact .refl
  | tail _ hs ih => exact ih.tail (.others hs)

theorem leads_of_inventory_step {i : Inventory} (h : s.inventory.Step i) :
    ∃ s', s.Leads s' ∧ s'.inventory = i := by
  cases h with
  | strings h =>
    obtain ⟨b, hb, rfl⟩ := s.stringBench.leads_of_stock_step h
    exact ⟨_, leads_strings hb, rfl⟩
  | files h =>
    obtain ⟨b, hb, rfl⟩ := s.fileBench.leads_of_stock_step h
    exact ⟨_, leads_files hb, rfl⟩
  | processors hc hp hd => exact ⟨_, .single (.processors hc hp hd), rfl⟩
  | provider outputs hp ha builtin => exact ⟨_, .single (.provider outputs hp ha builtin), rfl⟩

/-- What happens in a history of records can happen in a session. -/
theorem leads_of_inventory {i : Inventory} (h : s.inventory.Leads i) :
    ∃ s', s.Leads s' ∧ s'.inventory = i := by
  induction h with
  | refl => exact ⟨s, .refl, rfl⟩
  | tail _ hi ih =>
    obtain ⟨s₁, h₁, rfl⟩ := ih
    obtain ⟨s₂, h₂, rfl⟩ := leads_of_inventory_step hi
    exact ⟨s₂, h₁.trans h₂, rfl⟩

/-! ### Operations on records -/

variable {ε β : Type}

/-- Run in the session, whatever has been noted before, the attempt is a sequence of steps. If it
succeeds, `P` is true of its result and of the session afterwards. -/
def Runs (s : Session α) (x : Attempt ε β) (P : β → Session α → Prop) : Prop :=
  ∀ log, ∃ r s', (x.run.run log).run s.ledger.supply = (r, s'.ledger.supply) ∧ s.Leads s' ∧
    ∀ b, r.1 = .ok b → P b s'

theorem runs_of_attempts {x : Attempt ε β} {P : β → Inventory → Prop}
    (h : s.inventory.Attempts x P) : s.Runs x fun b s' => P b s'.inventory := by
  intro log
  obtain ⟨r, i, hrun, hi, hP⟩ := h log
  obtain ⟨s', hs', rfl⟩ := leads_of_inventory hi
  exact ⟨r, s', hrun, hs', hP⟩

/-- All operations on records are sequences of steps, and their results are at hand afterwards. -/
structure Operates (s : Session α) : Prop where
  ofLists : ∀ (classes : List String) (classpath data : List File),
    s.Runs (liftM (Processors.ofLists classes classpath data) : Attempt Empty _) fun p s' =>
      p ∈ s'.processors
  unionProcessors : ∀ l ⊆ s.processors,
    s.Runs (liftM (Processors.union l) : Attempt OrderMismatch _) fun p s' => p ∈ s'.processors
  processorsOfValue : ∀ v ∈ s.values, s.Runs (Processors.ofValue v) fun p s' => p ∈ s'.processors
  create : ∀ (outputs : List CompiledOutput), ∀ p ∈ s.processors, ∀ q ∈ s.processors, ∀ b,
    s.Runs (liftM (PluginProvider.create outputs p q b) : Attempt ApiNotAmongPlugins _)
      fun r s' => r ∈ s'.providers
  union : ∀ l ⊆ s.providers, ∀ b,
    s.Runs (liftM (PluginProvider.union l b) : Attempt OrderMismatch _) fun r s' => r ∈ s'.providers
  unionTwo : ∀ r ∈ s.providers, ∀ t ∈ s.providers,
    s.Runs (liftM (PluginProvider.unionTwo r t) : Attempt OrderMismatch _) fun u s' =>
      u ∈ s'.providers
  ofValue : ∀ v ∈ s.values, s.Runs (PluginProvider.ofValue v) fun r s' => r ∈ s'.providers
  ofCompilation : ∀ a, .provider a ∈ s.values →
    s.Runs (PluginProvider.ofCompilation a) fun r s' => r ∈ s'.providers
  slotsOfTarget : ∀ t : Target, (∀ k a, t.provider k = some a → .provider a ∈ s.values) →
    s.Runs (Slots.ofTarget t) fun x s' => x.Within s'.inventory
  slotsUnion : ∀ x : Slots, x.Within s.inventory →
    s.Runs x.union fun u s' => ∀ r ∈ u, r ∈ s'.providers
  ofTarget : ∀ t : Target, (∀ k a, t.provider k = some a → .provider a ∈ s.values) →
    s.Runs (PluginProvider.ofTarget t) fun u s' => ∀ r ∈ u, r ∈ s'.providers
  toFields : ∀ p ∈ s.processors, ∃ s', s.Leads s' ∧ .struct p.toFields ∈ s'.values
  toInstance : ∀ r ∈ s.providers, ∃ s', s.Leads s' ∧ .provider r.toInstance ∈ s'.values

theorem Sound.operates (h : s.Sound) : s.Operates := by
  have hi := h.inventory.sound
  have htarget (t : Target) (ht : ∀ k a, t.provider k = some a → .provider a ∈ s.values) :
      t.Over s.inventory := fun k a ha => h.values _ (ht k a ha)
  exact
    { ofLists := fun c p d => runs_of_attempts (.ofLists c p d)
      unionProcessors := fun l hl => runs_of_attempts (.unionProcessors hi hl)
      processorsOfValue := fun v hv => runs_of_attempts (.processorsOfValue (h.values v hv))
      create := fun outputs p hp q hq b => runs_of_attempts (.create outputs hp hq b)
      union := fun l hl b => runs_of_attempts (.union hi hl b)
      unionTwo := fun r hr t ht => runs_of_attempts (.unionTwo hi hr ht)
      ofValue := fun v hv => runs_of_attempts (.ofValue (h.values v hv))
      ofCompilation := fun a ha => runs_of_attempts (.ofCompilation hi (h.values _ ha))
      slotsOfTarget := fun t ht => runs_of_attempts (.slotsOfTarget (htarget t ht))
      slotsUnion := fun x hx => runs_of_attempts (.slotsUnion hi hx)
      ofTarget := fun t ht => runs_of_attempts (.ofTarget hi (htarget t ht))
      toFields := fun p hp =>
        ⟨_, .single (.value (.struct (hi.toFields_over hp))), List.mem_cons_self⟩
      toInstance := fun r hr => ⟨_, .single (.value (hi.toInstance_over hr)), List.mem_cons_self⟩ }

/-! ### A small history -/

namespace Sample

/-- A set with one element. -/
def leaf : TransitiveSet Nat := ⟨.preorder, some (.mk ⟨0⟩ [.own 1])⟩

/-- The sets and drafts after the set was made. -/
def made : Bench Nat :=
  Bench.put (otherBench {}) .preorder (TransitiveSet.ofList .preorder [1])

/-- The sets and drafts after a draft was begun. -/
def started : Bench Nat := { made with drafts := [.start .preorder] }

/-- The sets and drafts after the set was imported. -/
def imported : Bench Nat := started.call (.start .preorder) (.addSet leaf)

/-- The draft that has imported the set. -/
def wrapper : Draft.Logged Nat where
  draft := { order := .preorder, latest := [.imported (.mk ⟨0⟩ [.own 1])] }
  calls := [.addSet leaf]
  branches_eq := rfl

/-- The session after the draft was finished. -/
def session : Session Nat := withOthers {} (imported.put .preorder wrapper.draft.finish)

theorem reachable_session : session.Reachable := by
  have hmade : (otherBench {}).Leads made := .single (.ofList _ .preorder [1])
  have hstarted : (otherBench {}).Leads started := hmade.tail (.start made .preorder)
  have himported : (otherBench {}).Leads imported := by
    refine hstarted.tail (.call started _ List.mem_cons_self (.addSet leaf) ?_)
    rintro _ ⟨⟩
    exact List.mem_cons_self
  exact leads_others (himported.tail (.finish imported wrapper List.mem_cons_self))

end Sample

end Session

end PluginClosure
