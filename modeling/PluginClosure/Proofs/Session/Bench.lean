import PluginClosure.Proofs.TransitiveSet.Gathering

/-!
# Drafts at hand

In a history of sets a draft is seen only when a set comes of it. Here drafts are at hand too, and
every call on one of them is a step of its own. A *bench* holds sets and drafts with one kind of
elements.

Two accounts of the past are kept, which no operation can see. Every draft is kept together with the
calls on it. A ledger keeps, for every serial number that was issued for a node, the order of the
list or of the draft that the node was made of. Nodes themselves do not have an order.

## Main definitions

* `PluginClosure.Ledger`, `PluginClosure.Ledger.Extends`: what serial numbers were issued for.
* `PluginClosure.Draft.Logged`: a draft with the calls on it.
* `PluginClosure.Bench`, `PluginClosure.Bench.Step`, `PluginClosure.Bench.Leads`: histories.
* `PluginClosure.Bench.Sound`: what is true of all benches that histories lead to.

## Main results

* `PluginClosure.Bench.Step.spec`: what a step can do.
* `PluginClosure.Bench.Sound.step`: soundness is kept.
* `PluginClosure.Bench.Step.stock_leads`, `PluginClosure.Bench.leads_of_stock_step`: the two kinds
  of histories bring the same sets.
-/

namespace PluginClosure

variable {α : Type}

/-! ### Ledgers -/

/-- The serial numbers that have not been issued, and what the others were issued for. -/
structure Ledger where
  /-- The serial numbers that are left. -/
  supply : Supply := {}
  /-- The order that a node with this number was made for. -/
  issuedFor : Serial → Option Order := fun _ => none

namespace Ledger

/-- The ledger after all numbers up to those in `supply` were issued, for nodes of the order if one
is given. -/
def record (l : Ledger) (supply : Supply) (o : Option Order) : Ledger where
  supply := supply
  issuedFor i := if l.supply.next ≤ i.index ∧ i.index < supply.next then o else l.issuedFor i

/-- The ledger `l'` is a later one: nothing that is in `l` was changed. -/
structure Extends (l l' : Ledger) : Prop where
  next_le : l.supply.next ≤ l'.supply.next
  issuedFor_eq : ∀ i : Serial, i.index < l.supply.next → l'.issuedFor i = l.issuedFor i

theorem Extends.refl (l : Ledger) : l.Extends l := ⟨Nat.le_refl _, fun _ _ => rfl⟩

theorem Extends.trans {l l' l'' : Ledger} (h : l.Extends l') (h' : l'.Extends l'') :
    l.Extends l'' :=
  ⟨h.next_le.trans h'.next_le, fun i hi =>
    (h'.issuedFor_eq i (hi.trans_le h.next_le)).trans (h.issuedFor_eq i hi)⟩

theorem extends_record (l : Ledger) {supply : Supply} (h : l.supply.next ≤ supply.next)
    (o : Option Order) : l.Extends (l.record supply o) :=
  ⟨h, fun _ hi => if_neg fun hn => Nat.not_lt.mpr hn.1 hi⟩

theorem issuedFor_record {l : Ledger} {supply : Supply} {i : Serial} (hi : l.supply.next ≤ i.index)
    (hi' : i.index < supply.next) (o : Option Order) : (l.record supply o).issuedFor i = o :=
  if_pos ⟨hi, hi'⟩

end Ledger

/-! ### Drafts -/

namespace Draft

/-- A draft, and all calls on it. -/
structure Logged (α : Type) where
  /-- The draft. -/
  draft : Draft α
  /-- The calls on the draft, in the sequence in which they were made. -/
  calls : List (Call α)
  branches_eq : draft.branches = calls.flatMap (Call.branches draft.order)

namespace Logged

/-- A new draft. -/
def start (o : Order) : Logged α := ⟨{ order := o }, [], rfl⟩

/-- The draft after one more call. -/
def perform (d : Logged α) (c : Call α) : Fresh (Logged α) := fun supply =>
  (⟨((d.draft.perform c).run supply).1, d.calls ++ [c], by
      obtain ⟨ho, hb, -⟩ := d.draft.perform_spec c supply
      rw [hb, ho, d.branches_eq, List.flatMap_append, List.flatMap_singleton]⟩,
    ((d.draft.perform c).run supply).2)

end Logged

/-- The node is behind an import of the draft. -/
def Reaches (d : Draft α) (n : Node α) : Prop := ∃ m, .imported m ∈ d.branches ∧ m.Reaches n

/-- The call that adds a branch to a draft of the order. -/
def Call.ofBranch (o : Order) : Branch α (Node α) → Call α
  | .own a => .add a
  | .imported n => .addSet ⟨o, some n⟩

/-- A shortest sequence of calls that leads to the draft. -/
def script (d : Draft α) : List (Call α) := d.branches.map (Call.ofBranch d.order)

theorem foldlM_perform_ofBranch (bs : List (Branch α (Node α))) (d : Draft α) :
    (bs.map (Call.ofBranch d.order)).foldlM perform d =
      (pure { d with latest := bs.reverse ++ d.latest } : Fresh (Draft α)) := by
  induction bs generalizing d with
  | nil => rfl
  | cons b bs ih =>
    rw [List.map_cons, List.foldlM_cons, List.reverse_cons, List.append_assoc]
    cases b with
    | own a => exact ih (d.add a)
    | imported n =>
      rw [Call.ofBranch, perform, addSet, if_pos rfl]
      exact ih { d with latest := .imported n :: d.latest }

theorem ofCalls_script (d : Draft α) : ofCalls d.order d.script = pure d := by
  rw [ofCalls, script]
  refine (foldlM_perform_ofBranch d.branches { order := d.order }).trans ?_
  rw [branches, List.reverse_reverse, List.append_nil]

end Draft

/-- A set that is made of a draft could have been made of the script of the draft. -/
theorem TransitiveSet.ofCalls_script (d : Draft α) : ofCalls d.order d.script = d.finish := by
  rw [ofCalls, d.ofCalls_script, pure_bind]

/-! ### Benches -/

/-- The sets and the drafts that are at hand, and what serial numbers were issued for. -/
structure Bench (α : Type) where
  /-- What serial numbers were issued for. -/
  ledger : Ledger
  /-- The sets at hand, the latest first. -/
  sets : List (TransitiveSet α)
  /-- The drafts at hand. A draft is still there in the form that it had before a call. -/
  drafts : List (Draft.Logged α)

namespace Bench

/-- The sets at hand, without the drafts. -/
def stock (b : Bench α) : Stock α := ⟨b.ledger.supply, b.sets⟩

/-- Puts a set at hand. A node that is made with it is made for the order. -/
def put (b : Bench α) (o : Order) (x : Fresh (TransitiveSet α)) : Bench α :=
  { b with
    ledger := b.ledger.record (x.run b.ledger.supply).2 (some o)
    sets := (x.run b.ledger.supply).1 :: b.sets }

/-- Makes a call on a draft. -/
def call (b : Bench α) (d : Draft.Logged α) (c : Draft.Call α) : Bench α :=
  { b with
    ledger := b.ledger.record ((d.perform c).run b.ledger.supply).2 (some d.draft.order)
    drafts := ((d.perform c).run b.ledger.supply).1 :: b.drafts }

/-- A step of a history. -/
inductive Step : Bench α → Bench α → Prop
  /-- An empty set. -/
  | empty (b : Bench α) (o : Order) : Step b (b.put o (return .empty o))
  /-- A set of own elements. -/
  | ofList (b : Bench α) (o : Order) (l : List α) : Step b (b.put o (TransitiveSet.ofList o l))
  /-- Another handle of a set. -/
  | copy (b : Bench α) (s : TransitiveSet α) (h : s ∈ b.sets) : Step b (b.put s.order (return s))
  /-- A new draft. -/
  | start (b : Bench α) (o : Order) : Step b { b with drafts := .start o :: b.drafts }
  /-- A call on a draft. -/
  | call (b : Bench α) (d : Draft.Logged α) (hd : d ∈ b.drafts) (c : Draft.Call α)
      (hc : ∀ s, c = .addSet s → s ∈ b.sets) : Step b (b.call d c)
  /-- The set that a draft has come to. -/
  | finish (b : Bench α) (d : Draft.Logged α) (hd : d ∈ b.drafts) :
      Step b (b.put d.draft.order d.draft.finish)
  /-- Objects of other kinds take serial numbers. -/
  | pass (b : Bench α) (next : Nat) (h : b.ledger.supply.next ≤ next) :
      Step b { b with ledger := b.ledger.record ⟨next⟩ none }

/-- A history leads from one bench to the other. -/
def Leads : Bench α → Bench α → Prop := Relation.ReflTransGen Step

/-- The nodes at hand are told apart by their serial numbers, and the ledger knows them by the order
of the sets that they are behind. The imports of drafts are at hand. -/
structure Sound (b : Bench α) : Prop where
  stock : b.stock.Sound
  imports_mem : ∀ d ∈ b.drafts, ∀ s, .addSet s ∈ d.calls → s ∈ b.sets
  issuedFor : ∀ s ∈ b.sets, ∀ n, s.Reaches n → b.ledger.issuedFor n.id = some s.order

variable {b b' : Bench α}

/-- Imports of a draft are roots of sets at hand. -/
theorem Sound.mem_of_imported (h : b.Sound) {d : Draft.Logged α} (hd : d ∈ b.drafts) {n : Node α}
    (hn : .imported n ∈ d.draft.branches) : ⟨d.draft.order, some n⟩ ∈ b.sets := by
  have himports : ∀ s, .addSet s ∈ d.calls → s ∈ b.stock.sets := h.imports_mem d hd
  exact Stock.mem_of_imported_branches himports (d.branches_eq ▸ hn)

/-- Nodes behind a draft are behind a set of its order. -/
theorem Sound.exists_mem_of_reaches (h : b.Sound) {d : Draft.Logged α} (hd : d ∈ b.drafts)
    {n : Node α} (hn : d.draft.Reaches n) :
    ∃ s ∈ b.sets, s.order = d.draft.order ∧ s.Reaches n := by
  obtain ⟨m, hm, hn⟩ := hn
  exact ⟨_, h.mem_of_imported hd hm, rfl, m, rfl, hn⟩

/-! ### Steps -/

/-- A set comes to hand. Nodes that come with it are made for its order. -/
structure Gains (b b' : Bench α) (s : TransitiveSet α) : Prop where
  sets : b'.sets = s :: b.sets
  drafts : b'.drafts = b.drafts
  brings : b.stock.Brings b'.ledger.supply.next s
  issuedFor : ∀ i : Serial, b.ledger.supply.next ≤ i.index → i.index < b'.ledger.supply.next →
    b'.ledger.issuedFor i = some s.order

/-- No set comes to hand, and no draft with other imports than sets at hand. -/
structure Keeps (b b' : Bench α) : Prop where
  sets : b'.sets = b.sets
  imports_mem : ∀ d ∈ b'.drafts, ∀ s, .addSet s ∈ d.calls → s ∈ b.sets

theorem gains_put {o : Order} {x : Fresh (TransitiveSet α)}
    (ho : (x.run b.ledger.supply).1.order = o)
    (hx : b.stock.Brings (x.run b.ledger.supply).2.next (x.run b.ledger.supply).1) :
    b.Gains (b.put o x) (x.run b.ledger.supply).1 :=
  ⟨rfl, rfl, hx, fun _ hi hi' => (Ledger.issuedFor_record hi hi' _).trans (congrArg some ho.symm)⟩

theorem gains_finish (hb : b.Sound) {d : Draft.Logged α} (hd : d ∈ b.drafts) :
    b.Gains (b.put d.draft.order d.draft.finish) (d.draft.finish.run b.ledger.supply).1 :=
  gains_put (d.draft.order_finish _)
    (Stock.brings_finish (Nat.le_refl _) fun _ hn => hb.mem_of_imported hd hn)

theorem keeps_call (hb : b.Sound) {d : Draft.Logged α} (hd : d ∈ b.drafts) {c : Draft.Call α}
    (hc : ∀ s, c = .addSet s → s ∈ b.sets) : b.Keeps (b.call d c) := by
  refine ⟨rfl, List.forall_mem_cons.mpr ⟨fun s hs => ?_, hb.imports_mem⟩⟩
  rcases List.mem_append.mp hs with hs | hs
  · exact hb.imports_mem d hd s hs
  · exact hc s (List.mem_singleton.mp hs).symm

/-- What a step can do. -/
theorem Step.spec (h : b.Step b') (hb : b.Sound) :
    b.ledger.Extends b'.ledger ∧ ((∃ s, b.Gains b' s) ∨ b.Keeps b') := by
  cases h with
  | empty o =>
    exact ⟨b.ledger.extends_record (Nat.le_refl _) _, Or.inl ⟨_, gains_put rfl (.empty o)⟩⟩
  | ofList o l =>
    obtain ⟨ho, hle⟩ := TransitiveSet.ofList_spec o l b.ledger.supply
    exact ⟨b.ledger.extends_record hle _, Or.inl ⟨_, gains_put ho (b.stock.brings_ofList o l)⟩⟩
  | copy s h =>
    exact ⟨b.ledger.extends_record (Nat.le_refl _) _, Or.inl ⟨_, gains_put rfl (.old h)⟩⟩
  | start o =>
    refine ⟨.refl _, Or.inr ⟨rfl, List.forall_mem_cons.mpr ⟨fun s hs => ?_, hb.imports_mem⟩⟩⟩
    cases hs
  | call d hd c hc =>
    exact ⟨b.ledger.extends_record (d.draft.perform_spec c _).2.2 _, Or.inr (keeps_call hb hd hc)⟩
  | finish d hd =>
    exact ⟨b.ledger.extends_record (d.draft.finish_next_le _) _, Or.inl ⟨_, gains_finish hb hd⟩⟩
  | pass next h => exact ⟨b.ledger.extends_record h _, Or.inr ⟨rfl, hb.imports_mem⟩⟩

/-- A set may come to hand. -/
theorem Sound.gains (h : b.Sound) (he : b.ledger.Extends b'.ledger) {s : TransitiveSet α}
    (hs : b.Gains b' s) : b'.Sound := by
  obtain ⟨ledger, sets, drafts⟩ := b'
  obtain ⟨rfl, rfl, hbrings, hnew⟩ := hs
  have hold (t : TransitiveSet α) (ht : t ∈ b.sets) (n : Node α) (hn : t.Reaches n) :
      ledger.issuedFor n.id = some t.order :=
    (he.issuedFor_eq n.id (h.stock.lt_next n ⟨t, ht, hn⟩)).trans (h.issuedFor t ht n hn)
  refine ⟨h.stock.put he.next_le hbrings, ?_, List.forall_mem_cons.mpr ⟨fun n hn => ?_, hold⟩⟩
  · exact fun d hd t ht => List.mem_cons_of_mem s (h.imports_mem d hd t ht)
  · -- Behind a new node there are only nodes behind sets of the same order.
    cases hbrings with
    | old hs => exact hold s hs n hn
    | empty o => exact absurd hn TransitiveSet.not_reaches_empty
    | node hb hi hi' hs =>
      rw [TransitiveSet.reaches_root rfl] at hn
      obtain rfl | ⟨m, hm, hn⟩ := Node.reaches_iff.mp hn
      · exact hnew _ hi hi'
      · exact hold _ (hs m hm) n ⟨m, rfl, hn⟩

/-- Numbers may be issued elsewhere, and drafts may come to hand whose imports are at hand. -/
theorem Sound.keeps (h : b.Sound) (he : b.ledger.Extends b'.ledger) (hk : b.Keeps b') :
    b'.Sound := by
  obtain ⟨ledger, sets, drafts⟩ := b'
  obtain ⟨rfl, himports⟩ := hk
  refine ⟨h.stock.step (.pass _ _ he.next_le), himports, fun s hs n hn => ?_⟩
  exact (he.issuedFor_eq n.id (h.stock.lt_next n ⟨s, hs, hn⟩)).trans (h.issuedFor s hs n hn)

theorem Sound.step (h : b.Sound) (hs : b.Step b') : b'.Sound := by
  obtain ⟨he, ⟨s, hg⟩ | hk⟩ := hs.spec h
  · exact h.gains he hg
  · exact h.keeps he hk

/-- Numbers may be issued elsewhere. -/
theorem Sound.later (h : b.Sound) {ledger : Ledger} (he : b.ledger.Extends ledger) :
    Sound { b with ledger := ledger } :=
  h.keeps he ⟨rfl, h.imports_mem⟩

/-- Another handle of a set may come to hand, or an empty set. -/
theorem Sound.handle (h : b.Sound) {s : TransitiveSet α} (hs : s ∈ b.sets ∨ ∃ o, s = .empty o) :
    Sound { b with sets := s :: b.sets } := by
  have hbrings : b.stock.Brings b.ledger.supply.next s := by
    rcases hs with hs | ⟨o, rfl⟩
    · exact .old hs
    · exact .empty o
  exact h.gains (.refl _) ⟨rfl, rfl, hbrings, fun i hi hi' => absurd hi (Nat.not_le.mpr hi')⟩

/-! ### Both kinds of histories -/

/-- Whatever happens on the bench could have happened in a history of sets. -/
theorem Step.stock_leads (h : b.Step b') (hb : b.Sound) :
    Relation.ReflTransGen Stock.Step b.stock b'.stock := by
  cases h with
  | empty o => exact .single (.empty b.stock o)
  | ofList o l => exact .single (.ofList b.stock o l)
  | copy s h => exact .single (.copy b.stock s h)
  | start o => exact .refl
  | call d hd c hc => exact .single (.pass b.stock _ (d.draft.perform_spec c b.ledger.supply).2.2)
  | finish d hd =>
    -- The calls on the draft may have taken serial numbers. Its script takes none, so that the set
    -- gets the number that it got on the bench.
    have hstep := Stock.Step.ofCalls b.stock d.draft.order d.draft.script fun s hs => by
      obtain ⟨br, hbr, hs⟩ := List.mem_map.mp hs
      cases br with
      | own a => cases hs
      | imported n =>
        cases hs
        exact hb.mem_of_imported hd hbr
    rw [TransitiveSet.ofCalls_script] at hstep
    exact .single hstep
  | pass next h => exact .single (.pass b.stock next h)

/-- Calls may be made one after the other. -/
theorem leads_calls (calls : List (Draft.Call α)) {d : Draft.Logged α} (hd : d ∈ b.drafts)
    (hc : ∀ s, .addSet s ∈ calls → s ∈ b.sets) :
    ∃ b', b.Leads b' ∧ b'.sets = b.sets ∧ ∃ d' ∈ b'.drafts,
      (calls.foldlM Draft.perform d.draft).run b.ledger.supply =
        (d'.draft, b'.ledger.supply) := by
  induction calls generalizing b d with
  | nil => exact ⟨b, .refl, rfl, d, hd, rfl⟩
  | cons c calls ih =>
    have hstep := Step.call b d hd c fun s hs => hc s (hs ▸ List.mem_cons_self)
    obtain ⟨b', hb', hsets, d', hd', hrun⟩ := ih (b := b.call d c) List.mem_cons_self
      fun s hs => hc s (List.mem_cons_of_mem c hs)
    exact ⟨b', .head hstep hb', hsets, d', hd', hrun⟩

/-- Whatever happens in a history of sets can happen on the bench. -/
theorem leads_of_stock_step {st : Stock α} (h : b.stock.Step st) :
    ∃ b', b.Leads b' ∧ b'.stock = st := by
  cases h with
  | empty o => exact ⟨_, .single (.empty b o), rfl⟩
  | ofList o l => exact ⟨_, .single (.ofList b o l), rfl⟩
  | ofCalls o calls h =>
    obtain ⟨b', hb', hsets, d, hd, hrun⟩ :=
      leads_calls (b := { b with drafts := .start o :: b.drafts }) calls List.mem_cons_self h
    refine ⟨_, (Relation.ReflTransGen.head (.start b o) hb').tail (.finish b' d hd), ?_⟩
    have hmake : (TransitiveSet.ofCalls o calls).run b.stock.supply =
        d.draft.finish.run b'.ledger.supply := by
      rw [TransitiveSet.ofCalls, StateT.run_bind]
      exact congrArg (fun r : Draft α × Supply => r.1.finish.run r.2) hrun
    have hsets : b'.sets = b.sets := hsets
    rw [stock, put, Stock.put, hmake, hsets]
    rfl
  | copy s h => exact ⟨_, .single (.copy b s h), rfl⟩
  | pass next h => exact ⟨_, .single (.pass b next h), rfl⟩

end Bench

end PluginClosure
