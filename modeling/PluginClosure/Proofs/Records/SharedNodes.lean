import PluginClosure.Proofs.Records.UnionContents
import PluginClosure.Proofs.TransitiveSet.SetTree

/-!
# The nodes that a union shares

A union refers to the sets of its records and copies none of them. Set by set there are three cases.
If the sets of all records are empty, so is that of the union. If the set of a single record is not,
the union has that very set. Otherwise it has a new node, whose branches are the roots of the sets
that are not empty, record by record. A record that occurs twice counts twice.

A union of records of the plugin provider has six sets and therefore makes at most six nodes,
however large the sets of its records are. Each of them has at most one branch for each record.
Whatever else the union makes is a record.

## Main definitions

* `PluginClosure.TransitiveSet.filled`, `PluginClosure.TransitiveSet.roots`: the sets of a list that
  are not empty, and their roots.
* `PluginClosure.Stock.Shares`, `PluginClosure.Inventory.Shares`: how a set, and a record, that was
  made of others shares their nodes.
* `PluginClosure.PluginProvider.newNodes`: the nodes of a record that were not there before.

## Main results

* `PluginClosure.Processors.run_imports`: the three cases.
* `PluginClosure.Inventory.Sound.shares_union`: a union of records of processors.
* `PluginClosure.Inventory.union_shares`: all unions, with the number of nodes that they make.
-/

namespace PluginClosure

variable {α : Type}

/-! ### Sets that are not empty -/

namespace TransitiveSet

/-- The sets of a list that are not empty. -/
def filled (l : List (TransitiveSet α)) : List (TransitiveSet α) := l.filter (!·.isEmpty)

/-- The roots of the sets of a list. -/
def roots (l : List (TransitiveSet α)) : List (Node α) := l.filterMap root

variable {l : List (TransitiveSet α)} {s t : TransitiveSet α} {n : Node α}

theorem isEmpty_eq_false_iff : s.isEmpty = false ↔ ∃ n, s.root = some n := by
  rw [isEmpty, Option.isNone_eq_false_iff, Option.isSome_iff_exists]

theorem length_filled (l : List (TransitiveSet α)) : (filled l).length = (roots l).length := by
  induction l with
  | nil => rfl
  | cons s l ih =>
    obtain ⟨o, _ | n⟩ := s
    · exact ih
    · exact congrArg Nat.succ ih

theorem mem_roots : n ∈ roots l ↔ ∃ s ∈ l, s.root = some n := List.mem_filterMap

theorem roots_eq_nil_iff : roots l = [] ↔ filled l = [] := by
  rw [← List.length_eq_zero_iff, ← length_filled, List.length_eq_zero_iff]

/-- Where there is a single root, there is a single set that is not empty. -/
theorem exists_filled_eq_singleton (h : roots l = [n]) :
    ∃ s, filled l = [s] ∧ s.root = some n := by
  have hlen : (filled l).length = 1 := by rw [length_filled, h, List.length_singleton]
  obtain ⟨s, hs⟩ := List.length_eq_one_iff.mp hlen
  have hmem : s ∈ filled l := hs ▸ List.mem_singleton_self s
  obtain ⟨hsl, he⟩ := List.mem_filter.mp hmem
  obtain ⟨m, hm⟩ := isEmpty_eq_false_iff.mp (by simpa using he)
  have hroot : m ∈ roots l := mem_roots.mpr ⟨s, hsl, hm⟩
  rw [h, List.mem_singleton] at hroot
  exact ⟨s, hs, hroot ▸ hm⟩

theorem flatMap_branches {o : Order} (h : ∀ s ∈ l, s.order = o) :
    (l.map .addSet).flatMap (Draft.Call.branches o) = (roots l).map .imported := by
  induction l with
  | nil => rfl
  | cons s l ih =>
    obtain ⟨hs, hl⟩ := List.forall_mem_cons.mp h
    rw [List.map_cons, List.flatMap_cons, ih hl, Draft.Call.branches, if_pos hs]
    obtain ⟨o, _ | n⟩ := s <;> rfl

theorem not_same_of_id (ht : t.root = some n) (hs : ∀ m, s.root = some m → m.id ≠ n.id) :
    t.same s = false := by
  rw [same, ht]
  cases h : s.root with
  | none => rfl
  | some m => exact decide_eq_false fun hid => hs m h hid.symm

end TransitiveSet

open TransitiveSet (filled roots)

/-- Importing the sets of a list gives the empty set, or the only set that is not empty, or a new
node over the roots. -/
theorem Processors.run_imports {l : List (TransitiveSet α)} (h : ∀ s ∈ l, s.order = order)
    (supply : Supply) :
    (filled l = [] ∧ (imports l).run supply = (.empty order, supply)) ∨
    (∃ s, filled l = [s] ∧ (imports l).run supply = (s, supply)) ∨
    (2 ≤ (filled l).length ∧ (imports l).run supply =
      (⟨order, some (.mk ⟨supply.next⟩ ((roots l).map .imported))⟩, ⟨supply.next + 1⟩)) := by
  obtain ⟨d, -, hd⟩ := TransitiveSet.foldlM_addSet { order } h
  obtain ⟨ho, hb, -⟩ := Draft.ofCalls_spec order (l.map .addSet) supply
  rw [Draft.ofCalls, hd] at ho hb
  have hrun : (imports l).run supply = d.finish.run supply := by
    rw [imports, TransitiveSet.ofCalls, Draft.ofCalls, hd, pure_bind]
  have hbranches : d.branches = (roots l).map .imported :=
    hb.trans (TransitiveSet.flatMap_branches h)
  have horder : d.order = order := ho
  rw [hrun, Draft.finish, hbranches, horder]
  rcases hr : roots l with _ | ⟨n, _ | ⟨m, ns⟩⟩
  · exact Or.inl ⟨TransitiveSet.roots_eq_nil_iff.mp hr, rfl⟩
  · obtain ⟨s, hs, hroot⟩ := TransitiveSet.exists_filled_eq_singleton hr
    have hsl : s ∈ l := List.mem_of_mem_filter (hs ▸ List.mem_singleton_self s)
    have heq : s = ⟨order, some n⟩ := by rw [← h s hsl, ← hroot]
    exact Or.inr (Or.inl ⟨s, hs, by rw [heq]; rfl⟩)
  · refine Or.inr (Or.inr ⟨?_, rfl⟩)
    rw [TransitiveSet.length_filled, hr, List.length_cons, List.length_cons]
    omega

/-! ### Sharing -/

/-- How a set that was made of the sets of a list, all of them in the stock, shares their nodes.
Serial numbers from `first` on were not in use before it was made. -/
structure Stock.Shares (st : Stock α) (first : Nat) (t : TransitiveSet α)
    (l : List (TransitiveSet α)) : Prop where
  isEmpty : filled l = [] → t.isEmpty = true
  same : ∀ s, filled l = [s] → t.same s = true
  root : 2 ≤ (filled l).length →
    ∃ i : Serial, first ≤ i.index ∧ t.root = some (.mk i ((roots l).map .imported))
  not_same : 2 ≤ (filled l).length → ∀ s ∈ st.sets, t.same s = false
  /-- No node but the root is new. -/
  new : ∀ n, t.Reaches n → first ≤ n.id.index →
    t.root = some n ∧ n.branches.length ≤ l.length

/-- Set by set, the record shares the nodes of the records of a list. -/
structure Inventory.Shares (i : Inventory) (first : Nat) (p : Processors)
    (l : List Processors) : Prop where
  classes : i.stringStock.Shares first p.classes (l.map Processors.classes)
  classpath : i.fileStock.Shares first p.classpath (l.map Processors.classpath)
  data : i.fileStock.Shares first p.data (l.map Processors.data)

namespace Stock

variable {st : Stock α} {l k : List (TransitiveSet α)} {t : TransitiveSet α} {o : Order}
  {first : Nat}

theorem shares_empty (h : filled l = []) : st.Shares first (.empty o) l where
  isEmpty _ := rfl
  same s hs := absurd (h.symm.trans hs) (by simp)
  root hlen := absurd hlen (by simp [h])
  not_same hlen := absurd hlen (by simp [h])
  new _ hn := absurd hn TransitiveSet.not_reaches_empty

/-- Empty sets have nothing to share. -/
theorem Shares.congr (h : st.Shares first t k) (hf : filled k = filled l)
    (hr : roots k = roots l) (hle : k.length ≤ l.length) : st.Shares first t l where
  isEmpty := hf ▸ h.isEmpty
  same := hf ▸ h.same
  root := hf ▸ hr ▸ h.root
  not_same := hf ▸ h.not_same
  new n hn hfirst := (h.new n hn hfirst).imp_right fun hb => hb.trans hle

theorem Sound.shares_imports (h : st.Sound) (hl : l ⊆ st.sets)
    (ho : ∀ s ∈ l, s.order = Processors.order) (hf : st.supply.next ≤ first) {supply : Supply}
    (hs : first ≤ supply.next) :
    st.Shares first ((Processors.imports l).run supply).1 l := by
  have hold {s : TransitiveSet α} (hs : s ∈ st.sets) {n : Node α} (hn : s.Reaches n) :
      n.id.index < first := (h.lt_next n ⟨s, hs, hn⟩).trans_le hf
  rcases Processors.run_imports ho supply with ⟨hnil, hrun⟩ | ⟨s, hsingle, hrun⟩ | ⟨hlen, hrun⟩
  · rw [hrun]
    exact shares_empty hnil
  · rw [hrun]
    have hsl : s ∈ l := List.mem_of_mem_filter (hsingle ▸ List.mem_singleton_self s)
    exact
      { isEmpty := fun hnil => absurd (hnil.symm.trans hsingle) (by simp)
        same := fun u hu => by
          obtain rfl : s = u := List.singleton_injective (hsingle.symm.trans hu)
          exact s.same_self
        root := fun hlen => absurd hlen (by simp [hsingle])
        not_same := fun hlen => absurd hlen (by simp [hsingle])
        new := fun n hn hfirst => absurd (hold (hl hsl) hn) (by omega) }
  · rw [hrun]
    constructor
    · exact fun hnil => absurd hlen (by simp [hnil])
    · exact fun s hsingle => absurd hlen (by simp [hsingle])
    · exact fun _ => ⟨⟨supply.next⟩, hs, rfl⟩
    · intro _ s hst
      refine TransitiveSet.not_same_of_id rfl fun m hm hid => ?_
      have hlt : m.id.index < first := hold hst ⟨m, hm, .refl m⟩
      rw [hid] at hlt
      exact absurd hlt (Nat.not_lt.mpr hs)
    · intro n hn hfirst
      rw [TransitiveSet.reaches_root rfl] at hn
      obtain rfl | ⟨m, hm, hn⟩ := Node.reaches_iff.mp hn
      · refine ⟨rfl, ?_⟩
        rw [Node.branches_mk, List.length_map]
        exact List.length_filterMap_le _ _
      · obtain ⟨m', hroot, heq⟩ := List.mem_map.mp (Node.imports_mk.mp hm)
        cases heq
        obtain ⟨s, hsl, hsm⟩ := TransitiveSet.mem_roots.mp hroot
        exact absurd (hold (hl hsl) ⟨m, hsm, hn⟩) (by omega)

end Stock

/-! ### Serial numbers -/

/-- The serial number of the root, if there is a root. -/
def TransitiveSet.rootSerials (t : TransitiveSet α) : List Serial := t.root.toList.map Node.id

/-- The serial numbers of the roots of the sets. -/
def Processors.rootSerials (p : Processors) : List Serial :=
  p.classes.rootSerials ++ p.classpath.rootSerials ++ p.data.rootSerials

/-- The serial numbers of those roots of the six sets that were not there before the number `first`
was issued. -/
def PluginProvider.newNodes (first : Nat) (r : PluginProvider) : List Serial :=
  (r.plugins.rootSerials ++ r.apiPlugins.rootSerials).filter (first ≤ ·.index)

theorem TransitiveSet.length_rootSerials_le (t : TransitiveSet α) :
    t.rootSerials.length ≤ 1 := by
  obtain ⟨o, _ | n⟩ := t <;> simp [rootSerials]

theorem Processors.length_rootSerials_le (p : Processors) : p.rootSerials.length ≤ 3 := by
  have hc := p.classes.length_rootSerials_le
  have hp := p.classpath.length_rootSerials_le
  have hd := p.data.length_rootSerials_le
  rw [rootSerials, List.length_append, List.length_append]
  omega

theorem PluginProvider.length_newNodes_le (first : Nat) (r : PluginProvider) :
    (r.newNodes first).length ≤ 6 := by
  have hp := r.plugins.length_rootSerials_le
  have ha := r.apiPlugins.length_rootSerials_le
  refine (List.length_filter_le _ _).trans ?_
  rw [List.length_append]
  omega

/-- The numbers that a computation has taken from the supply, between the one before and the one
after, are all in use for something. -/
def Supply.Covered (before after : Supply) (used : Serial → Prop) : Prop :=
  ∀ k, before.next ≤ k → k < after.next → used ⟨k⟩

namespace Supply.Covered

variable {s t u : Supply} {P Q : Serial → Prop}

theorem refl (s : Supply) (P : Serial → Prop) : s.Covered s P :=
  fun _ hle hlt => absurd hlt (Nat.not_lt.mpr hle)

theorem next (n : Nat) (hP : P ⟨n⟩) : Covered ⟨n⟩ ⟨n + 1⟩ P := by
  intro k hle hlt
  obtain rfl : k = n := Nat.le_antisymm (Nat.lt_succ_iff.mp hlt) hle
  exact hP

theorem trans (h : s.Covered t P) (h' : t.Covered u P) : s.Covered u P := by
  intro k hle hlt
  by_cases hk : k < t.next
  · exact h k hle hk
  · exact h' k (Nat.not_lt.mp hk) hlt

theorem imp (h : s.Covered t P) (hPQ : ∀ k, s.next ≤ k → P ⟨k⟩ → Q ⟨k⟩) : s.Covered t Q :=
  fun k hle hlt => hPQ k hle (h k hle hlt)

end Supply.Covered

/-! ### Unions -/

theorem Fresh.run_bind_of_run {β γ : Type} {x : Fresh β} {f : β → Fresh γ} {b : β}
    {supply supply' : Supply} (h : x.run supply = (b, supply')) :
    (x >>= f).run supply = (f b).run supply' := by
  rw [StateT.run_bind, h]
  rfl

theorem Fresh.run_bind_of_run_ok {ε β γ : Type} {x : ExceptT ε Fresh β} {f : β → ExceptT ε Fresh γ}
    {b : β} {supply supply' : Supply} (h : x.run.run supply = (.ok b, supply')) :
    (x >>= f).run.run supply = (f b).run.run supply' := by
  rw [ExceptT.run_bind, Fresh.run_bind_of_run h]

/-- Of a set of imports, only the root can be new. -/
theorem Processors.covered_imports {l : List (TransitiveSet α)} (h : ∀ s ∈ l, s.order = order)
    (supply : Supply) : supply.Covered ((imports l).run supply).2
      (· ∈ ((imports l).run supply).1.rootSerials) := by
  rcases run_imports h supply with ⟨-, hrun⟩ | ⟨s, -, hrun⟩ | ⟨-, hrun⟩
  · rw [hrun]
    exact .refl _ _
  · rw [hrun]
    exact .refl _ _
  · rw [hrun]
    exact .next _ (List.mem_singleton_self _)

/-- A set of imports that is made when the numbers from `first` on are not in use. -/
theorem Stock.Sound.exists_run_imports {st : Stock α} (h : st.Sound) {l : List (TransitiveSet α)}
    (hl : l ⊆ st.sets) (ho : ∀ s ∈ l, s.order = Processors.order) {first : Nat}
    (hf : st.supply.next ≤ first) {supply : Supply} (hs : first ≤ supply.next) :
    ∃ t supply', (Processors.imports l).run supply = (t, supply') ∧ t.order = Processors.order ∧
      st.Shares first t l ∧ supply.next ≤ supply'.next ∧
      supply.Covered supply' (· ∈ t.rootSerials) :=
  ⟨_, _, rfl, TransitiveSet.order_ofCalls .., h.shares_imports hl ho hf hs,
    TransitiveSet.ofCalls_next_le .., Processors.covered_imports ho supply⟩

/-- A record of sets in the order of records has these sets, and a serial number of its own unless
they are all empty. -/
theorem Processors.exists_run_create {classes : TransitiveSet String}
    {classpath data : TransitiveSet File} (hc : classes.order = order)
    (hp : classpath.order = order) (hd : data.order = order) (supply : Supply) :
    ∃ id supply', (create classes classpath data).run supply =
      (⟨id, classes, classpath, data⟩, supply') ∧ supply.next ≤ supply'.next ∧
      supply.Covered supply' (id = .issued ·) := by
  rcases create_spec classes classpath data supply with ⟨he, hrun⟩ | ⟨-, hrun⟩
  · simp only [Bool.and_eq_true] at he
    refine ⟨.canonical (), supply, ?_, Nat.le_refl _, .refl _ _⟩
    rw [hrun, TransitiveSet.eq_empty_of_isEmpty he.1.1 hc,
      TransitiveSet.eq_empty_of_isEmpty he.1.2 hp, TransitiveSet.eq_empty_of_isEmpty he.2 hd]
    rfl
  · exact ⟨_, _, hrun, Nat.le_succ _, .next _ rfl⟩

/-- What empty records would contribute is nothing. -/
theorem Processors.filled_map_filter (part : Processors → TransitiveSet α)
    (hpart : ∀ p : Processors, p.isEmpty = true → (part p).isEmpty = true) (l : List Processors) :
    filled ((l.filter (!·.isEmpty)).map part) = filled (l.map part) ∧
      roots ((l.filter (!·.isEmpty)).map part) = roots (l.map part) := by
  induction l with
  | nil => exact ⟨rfl, rfl⟩
  | cons p l ih =>
    obtain ⟨hfilled, hroots⟩ := ih
    cases he : p.isEmpty with
    | true =>
      have hp := hpart p he
      have hroot : (part p).root = none := Option.isNone_iff_eq_none.mp hp
      rw [List.filter_cons_of_neg (by simp [he]), hfilled, hroots, List.map_cons, filled, filled,
        List.filter_cons_of_neg (by simp [hp]), roots, roots, List.filterMap_cons_none hroot]
      exact ⟨rfl, rfl⟩
    | false =>
      rw [List.filter_cons_of_pos (by simp [he]), List.map_cons, List.map_cons, filled, filled,
        List.filter_cons, List.filter_cons, roots, roots, List.filterMap_cons, List.filterMap_cons,
        ← filled, ← filled, ← roots, ← roots, hfilled, hroots]
      exact ⟨rfl, rfl⟩

theorem Processors.parts_isEmpty {p : Processors} (h : p.isEmpty = true) :
    p.classes.isEmpty = true ∧ p.classpath.isEmpty = true ∧ p.data.isEmpty = true := by
  simpa [isEmpty, and_assoc] using h

namespace Inventory

variable {i : Inventory} {first : Nat} {p : Processors} {l : List Processors}

theorem Shares.of_filter (h : i.Shares first p (l.filter (!·.isEmpty))) : i.Shares first p l := by
  have hle {β : Type} (f : Processors → β) :
      ((l.filter (!·.isEmpty)).map f).length ≤ (l.map f).length := by
    rw [List.length_map, List.length_map]
    exact List.length_filter_le _ _
  obtain ⟨hcf, hcr⟩ := Processors.filled_map_filter Processors.classes
    (fun _ he => (Processors.parts_isEmpty he).1) l
  obtain ⟨hpf, hpr⟩ := Processors.filled_map_filter Processors.classpath
    (fun _ he => (Processors.parts_isEmpty he).2.1) l
  obtain ⟨hdf, hdr⟩ := Processors.filled_map_filter Processors.data
    (fun _ he => (Processors.parts_isEmpty he).2.2) l
  exact ⟨h.classes.congr hcf hcr (hle _), h.classpath.congr hpf hpr (hle _),
    h.data.congr hdf hdr (hle _)⟩

theorem shares_empty (h : l.filter (!·.isEmpty) = []) : i.Shares first .empty l :=
  .of_filter (h ▸ ⟨Stock.shares_empty rfl, Stock.shares_empty rfl, Stock.shares_empty rfl⟩)

/-- A union of records at hand shares their nodes. The numbers that it takes from the supply are
those of new roots, and of the record. -/
theorem Sound.shares_union (hi : i.Sound) (hl : l ⊆ i.processors) (ho : ∀ p ∈ l, p.InOrder)
    (hf : i.supply.next ≤ first) {supply : Supply} (hs : first ≤ supply.next) :
    ∃ p supply', (Processors.union l).run.run supply = (.ok p, supply') ∧ i.Shares first p l ∧
      supply.next ≤ supply'.next ∧
      supply.Covered supply' fun k => k ∈ p.rootSerials ∨ p.id = .issued k := by
  have hfault : l.findSome? Processors.fault? = none :=
    List.findSome?_eq_none_iff.mpr fun p hp => Processors.fault?_eq_none_iff_inOrder.mpr (ho p hp)
  have hunion : (Processors.union l).run = Except.ok <$> Processors.unite l :=
    ((Processors.union_eq l).resolve_left fun ⟨e, he, _⟩ => by simp [hfault] at he).2
  have hmem {β : Type} {f : Processors → β} {k : List β} (h : ∀ p ∈ l, f p ∈ k) : l.map f ⊆ k :=
    fun s hs => List.forall_mem_map.mpr h s hs
  have hsets (p : Processors) (hp : p ∈ l) := hi.sets_mem p (hl hp)
  -- The three sets are made one after the other.
  obtain ⟨c, s₁, hc, hco, hcs, h₁, hcc⟩ := hi.strings.exists_run_imports
    (hmem fun p hp => (hsets p hp).1) (List.forall_mem_map.mpr fun p hp => (ho p hp).classes) hf hs
  obtain ⟨cp, s₂, hp, hpo, hps, h₂, hpc⟩ := hi.files.exists_run_imports
    (hmem fun p hp => (hsets p hp).2.1) (List.forall_mem_map.mpr fun p hp => (ho p hp).classpath)
    hf (hs.trans h₁)
  obtain ⟨d, s₃, hd, hdo, hds, h₃, hdc⟩ := hi.files.exists_run_imports
    (hmem fun p hp => (hsets p hp).2.2) (List.forall_mem_map.mpr fun p hp => (ho p hp).data)
    hf (hs.trans (h₁.trans h₂))
  obtain ⟨id, s₄, hr, h₄, hrc⟩ := Processors.exists_run_create hco hpo hdo s₃
  refine ⟨⟨id, c, cp, d⟩, s₄, ?_, ⟨hcs, hps, hds⟩, h₁.trans (h₂.trans (h₃.trans h₄)), ?_⟩
  · have hunite : (Processors.unite l).run supply = (⟨id, c, cp, d⟩, s₄) := by
      rw [Processors.unite, Fresh.run_bind_of_run hc, Fresh.run_bind_of_run hp,
        Fresh.run_bind_of_run hd, hr]
    rw [hunion, StateT.run_map, hunite]
    rfl
  · refine .trans (hcc.imp fun k _ hk => ?_) (.trans (hpc.imp fun k _ hk => ?_)
      (.trans (hdc.imp fun k _ hk => ?_) (hrc.imp fun k _ hk => Or.inr hk)))
    · simp [Processors.rootSerials, hk]
    · simp [Processors.rootSerials, hk]
    · simp [Processors.rootSerials, hk]

theorem Sound.shares_union_filter (hi : i.Sound) (hl : l ⊆ i.processors)
    (ho : ∀ p ∈ l, p.InOrder) (hf : i.supply.next ≤ first) {supply : Supply}
    (hs : first ≤ supply.next) :
    ∃ p supply', (Processors.union (l.filter (!·.isEmpty))).run.run supply = (.ok p, supply') ∧
      i.Shares first p l ∧ supply.next ≤ supply'.next ∧
      supply.Covered supply' fun k => k ∈ p.rootSerials ∨ p.id = .issued k := by
  obtain ⟨p, supply', hrun, hp, hle, hc⟩ := hi.shares_union
    (fun q hq => hl (List.mem_of_mem_filter hq))
    (fun q hq => ho q (List.mem_of_mem_filter hq)) hf hs
  exact ⟨p, supply', hrun, hp.of_filter, hle, hc⟩

/-- **Unions share nodes.** The records of the list are at hand, and their sets are in the order of
records. Set by set, the union is empty, or has the only set that is not, or has a new node over the
roots of the sets, which is the root of no set that was at hand. A union of records of the plugin
provider makes at most six nodes. Every other serial number that it takes is that of a record. -/
theorem union_shares (h : i.Reachable) {supply : Supply} (hs : i.supply.next ≤ supply.next) :
    (∀ l ⊆ i.processors, (∀ p ∈ l, p.InOrder) → ∃ p supply',
      (Processors.union l).run.run supply = (.ok p, supply') ∧ i.Shares supply.next p l) ∧
    ∀ l ⊆ i.providers, (∀ r ∈ l, r.plugins.InOrder ∧ r.apiPlugins.InOrder) → ∀ b, ∃ r supply',
      (PluginProvider.union l b).run.run supply = (.ok r, supply') ∧
        i.Shares supply.next r.plugins (l.map PluginProvider.plugins) ∧
        i.Shares supply.next r.apiPlugins (l.map PluginProvider.apiPlugins) ∧
        (r.newNodes supply.next).length ≤ 6 ∧
        supply.Covered supply' fun k => k ∈ r.newNodes supply.next ∨
          r.id = .issued k ∨ r.plugins.id = .issued k ∨ r.apiPlugins.id = .issued k := by
  have hi := h.sound
  constructor
  · intro l hl ho
    obtain ⟨p, supply', hrun, hp, -⟩ := hi.shares_union hl ho hs (Nat.le_refl _)
    exact ⟨p, supply', hrun, hp⟩
  · intro l hl ho b
    obtain ⟨hplugins, hapi⟩ := hi.parts_subset hl
    rw [PluginProvider.union]
    split
    · next he =>
      rw [Bool.and_eq_true, List.isEmpty_iff, List.isEmpty_iff] at he
      exact ⟨_, supply, rfl, shares_empty he.1, shares_empty he.2,
        PluginProvider.length_newNodes_le _ _, .refl _ _⟩
    · obtain ⟨p, s₁, hp, hps, h₁, hpc⟩ := hi.shares_union_filter hplugins
        (List.forall_mem_map.mpr fun r hr => (ho r hr).1) hs (Nat.le_refl _)
      obtain ⟨q, s₂, hq, hqs, h₂, hqc⟩ := hi.shares_union_filter hapi
        (List.forall_mem_map.mpr fun r hr => (ho r hr).2) hs h₁
      refine ⟨⟨.issued ⟨s₂.next⟩, [], p, q, b && l.all PluginProvider.builtin⟩, ⟨s₂.next + 1⟩, ?_,
        hps, hqs, PluginProvider.length_newNodes_le _ _,
        .trans (hpc.imp fun k hk hu => ?_) (.trans (hqc.imp fun k hk hu => ?_) (.next _ ?_))⟩
      · rw [Fresh.run_bind_of_run_ok hp, Fresh.run_bind_of_run_ok hq]
        rfl
      · refine hu.imp (fun hr => ?_) fun hid => Or.inr (Or.inl hid)
        exact List.mem_filter.mpr ⟨List.mem_append_left _ hr, decide_eq_true hk⟩
      · refine hu.imp (fun hr => ?_) fun hid => Or.inr (Or.inr hid)
        exact List.mem_filter.mpr ⟨List.mem_append_right _ hr, decide_eq_true (h₁.trans hk)⟩
      · exact Or.inr (Or.inl rfl)

/-- A record that occurs twice is imported twice. If it occurs once, its set is taken over. -/
theorem union_shares_twice :
    (∃ r supply' i n, (PluginProvider.union
        [Sample.provider, .empty false, Sample.provider] true).run.run ⟨3⟩ = (.ok r, supply') ∧
      Sample.classes.root = some n ∧
      r.plugins.classes.root = some (.mk i [.imported n, .imported n]) ∧
      r.plugins.classes.same Sample.classes = false ∧ r.plugins.classpath.isEmpty = true) ∧
    ∃ r supply', (PluginProvider.union [Sample.provider, .empty false] true).run.run ⟨3⟩ =
      (.ok r, supply') ∧ r.plugins.classes.same Sample.classes = true := by
  have hle : Sample.inventory.supply.next ≤ (⟨3⟩ : Supply).next := Nat.le_refl 3
  obtain ⟨-, hunion⟩ := union_shares Sample.reachable_inventory hle
  have hprovider : Sample.provider ∈ Sample.inventory.providers := List.mem_cons_self
  have hempty : PluginProvider.empty false ∈ Sample.inventory.providers :=
    Sample.reachable_inventory.sound.empty_mem_providers false
  have hinorder : Sample.processors.InOrder := ⟨rfl, rfl, rfl⟩
  have hpair : ∀ r ∈ [Sample.provider, .empty false], r.plugins.InOrder ∧ r.apiPlugins.InOrder :=
    List.forall_mem_cons.mpr ⟨⟨hinorder, hinorder⟩,
      List.forall_mem_singleton.mpr ⟨⟨rfl, rfl, rfl⟩, ⟨rfl, rfl, rfl⟩⟩⟩
  constructor
  · obtain ⟨r, supply', hrun, hp, -⟩ := hunion [Sample.provider, .empty false, Sample.provider]
      (List.cons_subset.mpr ⟨hprovider, pair_subset hempty hprovider⟩)
      (List.forall_mem_cons.mpr ⟨hpair _ List.mem_cons_self, List.forall_mem_cons.mpr
        ⟨hpair _ (List.mem_cons_of_mem _ List.mem_cons_self),
          List.forall_mem_singleton.mpr (hpair _ List.mem_cons_self)⟩⟩) true
    obtain ⟨i, -, hroot⟩ := hp.classes.root (Nat.le_refl 2)
    exact ⟨r, supply', i, _, hrun, rfl, hroot,
      hp.classes.not_same (Nat.le_refl 2) Sample.classes List.mem_cons_self,
      hp.classpath.isEmpty rfl⟩
  · obtain ⟨r, supply', hrun, hp, -⟩ := hunion [Sample.provider, .empty false]
      (pair_subset hprovider hempty) hpair true
    exact ⟨r, supply', hrun, hp.classes.same Sample.classes rfl⟩

end Inventory

end PluginClosure
