import PluginClosure.Proofs.Session.Basic

/-!
# One order for every node

A node does not have an order. It is walked in the order of the set that it is behind, and it may be
behind many sets. All of these have the same order, though, which is the one that the node was made
for: sets of other orders are refused as imports, and where a draft gives back the node that it has
imported, the order of the draft is the one that the import had.

## Main definitions

* `PluginClosure.Bench.OneOrder`: nodes at hand are held under the order that they were made for.

## Main results

* `PluginClosure.Session.one_order`: so it is in every session.
-/

namespace PluginClosure

variable {α : Type}

namespace TransitiveSet

theorem beq_self [BEq α] [Hashable α] (s : TransitiveSet α) : (s == s) = true := by
  show (decide (s.order = s.order) && (s.same s || s.toList == s.toList)) = true
  rw [decide_eq_true rfl, s.same_self, Bool.true_or, Bool.and_self]

end TransitiveSet

namespace Bench

variable [BEq α] [Hashable α] {b : Bench α}

/-- Two sets that share their root have the same order, list the same elements, and are equal. Nodes
behind a set or a draft, however deep, were made for its order. -/
structure OneOrder (b : Bench α) : Prop where
  shared : ∀ s ∈ b.sets, ∀ t ∈ b.sets, s.isEmpty = false → t.isEmpty = false → s.same t = true →
    s.order = t.order ∧ s.toList = t.toList ∧ (s == t) = true
  sets : ∀ s ∈ b.sets, ∀ n, s.Reaches n → b.ledger.issuedFor n.id = some s.order
  drafts : ∀ d ∈ b.drafts, ∀ n, d.draft.Reaches n → b.ledger.issuedFor n.id = some d.draft.order

omit [BEq α] [Hashable α] in
/-- The order of a set at hand can be told from its root. -/
theorem Sound.order_eq_of_same (h : b.Sound) {s t : TransitiveSet α} (hs : s ∈ b.sets)
    (ht : t ∈ b.sets) (hne : s.isEmpty = false) (hsame : s.same t = true) : s.order = t.order := by
  obtain ⟨o, _ | m⟩ := s
  · cases hne
  · obtain ⟨o', _ | n⟩ := t
    · cases hsame
    · have hid : m.id = n.id := of_decide_eq_true hsame
      -- Both orders are the one that the ledger has for the number of the root.
      have hm := h.issuedFor _ hs m ⟨m, rfl, .refl m⟩
      have hn := h.issuedFor _ ht n ⟨n, rfl, .refl n⟩
      rw [hid] at hm
      exact Option.some.inj (hm.symm.trans hn)

theorem Sound.oneOrder [EquivBEq α] [LawfulHashable α] (h : b.Sound) : b.OneOrder where
  shared s hs t ht hne _ hsame := by
    have ho := h.order_eq_of_same hs ht hne hsame
    cases h.stock.eq_of_same hs ht ho hsame
    exact ⟨rfl, rfl, TransitiveSet.beq_self s⟩
  sets := h.issuedFor
  drafts d hd n hn := by
    obtain ⟨s, hs, ho, hn⟩ := h.exists_mem_of_reaches hd hn
    rw [h.issuedFor s hs n hn, ho]

end Bench

namespace Session

variable {s s' : Session α}

/-- What a serial number was issued for stays so. -/
theorem Sound.ledger_extends (h : s.Sound) (hs : s.Leads s') : s.ledger.Extends s'.ledger := by
  suffices hboth : s'.Sound ∧ s.ledger.Extends s'.ledger from hboth.2
  induction hs with
  | refl => exact ⟨h, .refl _⟩
  | tail _ hstep ih => exact ⟨hstep.sound ih.1, ih.2.trans (hstep.ledger_extends ih.1)⟩

/-- **Every node is held under one order.** Whatever the history, a node is behind sets and drafts
of one order only, which is the order that it was made for, and remains so in all further history.
What records and values hold is no exception, and all operations on records belong to such
histories. -/
theorem one_order [BEq α] [Hashable α] [EquivBEq α] [LawfulHashable α] (h : s.Reachable) :
    s.stringBench.OneOrder ∧ s.fileBench.OneOrder ∧ s.otherBench.OneOrder ∧
      s.Closed ∧ s.Operates ∧ ∀ s', s.Leads s' → s.ledger.Extends s'.ledger :=
  ⟨h.sound.strings.oneOrder, h.sound.files.oneOrder, h.sound.others.oneOrder,
    h.sound.closed, h.sound.operates, fun _ => h.sound.ledger_extends⟩

/-- The sample holds one node twice, and a draft that has imported it. -/
theorem one_order_sample : Sample.session.Reachable ∧
    Sample.session.others = [Sample.leaf, Sample.leaf] ∧
    (Sample.leaf == Sample.leaf) = true ∧
    Sample.session.ledger.issuedFor ⟨0⟩ = some .preorder := by
  obtain ⟨-, -, h, -⟩ := one_order Sample.reachable_session
  have hshared := h.shared Sample.leaf List.mem_cons_self Sample.leaf
    (List.mem_cons_of_mem _ List.mem_cons_self) rfl rfl rfl
  have hdraft := h.drafts Sample.wrapper List.mem_cons_self (.mk ⟨0⟩ [.own 1])
    ⟨_, List.mem_cons_self, .refl _⟩
  exact ⟨Sample.reachable_session, rfl, hshared.2.2, hdraft⟩

end Session

end PluginClosure
