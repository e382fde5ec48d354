import PluginClosure.Proofs.Records.Refusals
import PluginClosure.Proofs.Records.RoundTrip
import PluginClosure.Proofs.Records.UnionContents

/-!
# Processors as structs

Every record of processors can be written as a struct, but not every struct that was written can be
read again: sets of any order are written, and only those in the order of records are read. What is
read holds the very sets that were written. It is a new record nevertheless, unless it is empty.

## Main definitions

* `PluginClosure.Processors.CopyOf`: what is read instead of what was written.

## Main results

* `PluginClosure.Inventory.Sound.copyOf_create`: the record that is made of the sets of another one.
* `PluginClosure.Inventory.written_processors`: what the attempt to read a written record comes to.
-/

namespace PluginClosure

namespace Processors

variable {p : Processors}

theorem inOrder_iff_writtenSets : p.InOrder ↔ ∀ w ∈ p.writtenSets, ¬ w.Foreign := by
  simp only [forall_mem_writtenSets, inOrder_iff, WrittenSet.Foreign, not_not]

/-- What the read record has in common with the record that was written. -/
structure CopyOf (q p : Processors) : Prop where
  beq : (q == p) = true
  classes : q.classes.same p.classes = true
  classpath : q.classpath.same p.classpath = true
  data : q.data.same p.data = true
  /-- The empty record is the only one that is read as the same object. -/
  same_iff : q.same p = true ↔ p.same .empty = true

end Processors

namespace Inventory

variable {i : Inventory} {p : Processors}

theorem Sound.copyOf_create (h : i.Sound) (hp : p ∈ i.processors) {supply : Supply}
    (hs : i.supply.next ≤ supply.next) :
    ((Processors.create p.classes p.classpath p.data).run supply).1.CopyOf p := by
  rcases Processors.create_spec p.classes p.classpath p.data supply with ⟨he, hrun⟩ | ⟨hne, hrun⟩
  · obtain rfl := h.eq_empty p hp he
    rw [hrun]
    exact ⟨(Processors.Alike.refl _).beq, rfl, rfl, rfl, Iff.rfl⟩
  · rw [hrun]
    refine ⟨Processors.Alike.beq ⟨.refl _, .refl _, .refl _⟩, p.classes.same_self,
      p.classpath.same_self, p.data.same_self, ?_⟩
    rw [h.same_empty_iff hp, Processors.same, decide_eq_true_iff]
    constructor
    · intro hid
      exact absurd (h.processors.lt_next p hp _ hid.symm) (Nat.not_lt.mpr hs)
    · intro he
      exact absurd (hne.symm.trans he) Bool.false_ne_true

/-- **Processors that are written and read.** A record is read again if its sets are in the order of
records. Otherwise the first set that is not is the reason why it is refused, even if that set is
empty. -/
theorem written_processors (h : i.Reachable) (hp : p ∈ i.processors) (log : Log) {supply : Supply}
    (hs : i.supply.next ≤ supply.next) :
    let res := ((Processors.ofValue (.struct p.toFields)).outcome log supply).1
    (∀ w ∈ p.writtenSets, p.toFields.get? w.field = some w.value) ∧
      ((∃ q, res = .ok q) ↔ p.InOrder) ∧
      (∀ q, res = .ok q → q.CopyOf p) ∧
      Blames Processors.WrittenSet.Foreign Processors.WrittenSet.refusal p.writtenSets res := by
  intro res
  have hres : (∃ w, p.writtenSets.find? (fun w => w.Foreign) = some w ∧ res = .error w.refusal) ∨
      (p.writtenSets.find? (fun w => w.Foreign) = none ∧
        res = .ok ((Processors.create p.classes p.classpath p.data).run supply).1) := by
    have hattempt : Processors.ofValue (.struct p.toFields) =
        Attempt.onFailure (.rejectedProcessors .struct) (Processors.ofFields p.toFields) := rfl
    rcases Processors.ofFields_toFields p with ⟨w, hw, hf⟩ | ⟨hn, hf⟩
    · exact Or.inl ⟨w, hw, by simp only [res, hattempt, hf]; rfl⟩
    · exact Or.inr ⟨hn, by simp only [res, hattempt, hf]; rfl⟩
  have hblames : Blames Processors.WrittenSet.Foreign Processors.WrittenSet.refusal
      p.writtenSets res := blames_of_find? (hres.imp_right fun ⟨hn, hok⟩ => ⟨hn, _, hok⟩)
  refine ⟨p.get?_toFields, ?_, ?_, hblames⟩
  · rw [hblames.isOk, Processors.inOrder_iff_writtenSets]
  · intro q hq
    rcases hres with ⟨w, -, herror⟩ | ⟨-, hok⟩
    · cases herror.symm.trans hq
    · cases hok.symm.trans hq
      exact h.sound.copyOf_create hp hs

/-- A record with one class is read as a new record with the same sets. If its empty set of data
files is in another order, it is not read. -/
theorem written_processors_sample :
    (∃ q, ((Processors.ofValue (.struct Sample.processors.toFields)).outcome [] ⟨5⟩).1 = .ok q ∧
      q.CopyOf Sample.processors ∧ q.same Sample.processors = false) ∧
    ((Processors.ofValue (.struct Sample.foreignProcessors.toFields)).outcome [] ⟨5⟩).1 =
      .error (.field (.wrongOrder "processor_data" (.set .file) .postorder (.set .file)
        .insertion)) := by
  have hs : Sample.foreignInventory.supply.next ≤ (⟨5⟩ : Supply).next := Nat.le_refl 5
  have hp : Sample.processors ∈ Sample.foreignInventory.processors :=
    List.mem_cons_of_mem _ List.mem_cons_self
  have hf : Sample.foreignProcessors ∈ Sample.foreignInventory.processors := List.mem_cons_self
  obtain ⟨-, hok, hcopy, -⟩ := written_processors Sample.reachable_foreignInventory hp [] hs
  obtain ⟨-, -, -, hblames⟩ := written_processors Sample.reachable_foreignInventory hf [] hs
  obtain ⟨q, hq⟩ := hok.mpr ⟨rfl, rfl, rfl⟩
  have hne : Sample.processors.same .empty = false := rfl
  refine ⟨⟨q, hq, hcopy q hq, ?_⟩, (hblames.eq_error _).mpr
    ⟨_, firstWith_iff_find?.mpr rfl, rfl⟩⟩
  rw [← hne, Bool.eq_iff_iff]
  exact (hcopy q hq).same_iff

end Inventory

end PluginClosure
