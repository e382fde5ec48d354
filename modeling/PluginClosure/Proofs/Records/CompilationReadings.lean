import PluginClosure.Proofs.Records.ProvidersFormat
import PluginClosure.Proofs.Records.WrittenProviders

/-!
# Two readings of a struct

A struct that was exported by a compilation can be read for its processors alone. The same struct
can be read as a record of the plugin provider, if it is given an empty list of outputs. The two
readings take the same steps, and fail for the same reasons. What they make of the processors is
equal too, but it is not the same object: without processors, the first reading gives a canonical
record back, and the second one makes a new one nevertheless.

That the processors are equal even then depends on the history: a record of processors that a field
holds, and that has no elements, is the canonical one.

## Main definitions

* `PluginClosure.PluginProvider.Counterparts`: what the two readings have in common, and how they
  differ.

## Main results

* `PluginClosure.Inventory.Sound.eq_empty_of_mayReturn`: processors without elements, however they
  are read.
* `PluginClosure.Inventory.Attempts.issued_ofFields`: records that are read from structs are new.
* `PluginClosure.Inventory.compilation_readings`: the two readings agree.
-/

namespace PluginClosure

variable {β γ ε : Type}

/-! ### Outcomes -/

theorem Attempt.fst_outcome_onFailure (event : ε → Event) (x : Attempt ε β) (log : Log)
    (supply : Supply) : ((onFailure event x).outcome log supply).1 = (x.outcome log supply).1 := by
  rw [outcome, outcome, run_onFailure, StateT.run_bind]
  rcases (x.run.run log).run supply with ⟨⟨e | b, log'⟩, supply'⟩ <;> rfl

theorem Agrees.and_right {R : β → γ → Prop} {P : γ → Prop} {x : Except ε β} {y : Except ε γ}
    (h : Agrees R x y) (hy : ∀ c, y = .ok c → P c) : Agrees (fun b c => R b c ∧ P c) x y := by
  cases h with
  | error e => exact .error e
  | ok h => exact .ok ⟨h, hy _ rfl⟩

/-! ### Processors without elements -/

namespace Inventory

variable {i : Inventory} {v : Value} {f : Fields Value} {p : Processors}

/-- Processors without elements are the canonical record, whether a value is the record or a struct
with its sets. -/
theorem Sound.eq_empty_of_mayReturn (h : i.Sound) (hv : v.Over i)
    (hp : (Processors.ofValue v).MayReturn p) (he : p.isEmpty = true) : p = .empty := by
  rcases Processors.mayReturn_ofValue.mp hp with rfl | ⟨g, rfl, hg⟩
  · cases hv with
    | processors hmem => exact h.eq_empty p hmem he
  · obtain ⟨classes, classpath, data, supply, -, -, -, rfl⟩ := Processors.mayReturn_ofFields hg
    rcases Processors.create_spec classes classpath data supply with ⟨-, hc⟩ | ⟨hne, hc⟩
    · rw [hc]
    · rw [hc] at he
      exact absurd (hne.symm.trans he) Bool.false_ne_true

theorem Sound.eq_empty_of_mayReturn_readProcessors (h : i.Sound) (hf : f.Over i) {name : String}
    (hp : (PluginProvider.readProcessors f name).MayReturn p) (he : p.isEmpty = true) :
    p = .empty := by
  obtain ⟨v, hv, hp⟩ := PluginProvider.mayReturn_readProcessors hp
  exact h.eq_empty_of_mayReturn (hf.require (Fields.require_eq_ok.mpr hv)) hp he

/-! ### New records -/

theorem over_insert_nil (hf : f.Over i) (name : String) : (f.insert name (.list [])).Over i := by
  intro e he
  rcases Fields.mem_insertEntry he with rfl | he
  · exact .list fun v hv => absurd hv List.not_mem_nil
  · exact hf e he

/-- A record that is read from a struct has a serial number that was not in use. -/
theorem Attempts.issued_ofFields (o : Origin) (hf : f.Over i) :
    i.Attempts (PluginProvider.ofFields o f) fun r _ =>
      ∃ n, r.id = .issued n ∧ i.supply.next ≤ n.index := by
  refine (lift_field (P := fun _ _ => True) fun _ _ => trivial).bind fun outputs i₁ h₁ _ => ?_
  have hf₁ := hf.mono h₁.within
  refine (readProcessors hf₁ _).bind fun plugins i₂ h₂ hp => ?_
  refine (readProcessors (hf₁.mono h₂.within) _).bind fun apiPlugins i₃ h₃ ha => ?_
  have hstep := Step.provider outputs (h₃.within.processors hp) ha o.isBuiltin
  refine lift_fresh ⟨_, _, rfl, .single hstep, ?_⟩
  exact ⟨_, rfl, (h₁.within.trans (h₂.within.trans h₃.within)).next_le⟩

theorem Sound.not_same_of_issued (h : i.Sound) {r s : PluginProvider} (hs : s ∈ i.providers)
    (hr : ∃ n, r.id = .issued n ∧ i.supply.next ≤ n.index) : r.same s = false := by
  obtain ⟨n, hid, hn⟩ := hr
  rw [PluginProvider.same, decide_eq_false_iff_not, hid]
  exact fun h' => absurd (h.providers.lt_next s hs n h'.symm) (Nat.not_lt.mpr hn)

end Inventory

/-! ### Steps in common -/

namespace PluginProvider

variable {f g : Fields Value} {o : Origin} {name : String}

theorem readProcessors_congr (h : g.get? name = f.get? name) :
    readProcessors g name = readProcessors f name := by
  rw [readProcessors, readProcessors, Fields.require, Fields.require, h]

theorem ofCompilationFields_congr (o : Origin)
    (h : ∀ name, name ≠ CompiledOutput.listField → g.get? name = f.get? name) :
    ofCompilationFields o g = ofCompilationFields o f := by
  rw [ofCompilationFields, ofCompilationFields,
    readProcessors_congr (h pluginsField (by decide)),
    readProcessors_congr (h apiPluginsField (by decide))]

/-- With an empty list for its outputs, a struct is read for its processors alone. -/
theorem ofFields_insert_nil (o : Origin) (f : Fields Value) :
    ofFields o (f.insert CompiledOutput.listField (.list [])) =
      readProcessors f pluginsField >>= fun plugins =>
        readProcessors f apiPluginsField >>= fun apiPlugins =>
          liftM (make [] plugins apiPlugins o.isBuiltin) := by
  have hother {name : String} (hne : name ≠ CompiledOutput.listField) :
      (f.insert CompiledOutput.listField (.list [])).get? name = f.get? name := by
    rw [Fields.get?_insert, if_neg hne]
  have houtputs : readOutputs (f.insert CompiledOutput.listField (.list [])) = .ok [] := by
    rw [readOutputs, Fields.require, Fields.get?_insert, if_pos rfl]
    rfl
  rw [ofFields, houtputs, readProcessors_congr (hother (by decide)),
    readProcessors_congr (hother (by decide))]
  rfl

/-- What the two readings of a struct have in common, and how they differ. The first record is that
of a compilation, and the inventory is the one before the second reading. -/
structure Counterparts (i : Inventory) (o : Origin) (r s : PluginProvider) : Prop where
  beq : (r == s) = true
  builtin : r.builtin = o.isBuiltin ∧ s.builtin = o.isBuiltin
  outputs : r.outputs = [] ∧ s.outputs = []
  plugins : (r.plugins == s.plugins) = true
  apiPlugins : (r.apiPlugins == s.apiPlugins) = true
  same_empty_iff : r.same (.empty o.isBuiltin) = true ↔
    s.plugins.isEmpty = true ∧ s.apiPlugins.isEmpty = true
  new : ∀ t ∈ i.providers, s.same t = false

/-- Either both readings fail, with the same error, or neither does. -/
theorem exists_verdict_compilation (o : Origin) (f : Fields Value) :
    ∃ v, (ofCompilationFields o f).Verdict v ∧
      (ofFields o (f.insert CompiledOutput.listField (.list []))).Verdict v := by
  obtain ⟨v, hv⟩ := exists_verdict_readProcessors f pluginsField
  obtain ⟨u, hu⟩ := exists_verdict_readProcessors f apiPluginsField
  rw [ofFields_insert_nil]
  refine ⟨_, hv.bind fun p => hu.bind fun q => ?_, hv.bind fun p => hu.bind fun q => .lift_fresh _⟩
  split
  · exact .pure _
  · exact .lift_fresh _

/-- Whatever the two readings return, they are counterparts, except that the second record is not
known to be new. -/
theorem alike_of_mayReturn_ofCompilationFields {i : Inventory} (h : i.Sound) (hf : f.Over i)
    {r s : PluginProvider} (hr : (ofCompilationFields o f).MayReturn r)
    (hs : (ofFields o (f.insert CompiledOutput.listField (.list []))).MayReturn s) :
    r.Alike s ∧ s.outputs = [] ∧ s.builtin = o.isBuiltin ∧
      (r.same (.empty o.isBuiltin) = true ↔
        s.plugins.isEmpty = true ∧ s.apiPlugins.isEmpty = true) := by
  rw [ofFields_insert_nil] at hs
  obtain ⟨p, hp, hr⟩ := hr.of_bind
  obtain ⟨q, hq, hr⟩ := hr.of_bind
  obtain ⟨p', hp', hs⟩ := hs.of_bind
  obtain ⟨q', hq', hs⟩ := hs.of_bind
  obtain ⟨supply, rfl⟩ := Attempt.mayReturn_lift_fresh.mp hs
  have hpp := alike_of_mayReturn_readProcessors hp hp'
  have hqq := alike_of_mayReturn_readProcessors hq hq'
  have hiff : (p.isEmpty && q.isEmpty) = true ↔ p'.isEmpty = true ∧ q'.isEmpty = true := by
    rw [Bool.and_eq_true, hpp.isEmpty_eq, hqq.isEmpty_eq]
  split at hr
  · next he =>
    -- The first reading forgets its parts, so those of the second one have to be canonical.
    obtain rfl := Attempt.mayReturn_pure.mp hr
    obtain ⟨hpe, hqe⟩ := hiff.mp he
    obtain rfl := h.eq_empty_of_mayReturn_readProcessors hf hp' hpe
    obtain rfl := h.eq_empty_of_mayReturn_readProcessors hf hq' hqe
    exact ⟨⟨rfl, .refl _, .refl _, rfl⟩, rfl, rfl, iff_of_true (decide_eq_true rfl) ⟨rfl, rfl⟩⟩
  · next hne =>
    obtain ⟨supply', rfl⟩ := Attempt.mayReturn_lift_fresh.mp hr
    exact ⟨⟨rfl, hpp, hqq, rfl⟩, rfl, rfl, iff_of_false Bool.false_ne_true (mt hiff.mpr hne)⟩

end PluginProvider

namespace Inventory

variable {i : Inventory} {f : Fields Value}

/-- **Two readings of a struct.** A struct that was exported by a compilation is read for its
processors, and with an empty list of outputs it is read as a record of the plugin provider. Either
both fail, with the same error, or both results are equal. Only their identities differ: the first
one is canonical if both parts are empty, and the second one is always new. The first reading
depends on the outputs of the struct in no way. -/
theorem compilation_readings (h : i.Reachable) (hf : f.Over i) (o : Origin) (log : Log)
    (supply : Supply) {supply' : Supply} (hs : i.supply.next ≤ supply'.next) :
    Agrees (PluginProvider.Counterparts i o)
      ((PluginProvider.ofCompilation (.generic (.compilation o) f)).outcome log supply).1
      ((PluginProvider.ofInstance (.generic (.plugin o)
        (f.insert CompiledOutput.listField (.list [])))).outcome log supply').1 ∧
    ∀ g : Fields Value,
      (∀ name, name ≠ CompiledOutput.listField → g.get? name = f.get? name) →
        PluginProvider.ofCompilation (.generic (.compilation o) g) =
          PluginProvider.ofCompilation (.generic (.compilation o) f) := by
  refine ⟨?_, fun g hg => ?_⟩
  · rw [PluginProvider.ofCompilation_generic, PluginProvider.ofInstance_generic,
      Attempt.fst_outcome_onFailure, Attempt.fst_outcome_onFailure]
    obtain ⟨v, hv, hv'⟩ := PluginProvider.exists_verdict_compilation o f
    have hagrees := (hv.agrees hv' (fun r s =>
      PluginProvider.alike_of_mayReturn_ofCompilationFields h.sound hf) log supply supply').1
    refine (hagrees.and_right (P := fun s => ∀ t ∈ i.providers, s.same t = false) ?_).imp ?_
    · intro s hout t ht
      -- The second reading may come later, so its inventory is the given one with a later supply.
      have hpass : i.Leads { i with supply := supply' } := leads_pass hs
      have hover := (over_insert_nil hf CompiledOutput.listField).mono hpass.within
      obtain ⟨-, -, n, hid, hn⟩ := (Attempts.issued_ofFields o hover).exists_returns log hout
      exact h.sound.not_same_of_issued ht ⟨n, hid, hs.trans hn⟩
    · rintro r s ⟨⟨halike, houtputs, hbuiltin, hsame⟩, hnew⟩
      exact
        { beq := halike.beq
          builtin := ⟨halike.builtin.trans hbuiltin, hbuiltin⟩
          outputs := ⟨halike.outputs.trans houtputs, houtputs⟩
          plugins := halike.plugins.beq
          apiPlugins := halike.apiPlugins.beq
          same_empty_iff := hsame
          new := hnew }
  · rw [PluginProvider.ofCompilation_generic, PluginProvider.ofCompilation_generic,
      PluginProvider.ofCompilationFields_congr o hg]

/-- The fields of a struct with two empty records of processors, and with outputs that are none. -/
def Sample.emptyParts : Fields Value := .ofList [
  (CompiledOutput.listField, .int 1),
  (PluginProvider.pluginsField, .processors .empty),
  (PluginProvider.apiPluginsField, .processors .empty)]

/-- Read as a compilation, the struct is the canonical record. Read as a record of the plugin
provider, it is an equal one, but not the same. -/
theorem compilation_readings_sample : ∃ r s,
    ((PluginProvider.ofCompilation (.generic (.compilation .builtin) Sample.emptyParts)).outcome []
      {}).1 = .ok r ∧
    ((PluginProvider.ofInstance (.generic (.plugin .builtin)
      (Sample.emptyParts.insert CompiledOutput.listField (.list [])))).outcome [] ⟨3⟩).1 = .ok s ∧
    (r == s) = true ∧ r.same (.empty true) = true ∧ s.same (.empty true) = false := by
  have hi := Sample.reachable_inventory.sound
  have hempty : (Value.processors .empty).Over Sample.inventory := .processors hi.empty_mem
  have hover : Sample.emptyParts.Over Sample.inventory :=
    Fields.ofList_over (List.forall_mem_cons.mpr ⟨.int 1, List.forall_mem_cons.mpr
      ⟨hempty, List.forall_mem_singleton.mpr hempty⟩⟩)
  have hs : Sample.inventory.supply.next ≤ (⟨3⟩ : Supply).next := Nat.le_refl 3
  obtain ⟨hagrees, -⟩ := compilation_readings Sample.reachable_inventory hover .builtin [] {} hs
  have hfirst : ((PluginProvider.ofCompilation (.generic (.compilation .builtin)
      Sample.emptyParts)).outcome [] {}).1 = .ok (.empty true) := rfl
  rw [hfirst] at hagrees ⊢
  generalize Prod.fst (Attempt.outcome _ _ _) = res at hagrees ⊢
  cases hagrees with
  | ok hparts =>
    exact ⟨_, _, rfl, rfl, hparts.beq, rfl, hparts.new _ (hi.empty_mem_providers true)⟩

end Inventory

end PluginClosure
