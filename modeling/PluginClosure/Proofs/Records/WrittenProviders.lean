import PluginClosure.Proofs.Records.EqualParts
import PluginClosure.Proofs.Records.Lookup
import PluginClosure.Proofs.Records.Refusals
import PluginClosure.Proofs.Records.RoundTrip

/-!
# Records of the plugin provider as structs

A record of the plugin provider is written as a struct that holds its records of processors as they
are, so that it does not matter in which orders their sets are. The struct can always be read. What
is read is a new record with the same contents. A target that exposes the struct instead of the
record is looked up with the same success, with an equal result, and with the same events.

## Main definitions

* `PluginClosure.PluginProvider.CopyOf`: what is read instead of what was written.
* `PluginClosure.Instance.Rewritten`: an instance that is the same, or a record that was written.
* `PluginClosure.Target.Rewritten`: a target that exposes such instances.

## Main results

* `PluginClosure.PluginProvider.alike_of_mayReturn`: whatever an instance is read as, the contents
  are the same.
* `PluginClosure.Inventory.Sound.ofTarget_rewritten`: lookups in targets with written records.
* `PluginClosure.Inventory.written_provider`: records that are written, read, and looked up.
-/

namespace PluginClosure

variable {β γ ε : Type}

/-- What the read record has in common with the record that was written. -/
structure PluginProvider.CopyOf (u r : PluginProvider) : Prop where
  beq : (u == r) = true
  plugins : u.plugins.same r.plugins = true
  apiPlugins : u.apiPlugins.same r.apiPlugins = true

/-! ### Readings of the same instance -/

theorem Processors.alike_create (classes : TransitiveSet String)
    (classpath data : TransitiveSet File) (s₁ s₂ : Supply) :
    ((create classes classpath data).run s₁).1.Alike
      ((create classes classpath data).run s₂).1 := by
  rcases create_spec classes classpath data s₁ with ⟨he, h₁⟩ | ⟨hne, h₁⟩ <;>
    rcases create_spec classes classpath data s₂ with ⟨he', h₂⟩ | ⟨hne', h₂⟩
  · rw [h₁, h₂]
    exact .refl _
  · exact absurd (hne'.symm.trans he) Bool.false_ne_true
  · exact absurd (hne.symm.trans he') Bool.false_ne_true
  · rw [h₁, h₂]
    exact ⟨.refl _, .refl _, .refl _⟩

/-- Whatever a value is read as, the contents are the same. -/
theorem Processors.alike_of_mayReturn {v : Value} {p q : Processors}
    (hp : (ofValue v).MayReturn p) (hq : (ofValue v).MayReturn q) : p.Alike q := by
  rcases mayReturn_ofValue.mp hp with rfl | ⟨f, rfl, hpf⟩
  · rcases mayReturn_ofValue.mp hq with heq | ⟨f, heq, -⟩
    · cases heq
      exact .refl p
    · cases heq
  · rcases mayReturn_ofValue.mp hq with heq | ⟨f', heq, hqf⟩
    · cases heq
    · cases heq
      obtain ⟨classes, classpath, data, s₁, hc, hcp, hd, rfl⟩ := mayReturn_ofFields hpf
      obtain ⟨classes', classpath', data', s₂, hc', hcp', hd', rfl⟩ := mayReturn_ofFields hqf
      cases hc.symm.trans hc'
      cases hcp.symm.trans hcp'
      cases hd.symm.trans hd'
      exact alike_create classes classpath data s₁ s₂

namespace PluginProvider

variable {r s : PluginProvider} {f : Fields Value} {a : Instance}

theorem alike_of_mayReturn_readProcessors {name : String} {p q : Processors}
    (hp : (readProcessors f name).MayReturn p) (hq : (readProcessors f name).MayReturn q) :
    p.Alike q := by
  obtain ⟨v, hv, hp⟩ := mayReturn_readProcessors hp
  obtain ⟨w, hw, hq⟩ := mayReturn_readProcessors hq
  cases hv.symm.trans hw
  exact Processors.alike_of_mayReturn hp hq

theorem readOutputs_of_mayReturn {o : Origin} (h : (ofFields o f).MayReturn r) :
    readOutputs f = .ok r.outputs := by
  obtain ⟨outputs, ho, h⟩ := h.of_bind
  obtain ⟨plugins, -, h⟩ := h.of_bind
  obtain ⟨apiPlugins, -, h⟩ := h.of_bind
  obtain ⟨supply, rfl⟩ := Attempt.mayReturn_lift_fresh.mp h
  exact Attempt.mayReturn_lift_field.mp ho

/-- Whatever an instance is read as, the contents are the same. -/
theorem alike_of_mayReturn (hr : (ofInstance a).MayReturn r) (hs : (ofInstance a).MayReturn s) :
    r.Alike s := by
  rcases mayReturn_ofInstance.mp hr with rfl | ⟨o, f, rfl, hrf⟩
  · rcases mayReturn_ofInstance.mp hs with heq | ⟨o, f, heq, -⟩
    · cases heq
      exact .refl r
    · cases heq
  · rcases mayReturn_ofInstance.mp hs with heq | ⟨o', f', heq, hsf⟩
    · cases heq
    · cases heq
      obtain ⟨hrp, hra, hrb⟩ := mayReturn_ofFields hrf
      obtain ⟨hsp, hsa, hsb⟩ := mayReturn_ofFields hsf
      exact
        { outputs := Except.ok.inj ((readOutputs_of_mayReturn hrf).symm.trans
            (readOutputs_of_mayReturn hsf))
          plugins := alike_of_mayReturn_readProcessors hrp hsp
          apiPlugins := alike_of_mayReturn_readProcessors hra hsa
          builtin := hrb.trans hsb.symm }

end PluginProvider

/-! ### Instances that are rewritten -/

/-- The second instance is the first one, or the first one is a record and was written as the second
one. -/
inductive Instance.Rewritten : Instance → Instance → Prop
  | same (a : Instance) : Rewritten a a
  | written (r : PluginProvider) : Rewritten (.native r) r.toInstance

namespace Instance.Rewritten

variable {a b : Instance} {i : Inventory}

theorem key_eq (h : Rewritten a b) : a.key = b.key := by
  cases h <;> rfl

theorem value_over (h : Rewritten a b) (hi : i.Sound) (ha : (Value.provider a).Over i) :
    (Value.provider b).Over i := by
  cases h with
  | same a => exact ha
  | written r =>
    cases ha with
    | native hr => exact hi.toInstance_over hr

/-- Neither is refused, or both are refused with the same error and the same events. -/
theorem exists_verdict (h : Rewritten a b) :
    ∃ v, (PluginProvider.ofInstance a).Verdict v ∧ (PluginProvider.ofInstance b).Verdict v := by
  cases h with
  | same a =>
    obtain ⟨v, hv⟩ := PluginProvider.exists_verdict_ofInstance a
    exact ⟨v, hv, hv⟩
  | written r =>
    rw [PluginProvider.ofInstance_toInstance]
    exact ⟨none, (Attempt.Verdict.pure r).onFailure _, .lift_fresh _⟩

theorem alike (h : Rewritten a b) {r s : PluginProvider}
    (hr : (PluginProvider.ofInstance a).MayReturn r)
    (hs : (PluginProvider.ofInstance b).MayReturn s) : r.Alike s := by
  cases h with
  | same a => exact PluginProvider.alike_of_mayReturn hr hs
  | written u =>
    rw [PluginProvider.ofInstance_toInstance] at hs
    obtain ⟨supply, rfl⟩ := Attempt.mayReturn_lift_fresh.mp hs
    obtain rfl := Attempt.mayReturn_pure.mp (Attempt.mayReturn_onFailure.mp hr)
    exact ⟨rfl, .refl _, .refl _, rfl⟩

end Instance.Rewritten

/-! ### Targets that are rewritten -/

/-- Attempts with the same verdict fail with the same error, or their results are related if all
that they may return is. The events are the same. -/
theorem Attempt.Verdict.agrees {x : Attempt ε β} {y : Attempt ε γ} {v : Option (ε × List Event)}
    {R : β → γ → Prop} (hx : x.Verdict v) (hy : y.Verdict v)
    (hR : ∀ b c, x.MayReturn b → y.MayReturn c → R b c) (log : Log) (s₁ s₂ : Supply) :
    Agrees R (x.outcome log s₁).1 (y.outcome log s₂).1 ∧
      (x.outcome log s₁).2 = (y.outcome log s₂).2 := by
  cases v with
  | some r =>
    obtain ⟨x', hx⟩ := hx
    obtain ⟨y', hy⟩ := hy
    rw [outcome, outcome, hx, hy]
    exact ⟨.error r.1, rfl⟩
  | none =>
    obtain ⟨x', hx'⟩ := hx
    obtain ⟨y', hy'⟩ := hy
    have hb : x.MayReturn (x'.run s₁).1 := ⟨log, s₁, by rw [outcome, hx']; rfl⟩
    have hc : y.MayReturn (y'.run s₂).1 := ⟨log, s₂, by rw [outcome, hy']; rfl⟩
    rw [outcome, outcome, hx', hy']
    exact ⟨.ok (hR _ _ hb hc), rfl⟩

/-- The targets have the same label. Under each key both have an instance, the second one perhaps
rewritten, or neither has. -/
structure Target.Rewritten (t t' : Target) : Prop where
  label : t.label = t'.label
  provider : ∀ k, Option.Rel Instance.Rewritten (t.provider k) (t'.provider k)

namespace Slots

variable {t t' : Target}

theorem exists_verdict_read_of_rewritten (h : t.Rewritten t') (p : Origin) :
    ∃ v, (read t p).Verdict v ∧ (read t' p).Verdict v := by
  have hrel := h.provider (.plugin p)
  generalize ha : t.provider (.plugin p) = x at hrel
  generalize hb : t'.provider (.plugin p) = y at hrel
  cases hrel with
  | none =>
    rw [read_of_none ha, read_of_none hb]
    exact ⟨none, .pure none, .pure none⟩
  | some hab =>
    rw [read_of_some ha, read_of_some hb]
    obtain ⟨v, hv, hv'⟩ := hab.exists_verdict
    exact ⟨_, hv.bind fun r => .pure (some r), hv'.bind fun r => .pure (some r)⟩

theorem exists_verdict_ofTarget_of_rewritten (h : t.Rewritten t') :
    ∃ v, (ofTarget t).Verdict v ∧ (ofTarget t').Verdict v := by
  obtain ⟨v, hv, hv'⟩ := exists_verdict_read_of_rewritten h .rulesDefined
  obtain ⟨u, hu, hu'⟩ := exists_verdict_read_of_rewritten h .builtin
  refine ⟨_, (hv.bind fun _ => hu.bind fun _ => .pure _).onFailure _, ?_⟩
  rw [h.label]
  exact (hv'.bind fun _ => hu'.bind fun _ => .pure _).onFailure _

theorem alike_of_mayReturn_read (h : t.Rewritten t') {p : Origin} {x y : Option PluginProvider}
    (hx : (read t p).MayReturn x) (hy : (read t' p).MayReturn y) :
    Option.Rel PluginProvider.Alike x y := by
  have hrel := h.provider (.plugin p)
  generalize ha : t.provider (.plugin p) = a at hrel
  generalize hb : t'.provider (.plugin p) = b at hrel
  cases hrel with
  | none =>
    rw [read_of_none ha] at hx
    rw [read_of_none hb] at hy
    cases Attempt.mayReturn_pure.mp hx
    cases Attempt.mayReturn_pure.mp hy
    exact .none
  | some hab =>
    rw [read_of_some ha] at hx
    rw [read_of_some hb] at hy
    obtain ⟨r, hr, hx⟩ := hx.of_bind
    obtain ⟨s, hs, hy⟩ := hy.of_bind
    cases Attempt.mayReturn_pure.mp hx
    cases Attempt.mayReturn_pure.mp hy
    exact .some (hab.alike hr hs)

theorem related_of_mayReturn_ofTarget (h : t.Rewritten t') {x y : Slots}
    (hx : (ofTarget t).MayReturn x) (hy : (ofTarget t').MayReturn y) :
    x.Related PluginProvider.Alike y := by
  obtain ⟨c, hc, hx⟩ := (Attempt.mayReturn_onFailure.mp hx).of_bind
  obtain ⟨l, hl, hx⟩ := hx.of_bind
  obtain ⟨c', hc', hy⟩ := (Attempt.mayReturn_onFailure.mp hy).of_bind
  obtain ⟨l', hl', hy⟩ := hy.of_bind
  cases Attempt.mayReturn_pure.mp hx
  cases Attempt.mayReturn_pure.mp hy
  exact ⟨alike_of_mayReturn_read h hc hc', alike_of_mayReturn_read h hl hl'⟩

end Slots

theorem Agrees.mapError {δ : Type} {R : β → γ → Prop} {x : Except ε β} {y : Except ε γ}
    (h : Agrees R x y) (f : ε → δ) : Agrees R (x.mapError f) (y.mapError f) := by
  cases h with
  | error e => exact .error (f e)
  | ok h => exact .ok h

namespace PluginProvider

variable {t : Target} {log log' : Log} {supply supply' : Supply}

theorem outcome_ofTarget_of_error {e : RecordError}
    (h : ((Slots.ofTarget t).run.run log).run supply = ((.error e, log'), supply')) :
    (ofTarget t).outcome log supply = (.error e, log') := by
  rw [ofTarget, Attempt.outcome, Attempt.run_bind, StateT.run_bind, h]
  rfl

theorem log_ofTarget_of_run {x : Slots}
    (h : ((Slots.ofTarget t).run.run log).run supply = ((.ok x, log'), supply')) :
    ((ofTarget t).outcome log supply).2 = (x.union.outcome log' supply').2 := by
  rw [ofTarget, Attempt.outcome, Attempt.run_bind_of_run h, Attempt.run_mapError]
  rfl

end PluginProvider

namespace Inventory

variable {i : Inventory} {t t' : Target}

/-- A lookup does not tell a record from the struct that it is written as. -/
theorem Sound.ofTarget_rewritten (hi : i.Sound) (ht : t.Over i) (h : t.Rewritten t') (log : Log)
    {s₁ s₂ : Supply} (h₁ : i.supply.next ≤ s₁.next) (h₂ : i.supply.next ≤ s₂.next) :
    Agrees (Option.Rel PluginProvider.Alike) ((PluginProvider.ofTarget t).outcome log s₁).1
        ((PluginProvider.ofTarget t').outcome log s₂).1 ∧
      ((PluginProvider.ofTarget t).outcome log s₁).2 =
        ((PluginProvider.ofTarget t').outcome log s₂).2 := by
  have ht' : t'.Over i := by
    intro k b hb
    have hrel := h.provider k
    rw [hb] at hrel
    generalize ha : t.provider k = a at hrel
    cases hrel with
    | some hab => exact hab.value_over hi (ht k _ ha)
  -- The slots are read in two histories that part here.
  have hpass₁ : i.Leads { i with supply := s₁ } := leads_pass h₁
  have hpass₂ : i.Leads { i with supply := s₂ } := leads_pass h₂
  obtain ⟨⟨x, log₁⟩, j₁, hrun₁, hj₁, hx⟩ :=
    Attempts.slotsOfTarget (fun k a ha => (ht k a ha).mono hpass₁.within) log
  obtain ⟨⟨y, log₂⟩, j₂, hrun₂, hj₂, hy⟩ :=
    Attempts.slotsOfTarget (fun k a ha => (ht' k a ha).mono hpass₂.within) log
  obtain ⟨v, hv, hv'⟩ := Slots.exists_verdict_ofTarget_of_rewritten h
  have hslots := hv.agrees hv' (fun _ _ => Slots.related_of_mayReturn_ofTarget h) log s₁ s₂
  rw [Attempt.outcome, Attempt.outcome, hrun₁, hrun₂] at hslots
  obtain ⟨hagrees, rfl⟩ := hslots
  cases hagrees with
  | error e =>
    rw [PluginProvider.outcome_ofTarget_of_error hrun₁,
      PluginProvider.outcome_ofTarget_of_error hrun₂]
    exact ⟨.error e, rfl⟩
  | ok hxy =>
    rw [PluginProvider.outcome_ofTarget_of_run hrun₁, PluginProvider.log_ofTarget_of_run hrun₁,
      PluginProvider.outcome_ofTarget_of_run hrun₂, PluginProvider.log_ofTarget_of_run hrun₂]
    obtain ⟨hres, hlog⟩ := ((hpass₁.trans hj₁).sound hi).slots_union_congr
      ((hpass₂.trans hj₂).sound hi) (hx _ rfl) (hy _ rfl) hxy log₁ (Nat.le_refl _) (Nat.le_refl _)
    exact ⟨hres.mapError _, hlog⟩

end Inventory

/-! ### What was filed -/

namespace Exports

variable {a b : Instance} {k : ProviderKey}

theorem lastUnder_append_cons (k : ProviderKey) (l l' : List Instance) (a : Instance) :
    lastUnder k (l ++ a :: l') =
      (lastUnder k l').or (if a.key = k then some a else lastUnder k l) := by
  rw [lastUnder, List.reverse_append, List.reverse_cons, List.find?_append, List.find?_append,
    List.find?_singleton, lastUnder, lastUnder, Option.or_assoc]
  by_cases h : a.key = k <;> simp [h]

theorem label_ofList (label : String) (l : List Instance) : (ofList label l).label = label := by
  induction l using List.reverseRecOn with
  | nil => rfl
  | append_singleton l a ih =>
    rw [ofList, List.foldl_append]
    exact ih

/-- Wherever in a sequence an instance is rewritten, the target is the same otherwise. -/
theorem rewritten_toTarget (h : Instance.Rewritten a b) (label : String) (l l' : List Instance) :
    (ofList label (l ++ a :: l')).toTarget.Rewritten (ofList label (l ++ b :: l')).toTarget := by
  refine ⟨(label_ofList label _).trans (label_ofList label _).symm, fun k => ?_⟩
  have hrefl (x : Option Instance) : Option.Rel Instance.Rewritten x x := by
    cases x with
    | none => exact .none
    | some c => exact .some (.same c)
  show Option.Rel _ (ofList label (l ++ a :: l')).providers[k]?
    (ofList label (l ++ b :: l')).providers[k]?
  rw [getElem?_ofList, getElem?_ofList, lastUnder_append_cons, lastUnder_append_cons, ← h.key_eq]
  cases lastUnder k l' with
  | some c => exact .some (.same c)
  | none =>
    rw [Option.none_or, Option.none_or]
    split
    · exact .some h
    · exact hrefl _

end Exports

namespace Inventory

variable {i : Inventory}

/-- **Records that are written, read, and looked up.** The record may have sets in any order, and
processors for API that are not among its processors. It may have been filed anywhere in a sequence
of instances, which may be refused for other reasons. The lookups start with any supplies that issue
numbers not yet in use. -/
theorem written_provider (h : i.Reachable) {r : PluginProvider} (hr : r ∈ i.providers) (log : Log)
    {supply : Supply} (hs : i.supply.next ≤ supply.next) :
    (∃ u supply',
      ((PluginProvider.ofInstance r.toInstance).run.run log).run supply = ((.ok u, log), supply') ∧
        u.CopyOf r ∧ ∀ s ∈ i.providers, u.same s = false) ∧
    (∃ f v, r.toInstance = .generic r.key f ∧ f.get? CompiledOutput.listField = some v ∧
      CompiledOutput.listOfValue v = .ok r.outputs) ∧
    r.toInstance.key = r.key ∧
    ∀ label l l', (∀ a ∈ l ++ l', (Value.provider a).Over i) →
      ∀ supply', i.supply.next ≤ supply'.next →
        let native := (PluginProvider.ofTarget
          (Exports.ofList label (l ++ .native r :: l')).toTarget).outcome log supply
        let written := (PluginProvider.ofTarget
          (Exports.ofList label (l ++ r.toInstance :: l')).toTarget).outcome log supply'
        Agrees (Option.Rel fun u v => (u == v) = true) native.1 written.1 ∧
          native.2 = written.2 := by
  refine ⟨?_, ?_, rfl, ?_⟩
  · rw [PluginProvider.ofInstance_toInstance]
    refine ⟨⟨.issued ⟨supply.next⟩, r.outputs, r.plugins, r.apiPlugins, r.builtin⟩, _, rfl, ?_, ?_⟩
    · exact ⟨PluginProvider.Alike.beq ⟨rfl, .refl _, .refl _, rfl⟩, decide_eq_true rfl,
        decide_eq_true rfl⟩
    · intro s hsi
      rw [PluginProvider.same, decide_eq_false_iff_not]
      intro hid
      exact absurd (h.sound.providers.lt_next s hsi _ hid.symm) (Nat.not_lt.mpr hs)
  · exact ⟨r.toFields, _, r.toInstance_eq, r.get?_outputs_toFields,
      CompiledOutput.listOfValue_map_toValue r.outputs⟩
  · intro label l l' hl supply' hs' native written
    have hover : (Exports.ofList label (l ++ .native r :: l')).toTarget.Over i := by
      intro k a ha
      have hmem := (Exports.lastUnder_eq_some ((Exports.getElem?_ofList label _ k).symm.trans ha)).1
      rcases List.mem_append.mp hmem with hmem | hmem
      · exact hl a (List.mem_append_left _ hmem)
      · rcases List.mem_cons.mp hmem with rfl | hmem
        · exact .native hr
        · exact hl a (List.mem_append_right _ hmem)
    obtain ⟨hres, hlog⟩ := h.sound.ofTarget_rewritten hover
      (Exports.rewritten_toTarget (.written r) label l l') log hs hs'
    refine ⟨hres.imp fun x y hxy => ?_, hlog⟩
    cases hxy with
    | none => exact .none
    | some halike => exact .some halike.beq

/-! A record with an output, and with a set in another order. -/

namespace Sample

/-- An output without an interface, with a source that is listed twice. -/
def compiledOutput : CompiledOutput := ⟨⟨"lib.jar"⟩, none, [⟨"A.java"⟩, ⟨"A.java"⟩]⟩

/-- A record with this output, one of whose sets is in another order. -/
def compiledProvider : PluginProvider :=
  ⟨.issued ⟨5⟩, [compiledOutput], foreignProcessors, processors, false⟩

/-- The inventory with this record. -/
def compiledInventory : Inventory :=
  { foreignInventory with
    supply := ⟨6⟩
    providers := compiledProvider :: foreignInventory.providers }

theorem reachable_compiledInventory : compiledInventory.Reachable :=
  reachable_foreignInventory.tail (.provider [compiledOutput] List.mem_cons_self
    (List.mem_cons_of_mem _ List.mem_cons_self) false)

end Sample

/-- The record is read again, and beside another record it does not matter in which form it was
filed. -/
theorem written_provider_sample :
    (∃ u supply', ((PluginProvider.ofInstance Sample.compiledProvider.toInstance).run.run []).run
        ⟨6⟩ = ((.ok u, []), supply') ∧
      u.CopyOf Sample.compiledProvider ∧ u.same Sample.compiledProvider = false) ∧
    Agrees (Option.Rel fun u v => (u == v) = true)
      ((PluginProvider.ofTarget (Exports.ofList "//java:lib"
        [.native Sample.provider, .native Sample.compiledProvider]).toTarget).outcome [] ⟨6⟩).1
      ((PluginProvider.ofTarget (Exports.ofList "//java:lib"
        [.native Sample.provider, Sample.compiledProvider.toInstance]).toTarget).outcome [] ⟨9⟩).1
    := by
  have hmem : Sample.compiledProvider ∈ Sample.compiledInventory.providers := List.mem_cons_self
  have hprovider : Sample.provider ∈ Sample.compiledInventory.providers :=
    List.mem_cons_of_mem _ (List.mem_cons_of_mem _ List.mem_cons_self)
  have hs : Sample.compiledInventory.supply.next ≤ (⟨6⟩ : Supply).next := Nat.le_refl 6
  obtain ⟨⟨u, supply', hrun, hcopy, hnew⟩, -, -, hlookup⟩ :=
    written_provider Sample.reachable_compiledInventory hmem [] hs
  refine ⟨⟨u, supply', hrun, hcopy, hnew _ hmem⟩, ?_⟩
  exact (hlookup "//java:lib" [.native Sample.provider] []
    (List.forall_mem_singleton.mpr (.native hprovider)) ⟨9⟩ (by decide)).1

end Inventory

end PluginClosure
