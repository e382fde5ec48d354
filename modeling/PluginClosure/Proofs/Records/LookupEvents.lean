import PluginClosure.Proofs.Records.ProvidersFormat
import PluginClosure.Proofs.Records.WrittenProviders

/-!
# Events of lookups

A lookup that succeeds without a union notes nothing. A union is noted before it is made, whether it
succeeds or not. If an instance is refused, everyone on the way from the fault to the lookup notes
it, from the inside to the outside, and all with the same error. So the events tell where the fault
is: inside a value that should have been a record of processors, or elsewhere in the instance.

An instance under the key of the bundled rules is not looked at if the other one is refused. The
processors of a compilation are read in the same way, and so are its faults noted.

## Main definitions

* `PluginClosure.Event.told`: what is told of an event.
* `PluginClosure.Rejection.chain`: the events of a lookup that fails.
* `PluginClosure.Target.HoldsSlot`, `PluginClosure.Target.SlotFault`: the format of a slot.

## Main results

* `PluginClosure.Slots.exact_ofTarget`: the reading of the slots is exact.
* `PluginClosure.PluginProvider.outcome_ofTarget_of_fault`,
  `PluginClosure.PluginProvider.outcome_ofTarget_of_free`,
  `PluginClosure.PluginProvider.outcome_ofTarget_of_both`: the three ways in which a lookup ends.
* `PluginClosure.lookup_events`: the events of a lookup, and of the reading of a compilation.
-/

namespace PluginClosure

variable {β γ ε : Type}

/-! ### Attempts that fail -/

/-- After an attempt that fails, it does not matter what would have been next. -/
theorem Attempt.Verdict.bind_congr {x : Attempt ε β} {s : ε × List Event}
    (hx : x.Verdict (some s)) (f g : β → Attempt ε γ) : x >>= f = x >>= g := by
  obtain ⟨y, hy⟩ := hx
  refine ExceptT.ext (StateT.ext fun log => ?_)
  rw [run_bind, run_bind, hy, bind_map_left, bind_map_left]

/-! ### Rejections -/

/-- What is told of an event: its level, its message, and its data. -/
def Event.told (e : Event) : Level × String × List (String × Datum) := (e.level, e.message, e.data)

namespace Rejection

/-- The events of a lookup that fails because of an instance of the kind. -/
def chain (r : Rejection) (label : String) (k : Kind) : List Event :=
  r.events ++ [.rejectedPlugin k r.error] ++ [.lookupFailed label r.error]

/-- What is told of a value that should have been a record of processors, if the fault is inside
one. -/
def toldInside (r : Rejection) : List (Level × String × List (String × Datum)) :=
  (r.inside.map fun v => (.debug, "rejected plugin data",
    [("value", .text v.kind.typeName), ("err", .text r.error.message)])).toList

theorem map_told_events (r : Rejection) : r.events.map Event.told = r.toldInside := by
  rw [events, toldInside]
  cases r.inside <;> rfl

theorem map_told_chain (r : Rejection) (label : String) (k : Kind) :
    (r.chain label k).map Event.told = r.toldInside ++ [
      (.debug, "rejected plugin provider",
        [("provider", .text k.typeName), ("err", .text r.error.message)]),
      (.debug, "plugin provider lookup failed",
        [("label", .text label), ("err", .text r.error.message)])] := by
  rw [chain, List.append_assoc, List.map_append, r.map_told_events]
  rfl

end Rejection

/-! ### Slots -/

namespace Target

/-- The slot is free, or it has an instance with the format of the record. -/
def HoldsSlot (t : Target) (p : Origin) : Option PluginProvider → Prop :=
  Option.Rel InstanceOf.HoldsProvider (t.provider (.plugin p))

theorem HoldsSlot.eq_none {t : Target} {p : Origin} {x : Option PluginProvider}
    (hx : t.HoldsSlot p x) (h : t.provider (.plugin p) = none) : x = none := by
  rw [HoldsSlot, h] at hx
  cases hx
  rfl

theorem HoldsSlot.exists_eq_some {t : Target} {p : Origin} {x : Option PluginProvider}
    {a : Instance} (hx : t.HoldsSlot p x) (h : t.provider (.plugin p) = some a) :
    ∃ r, x = some r ∧ a.HoldsProvider r := by
  rw [HoldsSlot, h] at hx
  cases hx with | some hr => exact ⟨_, rfl, hr⟩

/-- What is at fault with a slot: its instance, for a reason. -/
def SlotFault (t : Target) (p : Origin) (s : Instance × Rejection) : Prop :=
  t.provider (.plugin p) = some s.1 ∧ s.1.ProviderFault s.2

/-- What may be at fault with a target, slot by slot. -/
def slotFaults (t : Target) : List (Instance × Rejection → Prop) :=
  [t.SlotFault .rulesDefined, t.SlotFault .builtin]

end Target

namespace Slots

/-- The error, and what is noted, if an instance is refused. -/
def report (s : Instance × Rejection) : RecordError × List Event :=
  (s.2.error, s.2.events ++ [.rejectedPlugin s.1.kind s.2.error])

theorem exact_read (t : Target) (p : Origin) :
    (read t p).Exact (t.HoldsSlot p) (t.SlotFault p) report := by
  cases h : t.provider (.plugin p) with
  | none =>
    rw [read_of_none h]
    refine .accept ?_ fun s hs => by cases h.symm.trans hs.1
    rw [Target.HoldsSlot, h]
    exact .none
  | some a =>
    rw [read_of_some h]
    have hread := ((PluginProvider.exact_ofInstance a).reword (Prod.mk a) fun r => rfl).seq
      fun r => Attempt.Exact.pure (some r) report
    refine hread.congr (fun x => ?_) ?_ fun s => firstFault_singleton.trans ⟨?_, ?_⟩
    · rintro ⟨r, hr, rfl⟩
      rw [Target.HoldsSlot, h]
      exact .some hr
    · rintro ⟨x, hx⟩
      obtain ⟨r, -, hr⟩ := hx.exists_eq_some h
      exact ⟨_, r, hr, rfl⟩
    · rintro ⟨r, hr, rfl⟩
      exact ⟨h, hr⟩
    · rintro ⟨ha, hr⟩
      obtain rfl : a = s.1 := Option.some.inj (h.symm.trans ha)
      exact ⟨s.2, hr, rfl⟩

/-- The slots are read one after the other. -/
theorem exact_ofTarget (t : Target) :
    (ofTarget t).Exact
      (fun x => t.HoldsSlot .rulesDefined x.current ∧ t.HoldsSlot .builtin x.legacy)
      (FirstFault t.slotFaults) fun s => (s.2.error, s.2.chain t.label s.1.kind) := by
  have hread := (exact_read t .rulesDefined).seq fun current =>
    (exact_read t .builtin).seq fun legacy => Attempt.Exact.pure (⟨current, legacy⟩ : Slots) report
  refine (hread.congr ?_ ?_ fun _ => Iff.rfl).onFailure (.lookupFailed t.label)
  · rintro x ⟨current, hc, legacy, hl, rfl⟩
    exact ⟨hc, hl⟩
  · rintro ⟨x, hc, hl⟩
    exact ⟨x, x.current, hc, x.legacy, hl, rfl⟩

/-- Without two records there is nothing to unite. -/
theorem exists_outcome_union_of_free {x : Slots} (h : x.current = none ∨ x.legacy = none)
    (log : Log) (supply : Supply) : ∃ u, x.union.outcome log supply = (.ok u, log) := by
  obtain ⟨_ | r, _ | s⟩ := x
  · exact ⟨none, rfl⟩
  · exact ⟨some s, rfl⟩
  · exact ⟨some r, rfl⟩
  · rcases h with h | h <;> cases h

end Slots

/-! ### Lookups -/

namespace PluginProvider

variable {t t' : Target}

/-- If the instance in the first slot is refused, it does not matter what the second one has. -/
theorem ofTarget_congr {s : Instance × Rejection} (hs : t.SlotFault .rulesDefined s)
    (hlabel : t'.label = t.label)
    (hcurrent : t'.provider (.plugin .rulesDefined) = t.provider (.plugin .rulesDefined)) :
    ofTarget t' = ofTarget t := by
  have hread : Slots.read t' .rulesDefined = Slots.read t .rulesDefined := by
    rw [Slots.read, Slots.read, hcurrent]
  have hslots : Slots.ofTarget t' = Slots.ofTarget t := by
    rw [Slots.ofTarget, Slots.ofTarget, hlabel, hread]
    -- What is left to compare comes after the reading of the first slot, which fails.
    exact congrArg _ (((Slots.exact_read t .rulesDefined).verdict_of_fault hs).bind_congr _ _)
  rw [ofTarget, ofTarget, hslots]

theorem outcome_ofTarget_of_fault {a : Instance} {r : Rejection}
    (h : FirstFault t.slotFaults (a, r)) (log : Log) (supply : Supply) :
    (ofTarget t).outcome log supply = (.error r.error, log ++ r.chain t.label a.kind) :=
  outcome_ofTarget_of_error (Prod.ext ((Slots.exact_ofTarget t).outcome_of_fault h log supply) rfl)

/-- If no instance is refused, what the lookup comes to is what the slots make. -/
theorem exists_outcome_ofTarget_of_slots (h : ∀ s, ¬ FirstFault t.slotFaults s) (log : Log)
    (supply : Supply) :
    ∃ x : Slots, ∃ supply', t.HoldsSlot .rulesDefined x.current ∧ t.HoldsSlot .builtin x.legacy ∧
      (ofTarget t).outcome log supply =
        ((x.union.outcome log supply').1.mapError .order, (x.union.outcome log supply').2) := by
  obtain ⟨x, hx⟩ := (Slots.exact_ofTarget t).holds_or_fault.resolve_right fun ⟨s, hs⟩ => h s hs
  obtain ⟨y, supply', hrun, hc, hl⟩ := (Slots.exact_ofTarget t).exists_run hx log supply
  exact ⟨y, supply', hc, hl,
    Prod.ext (outcome_ofTarget_of_run hrun) (log_ofTarget_of_run hrun)⟩

theorem outcome_ofTarget_of_free (h : ∀ s, ¬ FirstFault t.slotFaults s)
    (hfree : t.provider (.plugin .rulesDefined) = none ∨ t.provider (.plugin .builtin) = none)
    (log : Log) (supply : Supply) : ∃ u, (ofTarget t).outcome log supply = (.ok u, log) := by
  obtain ⟨x, supply', hc, hl, hout⟩ := exists_outcome_ofTarget_of_slots h log supply
  obtain ⟨u, hu⟩ :=
    Slots.exists_outcome_union_of_free (hfree.imp hc.eq_none hl.eq_none) log supply'
  rw [hu] at hout
  exact ⟨u, hout⟩

theorem outcome_ofTarget_of_both (h : ∀ s, ¬ FirstFault t.slotFaults s) {a b : Instance}
    (ha : t.provider (.plugin .rulesDefined) = some a) (hb : t.provider (.plugin .builtin) = some b)
    (log : Log) (supply : Supply) :
    ∃ r s res, a.HoldsProvider r ∧ b.HoldsProvider s ∧
      ((∃ u, res = .ok u) ∨ ∃ e, res = .error (.order e)) ∧
      (ofTarget t).outcome log supply = (res, log ++ [.unitingIdentities r.builtin s.builtin]) := by
  obtain ⟨⟨current, legacy⟩, supply', hc, hl, hout⟩ := exists_outcome_ofTarget_of_slots h log supply
  obtain ⟨r, rfl, hr⟩ := hc.exists_eq_some ha
  obtain ⟨s, rfl, hs⟩ := hl.exists_eq_some hb
  rw [Slots.outcome_union_both] at hout
  refine ⟨r, s, _, hr, hs, ?_, hout⟩
  cases Inventory.outcome (unionTwo r s) supply' with
  | error e => exact Or.inr ⟨e, rfl⟩
  | ok u => exact Or.inl ⟨some u, rfl⟩

/-- The reading of a compilation that fails notes this at the end, with the same error. -/
theorem log_ofCompilation_of_error {a : Instance} {log : Log} {supply : Supply} {e : RecordError}
    (he : ((ofCompilation a).outcome log supply).1 = .error e) :
    ∃ r, a.CompilationFault r ∧ r.error = e ∧ ∃ events,
      ((ofCompilation a).outcome log supply).2 = log ++ events ∧
        events.map Event.told = r.toldInside ++ [(.debug, "rejected compilation provider",
          [("provider", .text a.key.name), ("err", .text e.message)])] := by
  obtain ⟨r, hr, rfl⟩ := ((exact_ofCompilation a).error_iff log supply e).mp he
  refine ⟨r, hr, rfl, _, congrArg Prod.snd ((exact_ofCompilation a).outcome_of_fault hr log supply),
    ?_⟩
  rw [List.map_append, r.map_told_events]
  rfl

end PluginProvider

/-! ### Events -/

/-- **The events of a lookup.** If a slot is at fault, everyone on the way to the lookup notes it,
with the error that is returned, and nothing else is noted. The second slot is not looked at if the
first one is at fault. If no slot is at fault, the union of two records is noted, whether it
succeeds or not, and without a union nothing is. The reading of a compilation notes its faults in
the same way.

The first event of a failure says that a value is no record of processors. It is there exactly if
the fault is inside such a value, which then has the same error on its own. -/
theorem lookup_events (t : Target) (log : Log) (supply : Supply) :
    let out := (PluginProvider.ofTarget t).outcome log supply
    (∀ a r, FirstFault t.slotFaults (a, r) →
      out = (.error r.error, log ++ r.chain t.label a.kind) ∧
        (r.chain t.label a.kind).map Event.told = r.toldInside ++ [
          (.debug, "rejected plugin provider",
            [("provider", .text a.key.name), ("err", .text r.error.message)]),
          (.debug, "plugin provider lookup failed",
            [("label", .text t.label), ("err", .text r.error.message)])]) ∧
    (∀ s, t.SlotFault .rulesDefined s → ∀ t' : Target, t'.label = t.label →
      t'.provider (.plugin .rulesDefined) = t.provider (.plugin .rulesDefined) →
        PluginProvider.ofTarget t' = PluginProvider.ofTarget t) ∧
    ((∀ s, ¬ FirstFault t.slotFaults s) →
      (t.provider (.plugin .rulesDefined) = none ∨ t.provider (.plugin .builtin) = none →
        (∃ u, out.1 = .ok u) ∧ out.2 = log) ∧
      ∀ a b, t.provider (.plugin .rulesDefined) = some a → t.provider (.plugin .builtin) = some b →
        ∃ r s, a.HoldsProvider r ∧ b.HoldsProvider s ∧
          ((∃ u, out.1 = .ok u) ∨ ∃ e, out.1 = .error (.order e)) ∧
          out.2 = log ++ [.unitingIdentities r.builtin s.builtin] ∧
          (Event.unitingIdentities r.builtin s.builtin).told =
            (.trace, "merging plugin providers of both identities",
              [("current_builtin", .flag r.builtin), ("legacy_builtin", .flag s.builtin)])) ∧
    (∀ a : Instance,
      let out := (PluginProvider.ofCompilation a).outcome log supply
      (∀ r, out.1 = .ok r → out.2 = log) ∧
      ∀ e, out.1 = .error e → ∃ r, a.CompilationFault r ∧ r.error = e ∧
        ∃ events, out.2 = log ++ events ∧ events.map Event.told = r.toldInside ++
          [(.debug, "rejected compilation provider",
            [("provider", .text a.key.name), ("err", .text e.message)])]) ∧
    ∀ a : Instance, ∀ r, a.ProviderFault r ∨ a.CompilationFault r → ∀ v, r.inside = some v →
      ((Processors.ofValue v).outcome log supply).1 = .error r.error := by
  intro out
  refine ⟨fun a r h => ⟨PluginProvider.outcome_ofTarget_of_fault h log supply,
    r.map_told_chain t.label a.kind⟩, fun s hs t' hlabel hcurrent =>
      PluginProvider.ofTarget_congr hs hlabel hcurrent, fun h => ⟨fun hfree => ?_,
    fun a b ha hb => ?_⟩, fun a => ⟨fun r hr => ?_, fun e he => ?_⟩, fun a r h v hv => ?_⟩
  · obtain ⟨u, hu⟩ := PluginProvider.outcome_ofTarget_of_free h hfree log supply
    exact ⟨⟨u, congrArg Prod.fst hu⟩, congrArg Prod.snd hu⟩
  · obtain ⟨r, s, res, hr, hs, hres, hout⟩ :=
      PluginProvider.outcome_ofTarget_of_both h ha hb log supply
    obtain rfl : out.1 = res := congrArg Prod.fst hout
    exact ⟨r, s, hr, hs, hres, congrArg Prod.snd hout, rfl⟩
  · exact (PluginProvider.exact_ofCompilation a).log_of_ok hr
  · exact PluginProvider.log_ofCompilation_of_error he
  · have hfault : v.ProcessorsFault r.error := h.elim (fun h => h.inside hv) fun h => h.inside hv
    exact congrArg Prod.fst ((Processors.exact_ofValue v).outcome_of_fault hfault log supply)

namespace Inventory

namespace Sample

/-- The fields of a struct with a number for its processors. -/
def numberFields : Fields Value := .ofList [
  (CompiledOutput.listField, .list []),
  (PluginProvider.pluginsField, .int 1)]

/-- A target with this struct in one slot, and an instance of another provider in the other. -/
def numberTarget : Target where
  label := "//java:lib"
  provider
    | .plugin .rulesDefined => some (.generic (.plugin .rulesDefined) numberFields)
    | .plugin .builtin => some (.generic (.other "CcInfo") .empty)
    | _ => none

/-- A target with records in both slots, one of which has the other mark than its key. -/
def pairTarget : Target where
  label := "//java:pair"
  provider
    | .plugin _ => some (.native provider)
    | _ => none

end Sample

/-- The number is noted first, and the instance in the other slot not at all. Where both slots have
records, it is noted that these are united. -/
theorem lookup_events_sample :
    (PluginProvider.ofTarget Sample.numberTarget).outcome [] ⟨3⟩ =
      (.error (.wrongRecord .int .processors), [
        .rejectedProcessors .int (.wrongRecord .int .processors),
        .rejectedPlugin PluginProvider.kind (.wrongRecord .int .processors),
        .lookupFailed "//java:lib" (.wrongRecord .int .processors)]) ∧
    ((PluginProvider.ofTarget Sample.pairTarget).outcome [] ⟨3⟩).2 =
      [.unitingIdentities true true] := by
  obtain ⟨hfails, -⟩ := lookup_events Sample.numberTarget [] ⟨3⟩
  obtain ⟨-, -, hunion, -⟩ := lookup_events Sample.pairTarget [] ⟨3⟩
  -- The fault is the first one: the outputs are fine, and the number comes next.
  have houtputs :=
    (PluginProvider.exact_readOutputs Sample.numberFields).not_fault ⟨_, rfl, .list .nil⟩
  have hplugins : Sample.numberFields.PartFault PluginProvider.pluginsField
      ⟨.wrongRecord .int .processors, some (.int 1)⟩ :=
    Or.inr ⟨.int 1, rfl, _, .kind (by rintro _ ⟨⟩) (by rintro _ ⟨⟩), rfl⟩
  have hfirst : FirstFault Sample.numberTarget.slotFaults (_, _) :=
    firstFault_cons.mpr (Or.inl ⟨rfl, .generic (firstFault_cons.mpr
      (Or.inr ⟨houtputs, firstFault_cons.mpr (Or.inl hplugins)⟩))⟩)
  have hslots := (Slots.exact_ofTarget Sample.pairTarget).not_fault
    (b := ⟨some Sample.provider, some Sample.provider⟩) ⟨.some (.native _), .some (.native _)⟩
  refine ⟨(hfails _ _ hfirst).1, ?_⟩
  obtain ⟨r, s, ⟨⟩, ⟨⟩, -, hlog, -⟩ := (hunion hslots).2 _ _ rfl rfl
  exact hlog

end Inventory

end PluginClosure
