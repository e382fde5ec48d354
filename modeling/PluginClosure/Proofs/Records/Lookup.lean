import Mathlib.Data.List.Induction
import PluginClosure.Proofs.Records.Operations
import PluginClosure.Proofs.Records.UnionContents
import PluginClosure.Proofs.Records.Verdicts

/-!
# Looking up what was filed

A target is put together by filing instances, each under its own key, and the last one under a key
is the one that counts. A lookup reads the instances under the two keys of the plugin provider, so
that each of them has the mark that goes with its key, and cannot be refused for being an instance
of another provider. If the current instance is refused, the lookup fails for that reason, whether
or not the legacy one would be refused too. Two records are united, unless one of them is empty.

## Main definitions

* `PluginClosure.Exports.lastUnder`: the instance that was filed last under a key.
* `PluginClosure.Slots.Rejects`: the error that a slot is refused with.
* `PluginClosure.PluginProvider.FoundIn`: what a lookup comes to, by the contents of the two slots.

## Main results

* `PluginClosure.Exports.getElem?_ofList`: what is filed under a key.
* `PluginClosure.Slots.builtin_of_mayReturn`, `PluginClosure.Slots.within_of_mayFail`: the marks of
  the records, and the errors.
* `PluginClosure.Slots.outcome_ofTarget_current`, `PluginClosure.Slots.outcome_ofTarget_legacy`:
  slots that are refused.
* `PluginClosure.PluginProvider.exists_outcome_ofTarget`: slots that are both taken.
* `PluginClosure.Inventory.Sound.foundIn`: lookups in any target.
* `PluginClosure.Inventory.provider_lookup`: lookups in targets that were put together in any way.
-/

namespace PluginClosure

/-! ### Filing -/

namespace Exports

/-- The last instance of a list with the key. -/
def lastUnder (k : ProviderKey) (l : List Instance) : Option Instance :=
  l.reverse.find? fun a => a.key = k

theorem lastUnder_concat (k : ProviderKey) (l : List Instance) (a : Instance) :
    lastUnder k (l ++ [a]) = if a.key = k then some a else lastUnder k l := by
  rw [lastUnder, List.reverse_append, List.reverse_singleton, List.singleton_append, List.find?_cons]
  by_cases h : a.key = k
  · simp [h]
  · simp [h, lastUnder]

theorem lastUnder_eq_some {k : ProviderKey} {l : List Instance} {a : Instance}
    (h : lastUnder k l = some a) : a ∈ l ∧ a.key = k := by
  rw [lastUnder] at h
  have hk := List.find?_some h
  exact ⟨List.mem_reverse.mp (List.mem_of_find?_eq_some h), of_decide_eq_true hk⟩

/-- Under every key there is the instance that was filed last. -/
theorem getElem?_ofList (label : String) (l : List Instance) (k : ProviderKey) :
    (ofList label l).providers[k]? = lastUnder k l := by
  induction l using List.reverseRecOn with
  | nil => exact Std.HashMap.getElem?_empty
  | append_singleton l a ih =>
    have hinsert : (ofList label (l ++ [a])).providers =
        (ofList label l).providers.insert a.key a := by
      rw [ofList, List.foldl_append]
      rfl
    rw [hinsert, Std.HashMap.getElem?_insert, ih, lastUnder_concat]
    simp only [beq_iff_eq]

end Exports

/-! ### Slots -/

namespace Slots

/-- There is an instance in the slot, and it is refused with the error. -/
def Rejects (a : Option Instance) (e : RecordError) : Prop :=
  ∃ b ∈ a, (PluginProvider.ofInstance b).MayFail e

variable {t : Target} {p : Origin} {a : Instance} {e : RecordError} {log log' : Log}
  {supply supply' : Supply}

theorem read_of_none (h : t.provider (.plugin p) = none) : read t p = pure none := by
  rw [read, h]

theorem read_of_some (h : t.provider (.plugin p) = some a) :
    read t p = (do return some (← PluginProvider.ofInstance a)) := by
  rw [read, h]

theorem mayFail_read : (read t p).MayFail e ↔ Rejects (t.provider (.plugin p)) e := by
  cases h : t.provider (.plugin p) with
  | none =>
    rw [read_of_none h]
    exact iff_of_false Attempt.not_mayFail_pure fun ⟨_, hb, _⟩ => by cases hb
  | some a =>
    rw [read_of_some h]
    constructor
    · intro hf
      obtain hf | ⟨r, -, hf⟩ := hf.of_bind
      · exact ⟨a, rfl, hf⟩
      · exact absurd hf Attempt.not_mayFail_pure
    · rintro ⟨_, ⟨⟩, log, supply, hf⟩
      exact ⟨log, supply, Attempt.outcome_bind_of_error hf⟩

theorem mayReturn_read {x : Option PluginProvider} (h : (read t p).MayReturn x) :
    ∀ r ∈ x, ∃ a ∈ t.provider (.plugin p), (PluginProvider.ofInstance a).MayReturn r := by
  cases ht : t.provider (.plugin p) with
  | none =>
    rw [read_of_none ht] at h
    obtain rfl := Attempt.mayReturn_pure.mp h
    rintro r ⟨⟩
  | some a =>
    rw [read_of_some ht] at h
    obtain ⟨s, hs, h⟩ := h.of_bind
    obtain rfl := Attempt.mayReturn_pure.mp h
    rintro r ⟨⟩
    exact ⟨a, rfl, hs⟩

theorem exists_verdict_read (t : Target) (p : Origin) : ∃ v, (read t p).Verdict v := by
  cases h : t.provider (.plugin p) with
  | none =>
    rw [read_of_none h]
    exact ⟨_, .pure none⟩
  | some a =>
    rw [read_of_some h]
    obtain ⟨v, hv⟩ := PluginProvider.exists_verdict_ofInstance a
    exact ⟨_, hv.bind fun r => .pure (some r)⟩

theorem run_read_of_none (h : t.provider (.plugin p) = none) :
    ((read t p).run.run log).run supply = ((.ok none, log), supply) := by
  rw [read_of_none h]
  rfl

theorem run_read_of_run {r : PluginProvider} (h : t.provider (.plugin p) = some a)
    (hr : ((PluginProvider.ofInstance a).run.run log).run supply = ((.ok r, log'), supply')) :
    ((read t p).run.run log).run supply = ((.ok (some r), log'), supply') := by
  rw [read_of_some h, Attempt.run_bind_of_run hr]
  rfl

/-- The slots are read one after the other. -/
theorem run_ofTarget {current legacy : Option PluginProvider} {log'' : Log} {supply'' : Supply}
    (hc : ((read t .rulesDefined).run.run log).run supply = ((.ok current, log'), supply'))
    (hl : ((read t .builtin).run.run log').run supply' = ((.ok legacy, log''), supply'')) :
    ((ofTarget t).run.run log).run supply = ((.ok ⟨current, legacy⟩, log''), supply'') := by
  refine Attempt.run_onFailure_of_run _ ?_
  rw [Attempt.run_bind_of_run hc, Attempt.run_bind_of_run hl]
  rfl

theorem exists_verdict_ofTarget (t : Target) : ∃ v, (ofTarget t).Verdict v := by
  obtain ⟨v, hv⟩ := exists_verdict_read t .rulesDefined
  obtain ⟨u, hu⟩ := exists_verdict_read t .builtin
  exact ⟨_, (hv.bind fun _ => hu.bind fun _ => .pure _).onFailure _⟩

/-- The current instance is refused first. -/
theorem outcome_ofTarget_current (h : Rejects (t.provider (.plugin .rulesDefined)) e) (log : Log)
    (supply : Supply) : ((ofTarget t).outcome log supply).1 = .error e := by
  obtain ⟨v, hv⟩ := exists_verdict_ofTarget t
  refine hv.outcome_of_mayFail (Attempt.mayFail_onFailure.mpr ?_) log supply
  obtain ⟨log, supply, hf⟩ := mayFail_read.mpr h
  exact ⟨log, supply, Attempt.outcome_bind_of_error hf⟩

/-- If it is not, the legacy instance is refused. -/
theorem outcome_ofTarget_legacy (hc : ∀ e, ¬ Rejects (t.provider (.plugin .rulesDefined)) e)
    (h : Rejects (t.provider (.plugin .builtin)) e) (log : Log) (supply : Supply) :
    ((ofTarget t).outcome log supply).1 = .error e := by
  obtain ⟨v, hv⟩ := exists_verdict_ofTarget t
  obtain ⟨w, hw⟩ := exists_verdict_read t .rulesDefined
  obtain ⟨u, hu⟩ := exists_verdict_read t .builtin
  refine hv.outcome_of_mayFail (Attempt.mayFail_onFailure.mpr ⟨log, supply, ?_⟩) log supply
  obtain ⟨x, supply', hx⟩ := hw.exists_run (fun e he => hc e (mayFail_read.mp he)) log supply
  rw [Attempt.outcome, Attempt.run_bind_of_run hx]
  exact Attempt.outcome_bind_of_error (hu.outcome_of_mayFail (mayFail_read.mpr h) log supply')

end Slots

/-! ### Marks and errors -/

/-- A record that is read from an instance under a key of the plugin provider has the mark that goes
with the key. -/
theorem PluginProvider.builtin_of_mayReturn {a : Instance} {p : Origin} {r : PluginProvider}
    (hk : a.key = .plugin p) (h : (ofInstance a).MayReturn r) : r.builtin = p.isBuiltin := by
  rcases mayReturn_ofInstance.mp h with rfl | ⟨o, f, rfl, hf⟩
  · have ho : Origin.ofBuiltin r.builtin = p := ProviderKey.plugin.inj hk
    rw [← ho, Origin.isBuiltin_ofBuiltin]
  · obtain rfl : o = p := ProviderKey.plugin.inj hk
    exact (mayReturn_ofFields hf).builtin

namespace Slots

variable {t : Target}

/-- The records of a target have the marks that go with their keys. -/
theorem builtin_of_mayReturn (ht : ∀ k a, t.provider k = some a → a.key = k) {x : Slots}
    (h : (ofTarget t).MayReturn x) :
    (∀ r ∈ x.current, r.builtin = false) ∧ ∀ r ∈ x.legacy, r.builtin = true := by
  obtain ⟨current, hc, h⟩ := (Attempt.mayReturn_onFailure.mp h).of_bind
  obtain ⟨legacy, hl, h⟩ := h.of_bind
  obtain rfl := Attempt.mayReturn_pure.mp h
  constructor
  · intro r hr
    obtain ⟨a, ha, hret⟩ := mayReturn_read hc r hr
    exact PluginProvider.builtin_of_mayReturn (ht _ a ha) hret
  · intro r hr
    obtain ⟨a, ha, hret⟩ := mayReturn_read hl r hr
    exact PluginProvider.builtin_of_mayReturn (ht _ a ha) hret

/-- The slots of a target are refused only for what the instances hold. -/
theorem within_of_mayFail (ht : ∀ k a, t.provider k = some a → a.key = k) {e : RecordError}
    (h : (ofTarget t).MayFail e) : e.Within := by
  have hread (p : Origin) (h : (read t p).MayFail e) : e.Within := by
    obtain ⟨a, ha, hf⟩ := mayFail_read.mp h
    exact PluginProvider.within_of_mayFail_ofInstance (ht _ a ha) hf
  obtain h | ⟨current, -, h⟩ := (Attempt.mayFail_onFailure.mp h).of_bind
  · exact hread _ h
  obtain h | ⟨legacy, -, h⟩ := h.of_bind
  · exact hread _ h
  · exact absurd h Attempt.not_mayFail_pure

end Slots

/-! ### Lookups -/

namespace PluginProvider

/-- What a lookup comes to, by the instances in the two slots. -/
structure FoundIn (current legacy : Option Instance) (log : Log) (supply : Supply)
    (res : Except RecordError (Option PluginProvider)) : Prop where
  current_rejected : ∀ e, Slots.Rejects current e → res = .error e
  legacy_rejected : (∀ e, ¬ Slots.Rejects current e) →
    ∀ e, Slots.Rejects legacy e → res = .error e
  eq_none_iff : res = .ok none ↔ current = none ∧ legacy = none
  current_only : ∀ a, current = some a → legacy = none →
    res = ((ofInstance a).outcome log supply).1.map some
  legacy_only : ∀ a, current = none → legacy = some a →
    res = ((ofInstance a).outcome log supply).1.map some
  /-- The two instances are read one after the other. If one of the records is empty, the other one
  is given back. -/
  both : ∀ a b, current = some a → legacy = some b → (∀ e, ¬ Slots.Rejects current e) →
    (∀ e, ¬ Slots.Rejects legacy e) → ∃ r s supply',
      ((ofInstance a).run.run log).run supply = ((.ok r, log), supply') ∧
      ((ofInstance b).outcome log supply').1 = .ok s ∧
      (r.isEmpty = true → res = .ok (some s)) ∧
      (r.isEmpty = false → s.isEmpty = true → res = .ok (some r)) ∧
      (r.isEmpty = false → s.isEmpty = false →
        (∀ t ∈ [r, s], t.plugins.InOrder ∧ t.apiPlugins.InOrder) → ∃ u, res = .ok (some u) ∧
          u.builtin = false ∧ u.outputs = [] ∧ u.plugins.Gathers [r.plugins, s.plugins] ∧
          u.apiPlugins.Gathers [r.apiPlugins, s.apiPlugins])

end PluginProvider

namespace PluginProvider

variable {t : Target} {a b : Instance} {e : RecordError} {log log' : Log} {supply supply' : Supply}

theorem outcome_ofTarget_of_run {x : Slots}
    (h : ((Slots.ofTarget t).run.run log).run supply = ((.ok x, log'), supply')) :
    ((ofTarget t).outcome log supply).1 = (x.union.outcome log' supply').1.mapError .order := by
  rw [ofTarget, Attempt.outcome, Attempt.run_bind_of_run h]
  rfl

theorem outcome_ofTarget_of_none (hc : t.provider (.plugin .rulesDefined) = none)
    (hl : t.provider (.plugin .builtin) = none) :
    ((ofTarget t).outcome log supply).1 = .ok none :=
  outcome_ofTarget_of_run (Slots.run_ofTarget (Slots.run_read_of_none hc)
    (Slots.run_read_of_none hl))

theorem outcome_ofTarget_of_current (hc : t.provider (.plugin .rulesDefined) = some a)
    (hl : t.provider (.plugin .builtin) = none) :
    ((ofTarget t).outcome log supply).1 = ((ofInstance a).outcome log supply).1.map some := by
  rw [Attempt.outcome.eq_def (ofInstance a)]
  rcases hr : ((ofInstance a).run.run log).run supply with ⟨⟨e | r, log'⟩, supply'⟩
  · have he : (ofInstance a).MayFail e := ⟨log, supply, by rw [Attempt.outcome, hr]⟩
    exact Attempt.outcome_bind_of_error (Slots.outcome_ofTarget_current ⟨a, hc, he⟩ log supply)
  · exact outcome_ofTarget_of_run (Slots.run_ofTarget (Slots.run_read_of_run hc hr)
      (Slots.run_read_of_none hl))

theorem outcome_ofTarget_of_legacy (hc : t.provider (.plugin .rulesDefined) = none)
    (hl : t.provider (.plugin .builtin) = some a) :
    ((ofTarget t).outcome log supply).1 = ((ofInstance a).outcome log supply).1.map some := by
  rw [Attempt.outcome.eq_def (ofInstance a)]
  rcases hr : ((ofInstance a).run.run log).run supply with ⟨⟨e | r, log'⟩, supply'⟩
  · have he : (ofInstance a).MayFail e := ⟨log, supply, by rw [Attempt.outcome, hr]⟩
    refine Attempt.outcome_bind_of_error (Slots.outcome_ofTarget_legacy ?_ ⟨a, hl, he⟩ log supply)
    rintro _ ⟨_, hb, -⟩
    rw [hc] at hb
    cases hb
  · exact outcome_ofTarget_of_run (Slots.run_ofTarget (Slots.run_read_of_none hc)
      (Slots.run_read_of_run hl hr))

/-- Two instances are read one after the other, and the records are united. -/
theorem exists_outcome_ofTarget (hc : t.provider (.plugin .rulesDefined) = some a)
    (hl : t.provider (.plugin .builtin) = some b) (ha : ∀ e, ¬ (ofInstance a).MayFail e)
    (hb : ∀ e, ¬ (ofInstance b).MayFail e) (log : Log) (supply : Supply) :
    ∃ r s supply' supply'', ((ofInstance a).run.run log).run supply = ((.ok r, log), supply') ∧
      ((ofInstance b).run.run log).run supply' = ((.ok s, log), supply'') ∧
      ((Slots.ofTarget t).run.run log).run supply = ((.ok ⟨some r, some s⟩, log), supply'') ∧
      ((ofTarget t).outcome log supply).1 =
        ((Inventory.outcome (unionTwo r s) supply'').map some).mapError .order := by
  obtain ⟨v, hv⟩ := exists_verdict_ofInstance a
  obtain ⟨u, hu⟩ := exists_verdict_ofInstance b
  obtain ⟨r, supply', hr⟩ := hv.exists_run ha log supply
  obtain ⟨s, supply'', hs⟩ := hu.exists_run hb log supply'
  have hrun := Slots.run_ofTarget (Slots.run_read_of_run hc hr) (Slots.run_read_of_run hl hs)
  refine ⟨r, s, supply', supply'', hr, hs, hrun, ?_⟩
  rw [outcome_ofTarget_of_run hrun, Slots.outcome_union_both]

/-- There is no record only if there is no instance. -/
theorem outcome_ofTarget_eq_none_iff : ((ofTarget t).outcome log supply).1 = .ok none ↔
    t.provider (.plugin .rulesDefined) = none ∧ t.provider (.plugin .builtin) = none := by
  have hsome {ε : Type} (x : Except ε PluginProvider) : x.map some ≠ .ok none := by
    cases x <;> simp [Except.map]
  refine ⟨fun h => ?_, fun ⟨hc, hl⟩ => outcome_ofTarget_of_none hc hl⟩
  have haccepted (e : RecordError)
      (he : ((Slots.ofTarget t).outcome log supply).1 = .error e) : False := by
    rw [ofTarget, Attempt.outcome_bind_of_error he] at h
    cases h
  cases hc : t.provider (.plugin .rulesDefined) with
  | none =>
    cases hl : t.provider (.plugin .builtin) with
    | none => exact ⟨rfl, rfl⟩
    | some b =>
      rw [outcome_ofTarget_of_legacy hc hl] at h
      exact absurd h (hsome _)
  | some a =>
    cases hl : t.provider (.plugin .builtin) with
    | none =>
      rw [outcome_ofTarget_of_current hc hl] at h
      exact absurd h (hsome _)
    | some b =>
      have ha (e : RecordError) (he : Slots.Rejects (t.provider (.plugin .rulesDefined)) e) :
          False := haccepted e (Slots.outcome_ofTarget_current he log supply)
      have hb (e : RecordError) (he : Slots.Rejects (t.provider (.plugin .builtin)) e) : False :=
        haccepted e (Slots.outcome_ofTarget_legacy ha he log supply)
      obtain ⟨r, s, -, supply'', -, -, -, hres⟩ := exists_outcome_ofTarget hc hl
        (fun e he => ha e ⟨a, hc, he⟩) (fun e he => hb e ⟨b, hl, he⟩) log supply
      rw [hres] at h
      cases hu : Inventory.outcome (unionTwo r s) supply'' <;> rw [hu] at h <;> cases h

end PluginProvider

namespace Inventory

variable {i : Inventory} {t : Target}

/-- Two records that are not empty are united. -/
theorem Sound.outcome_unionTwo_inOrder (hi : i.Sound) {r s : PluginProvider}
    (hr : r ∈ i.providers) (hs : s ∈ i.providers) (hre : r.isEmpty = false)
    (hse : s.isEmpty = false) (ho : ∀ t ∈ [r, s], t.plugins.InOrder ∧ t.apiPlugins.InOrder) :
    ∃ u, outcome (PluginProvider.unionTwo r s) i.supply = .ok u ∧
      u.Unites [r, s] (r.builtin && s.builtin) := by
  have heq : PluginProvider.unionTwo r s =
      PluginProvider.union [r, s] (r.builtin && s.builtin) := by
    simp [PluginProvider.unionTwo, hre, hse]
  rw [heq]
  refine ((hi.outcome_union (pair_subset hr hs) _ (Nat.le_refl _)).resolve_left ?_).2
  rintro ⟨e, he, -⟩
  exact Option.some_ne_none e (he.symm.trans (PluginProvider.fault?_eq_none_of_inOrder ho))

/-- What a lookup in a target comes to whose instances are filed under their own keys. -/
theorem Sound.foundIn (hi : i.Sound) (ht : t.Over i)
    (hk : ∀ k a, t.provider k = some a → a.key = k) (log : Log) :
    PluginProvider.FoundIn (t.provider (.plugin .rulesDefined)) (t.provider (.plugin .builtin))
      log i.supply ((PluginProvider.ofTarget t).outcome log i.supply).1 where
  current_rejected e he :=
    Attempt.outcome_bind_of_error (Slots.outcome_ofTarget_current he log i.supply)
  legacy_rejected hc e he :=
    Attempt.outcome_bind_of_error (Slots.outcome_ofTarget_legacy hc he log i.supply)
  eq_none_iff := PluginProvider.outcome_ofTarget_eq_none_iff
  current_only a hc hl := PluginProvider.outcome_ofTarget_of_current hc hl
  legacy_only a hc hl := PluginProvider.outcome_ofTarget_of_legacy hc hl
  both a b hc hl ha hb := by
    have ha' (e : RecordError) (he : (PluginProvider.ofInstance a).MayFail e) : False :=
      ha e ⟨a, hc, he⟩
    have hb' (e : RecordError) (he : (PluginProvider.ofInstance b).MayFail e) : False :=
      hb e ⟨b, hl, he⟩
    obtain ⟨r, s, supply', supply'', hr, hs, hrun, hres⟩ :=
      PluginProvider.exists_outcome_ofTarget hc hl ha' hb' log i.supply
    refine ⟨r, s, supply', hr, by rw [Attempt.outcome, hs], fun he => ?_, fun hne he => ?_,
      fun hre hse ho => ?_⟩
    · rw [hres, PluginProvider.unionTwo, if_pos he]
      rfl
    · rw [hres, PluginProvider.unionTwo, if_neg (Bool.eq_false_iff.mp hne), if_pos he]
      rfl
    · obtain ⟨⟨res, log'⟩, j, hrun', hj, hwithin⟩ := Attempts.slotsOfTarget ht log
      cases hrun.symm.trans hrun'
      have hw := hwithin _ rfl
      obtain ⟨u, hu, hunites⟩ := (hj.sound hi).outcome_unionTwo_inOrder (hw.current r rfl)
        (hw.legacy s rfl) hre hse ho
      have hbuiltin : r.builtin = false :=
        PluginProvider.builtin_of_mayReturn (hk _ a hc)
          ⟨log, i.supply, by rw [Attempt.outcome, hr]⟩
      refine ⟨u, ?_, ?_, hunites.outputs, hunites.plugins.gathers, hunites.apiPlugins.gathers⟩
      · rw [hres, hu]
        rfl
      · rw [hunites.builtin, hbuiltin]
        rfl

/-- **Targets are looked up by what was filed last.** Whatever instances were filed, and in whatever
sequence, every key gives the one that was filed last under it, which is also what the next one
takes the place of. The records that are read have the marks that go with the two keys, and no
instance is refused for being one of another provider. What the lookup comes to is settled by the
two instances. -/
theorem provider_lookup (h : i.Reachable) (label : String) {l : List Instance}
    (hl : ∀ a ∈ l, (Value.provider a).Over i) (log : Log) {supply : Supply}
    (hs : i.supply.next ≤ supply.next) :
    let m := Exports.ofList label l
    let slots := ((Slots.ofTarget m.toTarget).outcome log supply).1
    let res := ((PluginProvider.ofTarget m.toTarget).outcome log supply).1
    (∀ a : Instance, (m.insert a).1 = Exports.lastUnder a.key l) ∧
      (∀ k, m.toTarget.provider k = Exports.lastUnder k l) ∧
      (∀ x, slots = .ok x → (∀ r ∈ x.current, r.builtin = false) ∧
        ∀ r ∈ x.legacy, r.builtin = true) ∧
      (∀ k k', slots = .error (.wrongRecord k k') → k'.typeName ≠ ProviderKey.pluginName) ∧
      PluginProvider.FoundIn (Exports.lastUnder (.plugin .rulesDefined) l)
        (Exports.lastUnder (.plugin .builtin) l) log supply res := by
  intro m slots res
  have hprovider (k : ProviderKey) : m.toTarget.provider k = Exports.lastUnder k l :=
    Exports.getElem?_ofList label l k
  have hkey (k : ProviderKey) (a : Instance) (ha : m.toTarget.provider k = some a) : a.key = k :=
    (Exports.lastUnder_eq_some ((hprovider k).symm.trans ha)).2
  have hpass : i.Leads { i with supply := supply } := leads_pass hs
  have hover : m.toTarget.Over { i with supply := supply } := fun k a ha =>
    (hl a (Exports.lastUnder_eq_some ((hprovider k).symm.trans ha)).1).mono hpass.within
  refine ⟨fun a => Exports.getElem?_ofList label l a.key, hprovider, ?_, ?_, ?_⟩
  · exact fun x hx => Slots.builtin_of_mayReturn hkey ⟨log, supply, hx⟩
  · intro k k' he
    obtain ⟨d, hd⟩ | ⟨k'', hk⟩ := Slots.within_of_mayFail hkey ⟨log, supply, he⟩
    · cases hd
    · cases hk
      decide
  · have hfound := (hpass.sound h.sound).foundIn hover hkey log
    rwa [hprovider, hprovider] at hfound

namespace Sample

/-- A struct under the key of the rules that are maintained outside the build tool. -/
def exported : Instance :=
  .generic (.plugin .rulesDefined) ⟨[
    (PluginProvider.apiPluginsField, .processors processors),
    (CompiledOutput.listField, .list []),
    (PluginProvider.pluginsField, .processors processors)]⟩

/-- Three instances, of which the first two have the same key. -/
def filed : List Instance := [.native (.empty false), exported, .native provider]

theorem filed_over : ∀ a ∈ filed, (Value.provider a).Over inventory := by
  have hprocessors : (Value.processors processors).Over inventory := .processors List.mem_cons_self
  have hexported : (Value.provider exported).Over inventory :=
    .generic _ (List.forall_mem_cons.mpr ⟨hprocessors, List.forall_mem_cons.mpr
      ⟨.list fun v hv => absurd hv List.not_mem_nil, List.forall_mem_singleton.mpr hprocessors⟩⟩)
  exact List.forall_mem_cons.mpr ⟨.native (reachable_inventory.sound.empty_mem_providers false),
    List.forall_mem_cons.mpr ⟨hexported, List.forall_mem_singleton.mpr
      (.native List.mem_cons_self)⟩⟩

end Sample

/-- The struct has taken the place of the empty record, and is united with the native record. -/
theorem provider_lookup_sample : ∃ u,
    ((PluginProvider.ofTarget (Exports.ofList "//java:lib" Sample.filed).toTarget).outcome
      [] ⟨3⟩).1 = .ok (some u) ∧ u.builtin = false ∧ u.outputs = [] ∧
        u.plugins.classes.toList = ["Generator"] := by
  have hle : Sample.inventory.supply.next ≤ (⟨3⟩ : Supply).next := Nat.le_refl 3
  obtain ⟨-, -, -, -, hfound⟩ :=
    provider_lookup Sample.reachable_inventory "//java:lib" Sample.filed_over [] hle
  have hread : ((PluginProvider.ofInstance Sample.exported).run.run []).run ⟨3⟩ =
      ((.ok ⟨.issued ⟨3⟩, [], Sample.processors, Sample.processors, false⟩, []), ⟨4⟩) := rfl
  have hexported (e : RecordError) : ¬ Slots.Rejects (some Sample.exported) e := by
    rintro ⟨_, ⟨⟩, he⟩
    obtain ⟨v, hv⟩ := PluginProvider.exists_verdict_ofInstance Sample.exported
    have hout := hv.outcome_of_mayFail he [] ⟨3⟩
    rw [Attempt.outcome, hread] at hout
    cases hout
  have hnative (e : RecordError) : ¬ Slots.Rejects (some (.native Sample.provider)) e := by
    rintro ⟨_, ⟨⟩, he⟩
    exact Attempt.not_mayFail_pure (Attempt.mayFail_onFailure.mp he)
  obtain ⟨r, s, supply', hr, hs, -, -, hboth⟩ :=
    hfound.both Sample.exported (.native Sample.provider) rfl rfl hexported hnative
  cases hread.symm.trans hr
  cases hs
  obtain ⟨u, hu, hb, ho, hp, -⟩ := hboth rfl rfl (by
    simp [Sample.provider, Sample.processors, Sample.classes, Processors.inOrder_iff,
      TransitiveSet.empty, Processors.order])
  have hlist : Sample.classes.toList = ["Generator"] :=
    (Sample.reachable_inventory.sound.strings.coherent (s := Sample.classes)
      List.mem_cons_self).toList_eq
  refine ⟨u, hu, hb, ho, ?_⟩
  rw [hp.classes]
  simp only [List.flatMap_cons, List.flatMap_nil, Sample.provider, Sample.processors, hlist]
  rfl

end Inventory

end PluginClosure
