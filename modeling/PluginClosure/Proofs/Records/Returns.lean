import PluginClosure.Proofs.Records.Attempts

/-!
# What attempts may return

Serial numbers tell objects apart, and notes are for those who follow the events. What a record
holds depends on neither. An attempt *may return* a result if it does so with some supply and some
log, and what it may return is found by reading it backwards: the parts of a sequence have returned
something each, and what was read from a value was in the value.

This says nothing about histories. It is enough for properties that the contents of a single record
have or do not have. Where a result is made of more than one record, the attempt has to be part of a
history: it *returns* a result if it starts in an inventory, and the history goes on.

## Main definitions

* `PluginClosure.Attempt.MayReturn`: the results of an attempt.
* `PluginClosure.Inventory.Returns`: the results of an attempt in a history.
* `PluginClosure.PluginProvider.ReadFrom`: a record with the contents of fields.

## Main results

* `PluginClosure.Attempt.MayReturn.of_bind`, `PluginClosure.Attempt.mayReturn_onFailure` and others:
  attempts read backwards, step by step.
* `PluginClosure.Inventory.Attempts.exists_returns`: what succeeds goes on as promised.
* `PluginClosure.Processors.mayReturn_ofValue`, `PluginClosure.PluginProvider.mayReturn_ofInstance`,
  `PluginClosure.PluginProvider.mayReturn_ofCompilation`: the readings of records.
* `PluginClosure.PluginProvider.union_parts`, `PluginClosure.PluginProvider.unionTwo_result`,
  `PluginClosure.Slots.union_result`: the unions of records.
* `PluginClosure.Inventory.Sound.exists_mem_of_union`: the union of records at hand.
-/

namespace PluginClosure

variable {ε β γ : Type}

/-! ### Attempts -/

namespace Attempt

/-- With some supply and some log to start with, the attempt returns the result. -/
def MayReturn (x : Attempt ε β) (b : β) : Prop :=
  ∃ log supply, (x.outcome log supply).1 = .ok b

theorem mayReturn_pure {a b : β} : (pure a : Attempt ε β).MayReturn b ↔ b = a := by
  constructor
  · rintro ⟨_, _, ⟨⟩⟩
    rfl
  · rintro rfl
    exact ⟨[], {}, rfl⟩

theorem not_mayReturn_throw {e : ε} {b : β} : ¬ (throw e : Attempt ε β).MayReturn b := by
  rintro ⟨_, _, ⟨⟩⟩

/-- The second attempt starts where the first one ended. The converse is therefore false. -/
theorem MayReturn.of_bind {x : Attempt ε β} {f : β → Attempt ε γ} {c : γ}
    (h : (x >>= f).MayReturn c) : ∃ b, x.MayReturn b ∧ (f b).MayReturn c := by
  obtain ⟨log, supply, h⟩ := h
  rw [outcome, run_bind, StateT.run_bind] at h
  rcases hrun : (x.run.run log).run supply with ⟨⟨e | b, log'⟩, supply'⟩
  · rw [hrun] at h
    cases h
  · rw [hrun] at h
    exact ⟨b, ⟨log, supply, by rw [outcome, hrun]⟩, log', supply', h⟩

theorem mayReturn_onFailure {event : ε → Event} {x : Attempt ε β} {b : β} :
    (onFailure event x).MayReturn b ↔ x.MayReturn b := by
  refine exists_congr fun log => exists_congr fun supply => ?_
  rw [outcome, outcome, run_onFailure, StateT.run_bind]
  rcases (x.run.run log).run supply with ⟨⟨e | c, log'⟩, supply'⟩
  · exact iff_of_false (fun h => by cases h) (fun h => by cases h)
  · exact Iff.rfl

theorem mayReturn_lift_fresh {y : Fresh β} {b : β} :
    (liftM y : Attempt ε β).MayReturn b ↔ ∃ supply, (y.run supply).1 = b :=
  ⟨fun ⟨_, supply, h⟩ => ⟨supply, Except.ok.inj h⟩,
    fun ⟨supply, h⟩ => ⟨[], supply, congrArg Except.ok h⟩⟩

theorem mayReturn_lift_field {y : Except FieldError β} {b : β} :
    (liftM y : Attempt RecordError β).MayReturn b ↔ y = .ok b := by
  constructor
  · rintro ⟨log, supply, h⟩
    rw [outcome, run_lift_field] at h
    cases y with
    | error e => cases h
    | ok c =>
      cases h
      rfl
  · rintro rfl
    exact ⟨[], {}, rfl⟩

end Attempt

/-! ### Computations that cannot note events -/

namespace Inventory

variable {x : ExceptT ε Fresh β} {f : β → ExceptT ε Fresh γ} {supply : Supply}

theorem outcome_bind (x : ExceptT ε Fresh β) (f : β → ExceptT ε Fresh γ) (supply : Supply) :
    outcome (x >>= f) supply =
      (outcome x supply).bind fun b => outcome (f b) (x.run.run supply).2 := by
  rw [outcome, outcome, ExceptT.run_bind, StateT.run_bind]
  rcases x.run.run supply with ⟨e | b, supply'⟩ <;> rfl

theorem outcome_bind_of_ok {b : β} (h : outcome x supply = .ok b) :
    outcome (x >>= f) supply = outcome (f b) (x.run.run supply).2 := by
  rw [outcome_bind, h, Except.bind]

theorem exists_of_outcome_bind {c : γ} (h : outcome (x >>= f) supply = .ok c) :
    ∃ b, outcome x supply = .ok b ∧ ∃ supply', outcome (f b) supply' = .ok c := by
  rw [outcome_bind] at h
  cases hx : outcome x supply with
  | error e =>
    rw [hx] at h
    cases h
  | ok b =>
    rw [hx] at h
    exact ⟨b, rfl, _, h⟩

/-! ### Attempts in histories -/

/-- Started in the inventory `i`, the attempt returns the result, and the history arrives at `j`. -/
structure Returns (i : Inventory) (x : Attempt ε β) (b : β) (j : Inventory) : Prop where
  leads : i.Leads j
  run : ∃ log log', (x.run.run log).run i.supply = ((.ok b, log'), j.supply)

variable {i j : Inventory} {x : Attempt ε β} {b : β}

theorem Returns.outcome (h : i.Returns x b j) : ∃ log, (x.outcome log i.supply).1 = .ok b := by
  obtain ⟨-, log, log', hrun⟩ := h
  exact ⟨log, by rw [Attempt.outcome, hrun]⟩

theorem Returns.mayReturn (h : i.Returns x b j) : x.MayReturn b :=
  h.outcome.imp fun _ hr => ⟨i.supply, hr⟩

theorem Returns.outcome_lift {y : ExceptT ε Fresh β}
    (h : i.Returns (liftM y : Attempt ε β) b j) : Inventory.outcome y i.supply = .ok b :=
  h.outcome.elim fun _ hr => hr

/-- An attempt that succeeds leads to an inventory as promised. -/
theorem Attempts.exists_returns {P : β → Inventory → Prop} (hx : i.Attempts x P) (log : Log)
    (h : (x.outcome log i.supply).1 = .ok b) : ∃ j, i.Returns x b j ∧ P b j := by
  obtain ⟨⟨res, log'⟩, j, hrun, hj, hP⟩ := hx log
  rw [Attempt.outcome, hrun] at h
  cases h
  exact ⟨j, ⟨hj, log, log', hrun⟩, hP b rfl⟩

end Inventory

/-! ### Readings of records -/

theorem Fields.require_eq_ok {f : Fields β} {name : String} {v : β} :
    f.require name = .ok v ↔ f.get? name = some v := by
  rw [require]
  cases f.get? name <;> simp

namespace Processors

variable {f : Fields Value} {v : Value} {p : Processors}

theorem mayReturn_ofFields (h : (ofFields f).MayReturn p) :
    ∃ classes classpath data supply, readStrings f classesField = .ok classes ∧
      readFiles f classpathField = .ok classpath ∧ readFiles f dataField = .ok data ∧
      ((create classes classpath data).run supply).1 = p := by
  obtain ⟨classes, hc, h⟩ := h.of_bind
  obtain ⟨classpath, hp, h⟩ := h.of_bind
  obtain ⟨data, hd, h⟩ := h.of_bind
  obtain ⟨supply, h⟩ := Attempt.mayReturn_lift_fresh.mp h
  exact ⟨classes, classpath, data, supply, Attempt.mayReturn_lift_field.mp hc,
    Attempt.mayReturn_lift_field.mp hp, Attempt.mayReturn_lift_field.mp hd, h⟩

theorem mayReturn_ofValue : (ofValue v).MayReturn p ↔
    v = .processors p ∨ ∃ f, v = .struct f ∧ (ofFields f).MayReturn p := by
  cases v with
  | processors q =>
    refine Attempt.mayReturn_onFailure.trans (Attempt.mayReturn_pure.trans ?_)
    simp [eq_comm]
  | struct f =>
    refine Attempt.mayReturn_onFailure.trans ?_
    simp
  | _ =>
    refine Attempt.mayReturn_onFailure.trans ?_
    simp [Attempt.not_mayReturn_throw]

end Processors

namespace PluginProvider

variable {f : Fields Value} {o : Origin} {a : Instance} {r : PluginProvider}

theorem mayReturn_readProcessors {name : String} {p : Processors}
    (h : (readProcessors f name).MayReturn p) :
    ∃ v, f.get? name = some v ∧ (Processors.ofValue v).MayReturn p := by
  obtain ⟨v, hv, h⟩ := h.of_bind
  exact ⟨v, Fields.require_eq_ok.mp (Attempt.mayReturn_lift_field.mp hv), h⟩

/-- The processors of the record are those in the fields, and its mark is that of the origin. -/
structure ReadFrom (r : PluginProvider) (f : Fields Value) (o : Origin) : Prop where
  plugins : (readProcessors f pluginsField).MayReturn r.plugins
  apiPlugins : (readProcessors f apiPluginsField).MayReturn r.apiPlugins
  builtin : r.builtin = o.isBuiltin

theorem mayReturn_ofFields (h : (ofFields o f).MayReturn r) : r.ReadFrom f o := by
  obtain ⟨outputs, -, h⟩ := h.of_bind
  obtain ⟨plugins, hp, h⟩ := h.of_bind
  obtain ⟨apiPlugins, ha, h⟩ := h.of_bind
  obtain ⟨supply, rfl⟩ := Attempt.mayReturn_lift_fresh.mp h
  exact ⟨hp, ha, rfl⟩

/-- A record that is not canonical has processors. -/
theorem mayReturn_ofCompilationFields (h : (ofCompilationFields o f).MayReturn r) :
    r = .empty o.isBuiltin ∨
      r.ReadFrom f o ∧ ¬ (r.plugins.isEmpty && r.apiPlugins.isEmpty) = true := by
  obtain ⟨plugins, hp, h⟩ := h.of_bind
  obtain ⟨apiPlugins, ha, h⟩ := h.of_bind
  split at h
  · exact Or.inl (Attempt.mayReturn_pure.mp h)
  · next hne =>
    obtain ⟨supply, rfl⟩ := Attempt.mayReturn_lift_fresh.mp h
    exact Or.inr ⟨⟨hp, ha, rfl⟩, hne⟩

theorem mayReturn_ofInstance : (ofInstance a).MayReturn r ↔
    a = .native r ∨ ∃ o f, a = .generic (.plugin o) f ∧ (ofFields o f).MayReturn r := by
  cases a with
  | native s =>
    refine Attempt.mayReturn_onFailure.trans (Attempt.mayReturn_pure.trans ?_)
    simp [eq_comm]
  | generic k f =>
    refine Attempt.mayReturn_onFailure.trans ?_
    cases k <;> simp [Attempt.not_mayReturn_throw]

theorem mayReturn_ofCompilation : (ofCompilation a).MayReturn r ↔
    ∃ o f, a = .generic (.compilation o) f ∧ (ofCompilationFields o f).MayReturn r := by
  cases a with
  | native s =>
    refine Attempt.mayReturn_onFailure.trans ?_
    simp [Attempt.not_mayReturn_throw]
  | generic k f =>
    refine Attempt.mayReturn_onFailure.trans ?_
    cases k <;> simp [Attempt.not_mayReturn_throw]

/-! ### Unions of records -/

/-- The parts of a union are unions of parts, unless there is nothing to unite. -/
theorem union_parts {l : List PluginProvider} {b : Bool} {supply : Supply}
    (h : Inventory.outcome (union l b) supply = .ok r) :
    r = .empty (b && l.all PluginProvider.builtin) ∨ ∃ s₁ s₂,
      Inventory.outcome (Processors.union ((l.map PluginProvider.plugins).filter (!·.isEmpty))) s₁ =
          .ok r.plugins ∧
        Inventory.outcome
          (Processors.union ((l.map PluginProvider.apiPlugins).filter (!·.isEmpty))) s₂ =
            .ok r.apiPlugins := by
  rw [union] at h
  split at h
  · cases h
    exact Or.inl rfl
  · obtain ⟨p, hp, s₁, h⟩ := Inventory.exists_of_outcome_bind h
    obtain ⟨q, hq, s₂, h⟩ := Inventory.exists_of_outcome_bind h
    cases h
    exact Or.inr ⟨_, _, hp, hq⟩

/-- A union of two gives one of them back if the other is empty. -/
theorem unionTwo_spec (r s : PluginProvider) :
    (r.isEmpty = true ∧ unionTwo r s = pure s) ∨
    (r.isEmpty = false ∧ s.isEmpty = true ∧ unionTwo r s = pure r) ∨
    (r.isEmpty = false ∧ s.isEmpty = false ∧
      unionTwo r s = union [r, s] (r.builtin && s.builtin)) := by
  rw [unionTwo]
  cases r.isEmpty with
  | true => exact Or.inl ⟨rfl, rfl⟩
  | false =>
    cases s.isEmpty with
    | true => exact Or.inr (Or.inl ⟨rfl, rfl, rfl⟩)
    | false => exact Or.inr (Or.inr ⟨rfl, rfl, rfl⟩)

/-- What a union of two returns is one of the records, or the union of a list with both. -/
theorem unionTwo_result {r s u : PluginProvider} {supply : Supply}
    (h : Inventory.outcome (unionTwo r s) supply = .ok u) : u = r ∨ u = s ∨
      Inventory.outcome (union [r, s] (r.builtin && s.builtin)) supply = .ok u := by
  rcases unionTwo_spec r s with ⟨-, heq⟩ | ⟨-, -, heq⟩ | ⟨-, -, heq⟩
  · rw [heq] at h
    exact Or.inr (Or.inl (Except.ok.inj h).symm)
  · rw [heq] at h
    exact Or.inl (Except.ok.inj h).symm
  · rw [heq] at h
    exact Or.inr (Or.inr h)

end PluginProvider

/-- What a union of records at hand returns sums the records, and may be put at hand. -/
theorem Inventory.Sound.exists_mem_of_union {i : Inventory} (h : i.Sound)
    {l : List PluginProvider} (hl : l ⊆ i.providers) {b : Bool} {supply : Supply}
    (hs : i.supply.next ≤ supply.next) {r : PluginProvider}
    (hr : outcome (PluginProvider.union l b) supply = .ok r) :
    ∃ j, i.Leads j ∧ r ∈ j.providers ∧ r.Unites l b := by
  have hpass : i.Leads { i with supply := supply } := leads_pass hs
  rcases ((hpass.sound h).yields_union_providers hl b).outcome with
    ⟨e, -, hout⟩ | ⟨-, u, j, hout, hj, hu, hunites⟩
  · cases hout.symm.trans hr
  · cases hout.symm.trans hr
    exact ⟨j, hpass.trans hj, hu, hunites⟩

/-- Slots that are both taken make the union of the two records, and it is noted that they do. -/
theorem Slots.outcome_union_both (r s : PluginProvider) (log : Log) (supply : Supply) :
    Attempt.outcome (Slots.union ⟨some r, some s⟩) log supply =
      ((Inventory.outcome (PluginProvider.unionTwo r s) supply).map some,
        log ++ [.unitingIdentities r.builtin s.builtin]) := by
  have hrun : (Slots.union ⟨some r, some s⟩).run.run log =
      (fun x => (x.map some, log ++ [.unitingIdentities r.builtin s.builtin])) <$>
        (PluginProvider.unionTwo r s).run := by
    rw [Slots.union, Attempt.run_bind, Attempt.run_note, pure_bind]
    show ((liftM (PluginProvider.unionTwo r s) : Attempt OrderMismatch PluginProvider) >>=
      fun u => pure (some u)).run.run _ = _
    rw [Attempt.run_bind, Attempt.run_lift, bind_map_left, map_eq_pure_bind]
    congr 1
    funext x
    cases x <;> rfl
  rw [Attempt.outcome, hrun]
  rfl

/-- What the slots make is in one of them, or it is the union of both. -/
theorem Slots.union_result {x : Slots} {u : PluginProvider} {log : Log} {supply : Supply}
    (h : (x.union.outcome log supply).1 = .ok (some u)) :
    x.current = some u ∨ x.legacy = some u ∨ ∃ r ∈ x.current, ∃ s ∈ x.legacy,
      Inventory.outcome (PluginProvider.unionTwo r s) supply = .ok u := by
  obtain ⟨_ | r, _ | s⟩ := x
  · cases h
  · exact Or.inr (Or.inl (Except.ok.inj h))
  · exact Or.inl (Except.ok.inj h)
  · rw [outcome_union_both] at h
    refine Or.inr (Or.inr ⟨r, rfl, s, rfl, ?_⟩)
    cases hu : Inventory.outcome (PluginProvider.unionTwo r s) supply with
    | error e =>
      rw [hu] at h
      cases h
    | ok v =>
      rw [hu] at h
      cases h
      rfl

end PluginClosure
