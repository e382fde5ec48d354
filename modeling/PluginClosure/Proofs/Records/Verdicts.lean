import PluginClosure.Proofs.Records.Returns

/-!
# When attempts fail

The readings of records look at what they are given, and at nothing else. Whether such an attempt
fails, with which error and with which events, is settled before it starts: it does not depend on
the supply, nor on what was noted before. The attempt has a *verdict*. A sequence of attempts has
one too if those that come later are judged alike, whatever the earlier ones have returned.

An attempt *may fail* with an error if it does so with some supply and some log. Where there is a
verdict, it then always does.

## Main definitions

* `PluginClosure.Attempt.MayFail`: the errors of an attempt.
* `PluginClosure.Attempt.Verdict`: how an attempt ends, whatever the circumstances.
* `PluginClosure.RecordError.Within`: errors about what an instance holds.

## Main results

* `PluginClosure.Attempt.MayFail.of_bind` and others: failures read backwards, step by step.
* `PluginClosure.Attempt.Verdict.bind`, `PluginClosure.Attempt.Verdict.onFailure` and others:
  verdicts, step by step.
* `PluginClosure.Attempt.Verdict.outcome_of_mayFail`,
  `PluginClosure.Attempt.Verdict.exists_run`: what a verdict says.
* `PluginClosure.PluginProvider.exists_verdict_ofInstance`: every instance has a verdict.
* `PluginClosure.PluginProvider.within_of_mayFail_ofInstance`: under a key of the plugin provider, an
  instance is refused for what it holds.
-/

namespace PluginClosure

variable {ε β γ : Type}

namespace Attempt

/-! ### Failures -/

/-- With some supply and some log to start with, the attempt fails with the error. -/
def MayFail (x : Attempt ε β) (e : ε) : Prop :=
  ∃ log supply, (x.outcome log supply).1 = .error e

theorem not_mayFail_pure {b : β} {e : ε} : ¬ (pure b : Attempt ε β).MayFail e := by
  rintro ⟨_, _, ⟨⟩⟩

theorem mayFail_throw {e e' : ε} : (throw e : Attempt ε β).MayFail e' ↔ e' = e := by
  constructor
  · rintro ⟨_, _, ⟨⟩⟩
    rfl
  · rintro rfl
    exact ⟨[], {}, rfl⟩

/-- Either the first attempt fails, or the second one after it. -/
theorem MayFail.of_bind {x : Attempt ε β} {f : β → Attempt ε γ} {e : ε}
    (h : (x >>= f).MayFail e) : x.MayFail e ∨ ∃ b, x.MayReturn b ∧ (f b).MayFail e := by
  obtain ⟨log, supply, h⟩ := h
  rw [outcome, run_bind, StateT.run_bind] at h
  rcases hrun : (x.run.run log).run supply with ⟨⟨e' | b, log'⟩, supply'⟩
  · rw [hrun] at h
    cases h
    exact Or.inl ⟨log, supply, by rw [outcome, hrun]⟩
  · rw [hrun] at h
    exact Or.inr ⟨b, ⟨log, supply, by rw [outcome, hrun]⟩, log', supply', h⟩

theorem mayFail_onFailure {event : ε → Event} {x : Attempt ε β} {e : ε} :
    (onFailure event x).MayFail e ↔ x.MayFail e := by
  refine exists_congr fun log => exists_congr fun supply => ?_
  rw [outcome, outcome, run_onFailure, StateT.run_bind]
  rcases (x.run.run log).run supply with ⟨⟨e' | c, log'⟩, supply'⟩
  · exact Iff.rfl
  · exact iff_of_false (fun h => by cases h) (fun h => by cases h)

theorem not_mayFail_lift_fresh {y : Fresh β} {e : ε} :
    ¬ (liftM y : Attempt ε β).MayFail e := by
  rintro ⟨_, _, ⟨⟩⟩

theorem mayFail_lift_field {y : Except FieldError β} {e : RecordError} :
    (liftM y : Attempt RecordError β).MayFail e ↔ ∃ d, y = .error d ∧ e = .field d := by
  constructor
  · rintro ⟨log, supply, h⟩
    rw [outcome, run_lift_field] at h
    cases y with
    | error d =>
      cases h
      exact ⟨d, rfl, rfl⟩
    | ok c => cases h
  · rintro ⟨d, rfl, rfl⟩
    exact ⟨[], {}, rfl⟩

/-! ### Runs -/

variable {x : Attempt ε β} {f : β → Attempt ε γ} {b : β} {e : ε} {log log' : Log}
  {supply supply' : Supply}

theorem run_bind_of_run (h : (x.run.run log).run supply = ((.ok b, log'), supply')) :
    ((x >>= f).run.run log).run supply = ((f b).run.run log').run supply' := by
  rw [run_bind, StateT.run_bind, h]
  rfl

theorem run_onFailure_of_run (event : ε → Event)
    (h : (x.run.run log).run supply = ((.ok b, log'), supply')) :
    ((onFailure event x).run.run log).run supply = ((.ok b, log'), supply') := by
  rw [run_onFailure, StateT.run_bind, h]
  rfl

theorem outcome_bind_of_error (h : (x.outcome log supply).1 = .error e) :
    ((x >>= f).outcome log supply).1 = .error e := by
  rw [outcome] at h
  rw [outcome, run_bind, StateT.run_bind]
  rcases hrun : (x.run.run log).run supply with ⟨⟨e' | b, log'⟩, supply'⟩
  · rw [hrun] at h
    cases h
    rfl
  · rw [hrun] at h
    cases h

/-! ### Verdicts -/

/-- How the attempt ends, whatever the supply and whatever was noted before. If it fails, the error
and the events that it notes are given. Otherwise it notes nothing. -/
def Verdict (x : Attempt ε β) : Option (ε × List Event) → Prop
  | none => ∃ y : Fresh β, ∀ log, x.run.run log = (fun b => (.ok b, log)) <$> y
  | some (e, events) =>
    ∃ y : Fresh Unit, ∀ log, x.run.run log = (fun _ => (.error e, log ++ events)) <$> y

namespace Verdict

variable {v u : Option (ε × List Event)}

theorem pure (b : β) : (pure b : Attempt ε β).Verdict none :=
  ⟨Pure.pure b, fun _ => rfl⟩

theorem throw (e : ε) : (throw e : Attempt ε β).Verdict (some (e, [])) :=
  ⟨Pure.pure (), fun log => by rw [List.append_nil]; rfl⟩

theorem lift_fresh (y : Fresh β) : (liftM y : Attempt ε β).Verdict none :=
  ⟨y, fun log => run_lift_fresh y log⟩

/-- The second attempt is not made. -/
theorem bind_of_fails {r : ε × List Event} (hx : x.Verdict (some r)) :
    (x >>= f).Verdict (some r) := by
  obtain ⟨y, hy⟩ := hx
  refine ⟨y, fun log => ?_⟩
  rw [run_bind, hy, bind_map_left, map_eq_pure_bind]

/-- The second attempt is judged alike, whatever the first one returns. -/
theorem bind (hx : x.Verdict v) (hf : ∀ b, (f b).Verdict u) : (x >>= f).Verdict (v.or u) := by
  match v with
  | some r => exact hx.bind_of_fails
  | none =>
    obtain ⟨y, hy⟩ := hx
    rw [Option.none_or]
    match u with
    | some (e, events) =>
      choose z hz using hf
      refine ⟨y >>= z, fun log => ?_⟩
      rw [run_bind, hy, bind_map_left, map_bind]
      simp only [hz]
    | none =>
      choose z hz using hf
      refine ⟨y >>= z, fun log => ?_⟩
      rw [run_bind, hy, bind_map_left, map_bind]
      simp only [hz]

/-- Of a failure it is noted at the end that it happened. -/
theorem onFailure (hx : x.Verdict v) (event : ε → Event) :
    (onFailure event x).Verdict (v.map fun r => (r.1, r.2 ++ [event r.1])) := by
  match v with
  | some (e, events) =>
    obtain ⟨y, hy⟩ := hx
    refine ⟨y, fun log => ?_⟩
    rw [run_onFailure, hy, bind_map_left, map_eq_pure_bind]
    simp only [List.append_assoc]
  | none =>
    obtain ⟨y, hy⟩ := hx
    refine ⟨y, fun log => ?_⟩
    rw [run_onFailure, hy, bind_map_left, map_eq_pure_bind]

theorem lift_field (y : Except FieldError β) :
    (liftM y : Attempt RecordError β).Verdict
      (match y with
        | .ok _ => none
        | .error d => some (.field d, [])) := by
  cases y with
  | ok b => exact ⟨Pure.pure b, fun log => run_lift_field _ log⟩
  | error d =>
    refine ⟨Pure.pure (), fun log => ?_⟩
    rw [run_lift_field, List.append_nil]
    rfl

/-- An attempt that may fail always does. -/
theorem outcome_of_mayFail (hx : x.Verdict v) (he : x.MayFail e) (log : Log) (supply : Supply) :
    (x.outcome log supply).1 = .error e := by
  obtain ⟨log', supply', h⟩ := he
  rw [outcome] at h ⊢
  cases v with
  | some r =>
    obtain ⟨y, hy⟩ := hx
    rw [hy] at h ⊢
    cases h
    rfl
  | none =>
    obtain ⟨y, hy⟩ := hx
    rw [hy] at h
    cases h

/-- An attempt that cannot fail returns something, and notes nothing. -/
theorem exists_run (hx : x.Verdict v) (hn : ∀ e, ¬ x.MayFail e) (log : Log) (supply : Supply) :
    ∃ b supply', (x.run.run log).run supply = ((.ok b, log), supply') := by
  match v with
  | some (e, events) =>
    obtain ⟨y, hy⟩ := hx
    exact absurd ⟨log, supply, by rw [outcome, hy]; rfl⟩ (hn e)
  | none =>
    obtain ⟨y, hy⟩ := hx
    rw [hy]
    exact ⟨_, _, rfl⟩

end Verdict

end Attempt

/-! ### Readings of records -/

theorem Processors.exists_verdict_ofFields (f : Fields Value) :
    ∃ v, (Processors.ofFields f).Verdict v :=
  ⟨_, (Attempt.Verdict.lift_field _).bind fun _ => (Attempt.Verdict.lift_field _).bind fun _ =>
    (Attempt.Verdict.lift_field _).bind fun _ => .lift_fresh _⟩

theorem Processors.exists_verdict_ofValue (w : Value) : ∃ v, (Processors.ofValue w).Verdict v := by
  cases w with
  | processors p => exact ⟨_, (Attempt.Verdict.pure p).onFailure _⟩
  | struct f =>
    obtain ⟨v, hv⟩ := Processors.exists_verdict_ofFields f
    exact ⟨_, hv.onFailure _⟩
  | _ => exact ⟨_, (Attempt.Verdict.throw _).onFailure _⟩

namespace PluginProvider

theorem exists_verdict_readProcessors (f : Fields Value) (name : String) :
    ∃ v, (readProcessors f name).Verdict v := by
  rw [readProcessors]
  cases f.require name with
  | error d => exact ⟨_, (Attempt.Verdict.lift_field (.error d)).bind_of_fails⟩
  | ok w =>
    obtain ⟨v, hv⟩ := Processors.exists_verdict_ofValue w
    exact ⟨v, hv⟩

theorem exists_verdict_ofFields (p : Origin) (f : Fields Value) :
    ∃ v, (ofFields p f).Verdict v := by
  obtain ⟨v, hv⟩ := exists_verdict_readProcessors f pluginsField
  obtain ⟨u, hu⟩ := exists_verdict_readProcessors f apiPluginsField
  exact ⟨_, (Attempt.Verdict.lift_field _).bind fun _ => hv.bind fun _ => hu.bind fun _ =>
    .lift_fresh _⟩

/-- Whether an instance is a record, and if not why, depends on the instance only. -/
theorem exists_verdict_ofInstance (a : Instance) : ∃ v, (ofInstance a).Verdict v := by
  match a with
  | .native r => exact ⟨_, (Attempt.Verdict.pure r).onFailure _⟩
  | .generic (.plugin p) f =>
    obtain ⟨v, hv⟩ := exists_verdict_ofFields p f
    exact ⟨_, hv.onFailure _⟩
  | .generic (.compilation p) f => exact ⟨_, (Attempt.Verdict.throw _).onFailure _⟩
  | .generic (.other name) f => exact ⟨_, (Attempt.Verdict.throw _).onFailure _⟩

end PluginProvider

/-! ### Errors about what an instance holds -/

/-- The error is about a field, or about the processors in a field. -/
def RecordError.Within (e : RecordError) : Prop :=
  (∃ d, e = .field d) ∨ ∃ k, e = .wrongRecord k .processors

theorem RecordError.within_of_mayFail_lift {y : Except FieldError β} {e : RecordError}
    (h : (liftM y : Attempt RecordError β).MayFail e) : e.Within := by
  obtain ⟨d, -, he⟩ := Attempt.mayFail_lift_field.mp h
  exact Or.inl ⟨d, he⟩

theorem Processors.within_of_mayFail_ofValue {w : Value} {e : RecordError}
    (h : (Processors.ofValue w).MayFail e) : e.Within := by
  have h := Attempt.mayFail_onFailure.mp h
  cases w with
  | processors p => exact absurd h Attempt.not_mayFail_pure
  | struct f =>
    obtain h | ⟨_, -, h⟩ := h.of_bind
    · exact RecordError.within_of_mayFail_lift h
    obtain h | ⟨_, -, h⟩ := h.of_bind
    · exact RecordError.within_of_mayFail_lift h
    obtain h | ⟨_, -, h⟩ := h.of_bind
    · exact RecordError.within_of_mayFail_lift h
    · exact absurd h Attempt.not_mayFail_lift_fresh
  | _ => exact Or.inr ⟨_, Attempt.mayFail_throw.mp h⟩

namespace PluginProvider

theorem within_of_mayFail_readProcessors {f : Fields Value} {name : String} {e : RecordError}
    (h : (readProcessors f name).MayFail e) : e.Within := by
  obtain h | ⟨w, -, h⟩ := h.of_bind
  · exact RecordError.within_of_mayFail_lift h
  · exact Processors.within_of_mayFail_ofValue h

theorem within_of_mayFail_ofFields {p : Origin} {f : Fields Value} {e : RecordError}
    (h : (ofFields p f).MayFail e) : e.Within := by
  obtain h | ⟨_, -, h⟩ := h.of_bind
  · exact RecordError.within_of_mayFail_lift h
  obtain h | ⟨_, -, h⟩ := h.of_bind
  · exact within_of_mayFail_readProcessors h
  obtain h | ⟨_, -, h⟩ := h.of_bind
  · exact within_of_mayFail_readProcessors h
  · exact absurd h Attempt.not_mayFail_lift_fresh

/-- Under a key of the plugin provider, an instance is refused only for what it holds. -/
theorem within_of_mayFail_ofInstance {a : Instance} {p : Origin} {e : RecordError}
    (hk : a.key = .plugin p) (h : (ofInstance a).MayFail e) : e.Within := by
  have h := Attempt.mayFail_onFailure.mp h
  cases a with
  | native r => exact absurd h Attempt.not_mayFail_pure
  | generic k f =>
    obtain rfl : k = .plugin p := hk
    exact within_of_mayFail_ofFields h

end PluginProvider

end PluginClosure
