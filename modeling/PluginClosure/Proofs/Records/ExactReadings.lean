import Mathlib.Data.List.Forall2
import PluginClosure.Proofs.Records.FirstFault
import PluginClosure.Proofs.Records.Verdicts

/-!
# Exact readings

A format is described in two ways: by what a value of the format holds, and by what is at fault with
any other value. Neither description mentions how values are read. A reading is *exact* if it
returns what is held, and fails with what is at fault, and does nothing else. So one of the two is
always the case, and never both.

A sequence of readings is exact if each of them is. It fails with the fault of the first reading
that has one. An attempt is judged in the same way, except that its results may be told apart by
their serial numbers, and that what it notes on the way to a failure belongs to the description.

## Main definitions

* `PluginClosure.Exact`: a reading that does what a format says.
* `PluginClosure.Attempt.Exact`: an attempt that does.

## Main results

* `PluginClosure.Exact.seq`, `PluginClosure.Exact.mapM`: readings in sequence.
* `PluginClosure.Attempt.Exact.seq`, `PluginClosure.Attempt.Exact.onFailure` and others: attempts,
  step by step.
* `PluginClosure.Attempt.Exact.isOk_iff`, `PluginClosure.Attempt.Exact.error_iff`,
  `PluginClosure.Attempt.Exact.outcome_of_fault`: what an exact attempt comes to.
-/

namespace PluginClosure

variable {ε β γ : Type}

/-- The reading returns what `Holds` says and fails with what `Fault` says. -/
structure Exact (Holds : β → Prop) (Fault : ε → Prop) (x : Except ε β) : Prop where
  ok_iff : ∀ b, x = .ok b ↔ Holds b
  error_iff : ∀ e, x = .error e ↔ Fault e

namespace Exact

variable {H H' : β → Prop} {F F' : ε → Prop} {x : Except ε β} {f : β → Except ε γ}
  {K : β → γ → Prop} {G : β → ε → Prop} {places : List (ε → Prop)}

theorem ok (b : β) : Exact (· = b) (FirstFault []) (.ok b : Except ε β) :=
  ⟨fun _ => ⟨fun h => (Except.ok.inj h).symm, fun h => h ▸ rfl⟩,
    fun _ => iff_of_false (fun h => by cases h) not_firstFault_nil⟩

theorem error (e : ε) : Exact (fun _ => False) (· = e) (.error e : Except ε β) :=
  ⟨fun _ => iff_of_false (fun h => by cases h) id,
    fun _ => ⟨fun h => (Except.error.inj h).symm, fun h => h ▸ rfl⟩⟩

theorem congr (hx : Exact H F x) (hH : ∀ b, H b ↔ H' b) (hF : ∀ e, F e ↔ F' e) :
    Exact H' F' x :=
  ⟨fun b => (hx.ok_iff b).trans (hH b), fun e => (hx.error_iff e).trans (hF e)⟩

/-- Something is held exactly if nothing is at fault. -/
theorem exists_holds_iff (hx : Exact H F x) : (∃ b, H b) ↔ ∀ e, ¬ F e := by
  simp only [← hx.ok_iff, ← hx.error_iff]
  cases x <;> simp

/-- What is held is unique. -/
theorem holds_unique (hx : Exact H F x) {b c : β} (hb : H b) (hc : H c) : b = c :=
  Except.ok.inj (((hx.ok_iff b).mpr hb).symm.trans ((hx.ok_iff c).mpr hc))

/-- What the second reading looks at is what the first one returns. -/
theorem bind (hx : Exact H F x) (hf : ∀ b, H b → Exact (K b) (G b) (f b)) :
    Exact (fun c => ∃ b, H b ∧ K b c) (fun e => F e ∨ ∃ b, H b ∧ G b e) (x >>= f) := by
  cases x with
  | error d =>
    have hF : F d := (hx.error_iff d).mp rfl
    have hH (b : β) : ¬ H b := fun hb => hx.exists_holds_iff.mp ⟨b, hb⟩ d hF
    have hrun : (.error d >>= f : Except ε γ) = .error d := rfl
    rw [hrun]
    refine ⟨fun c => ?_, fun e => ?_⟩
    · exact iff_of_false (fun h => by cases h) fun ⟨b, hb, _⟩ => hH b hb
    · rw [or_iff_left fun ⟨b, hb, _⟩ => hH b hb, ← hx.error_iff, Except.error.injEq,
        Except.error.injEq]
  | ok a =>
    have ha : H a := (hx.ok_iff a).mp rfl
    have honly (P : β → Prop) : (∃ b, H b ∧ P b) ↔ P a :=
      ⟨fun ⟨b, hb, hP⟩ => hx.holds_unique hb ha ▸ hP, fun hP => ⟨a, ha, hP⟩⟩
    refine ⟨fun c => ((hf a ha).ok_iff c).trans (honly (K · c)).symm, fun e => ?_⟩
    rw [or_iff_right (hx.exists_holds_iff.mp ⟨a, ha⟩ e), honly (G · e)]
    exact (hf a ha).error_iff e

/-- The second reading has its places, whatever the first one returns. -/
theorem seq (hx : Exact H F x) (hf : ∀ b, H b → Exact (K b) (FirstFault places) (f b)) :
    Exact (fun c => ∃ b, H b ∧ K b c) (FirstFault (F :: places)) (x >>= f) := by
  refine (hx.bind hf).congr (fun c => Iff.rfl) fun e => ?_
  rw [firstFault_cons, exists_and_right, hx.exists_holds_iff]

theorem map (hx : Exact H F x) (g : β → γ) :
    Exact (fun c => ∃ b, H b ∧ c = g b) F (x >>= fun b => pure (g b)) := by
  refine (hx.bind fun b _ => ok (g b)).congr (fun c => Iff.rfl) fun e => ?_
  exact or_iff_left fun ⟨b, _, h⟩ => not_firstFault_nil h

/-- The items of a list are read one after the other, and the first one at fault is the fault of the
list. -/
theorem mapM {read : β → Except ε γ} {F : β → ε → Prop} (h : ∀ b, Exact (K b) (F b) (read b))
    (l : List β) : Exact (List.Forall₂ K l) (FirstFault (l.map F)) (l.mapM read) := by
  induction l with
  | nil => exact (ok []).congr (fun c => List.forall₂_nil_left_iff.symm) fun e => Iff.rfl
  | cons b l ih =>
    rw [List.mapM_cons]
    refine ((h b).seq fun c _ => ih.map (List.cons c)).congr (fun cs => ?_) fun e => Iff.rfl
    rw [List.forall₂_cons_left_iff]
    exact exists_congr fun c => exists_and_left.symm

theorem guard {p : Prop} [Decidable p] (b : β) (e : ε) :
    Exact (fun c => p ∧ c = b) (fun d => ¬ p ∧ d = e) (if p then pure b else throw e) := by
  by_cases h : p
  · rw [if_pos h]
    exact (ok b).congr (fun c => by simp [h]) fun d => by simp [h, not_firstFault_nil]
  · rw [if_neg h]
    exact (error e).congr (fun c => by simp [h]) fun d => by simp [h]

end Exact

namespace Attempt

variable {ρ σ : Type}

/-- What the attempt may return is what `Holds` says, apart from serial numbers. It fails with what
`Fault` says, for which `report` gives the error and the events that are noted. -/
structure Exact (Holds : β → Prop) (Fault : ρ → Prop) (report : ρ → ε × List Event)
    (x : Attempt ε β) : Prop where
  holds : ∀ b, x.MayReturn b → Holds b
  judged : ∃ v, x.Verdict v ∧ (v = none ↔ ∃ b, Holds b) ∧
    ∀ s, v = some s ↔ ∃ r, Fault r ∧ report r = s

namespace Exact

variable {H H' : β → Prop} {F : ρ → Prop} {report : ρ → ε × List Event}
  {report' : σ → ε × List Event} {x : Attempt ε β} {f : β → Attempt ε γ} {K : β → γ → Prop}
  {places : List (ρ → Prop)}

/-! ### Outcomes -/

theorem verdict_of_fault (hx : x.Exact H F report) {r : ρ} (hr : F r) :
    x.Verdict (some (report r)) := by
  obtain ⟨v, hv, -, hsome⟩ := hx.judged
  rwa [(hsome _).mpr ⟨r, hr, rfl⟩] at hv

theorem outcome_of_fault (hx : x.Exact H F report) {r : ρ} (hr : F r) (log : Log)
    (supply : Supply) : x.outcome log supply = (.error (report r).1, log ++ (report r).2) := by
  obtain ⟨y, hy⟩ := hx.verdict_of_fault hr
  rw [outcome, hy]
  rfl

theorem exists_run (hx : x.Exact H F report) {b : β} (hb : H b) (log : Log) (supply : Supply) :
    ∃ c supply', (x.run.run log).run supply = ((.ok c, log), supply') ∧ H c := by
  obtain ⟨v, hv, hnone, -⟩ := hx.judged
  rw [hnone.mpr ⟨b, hb⟩] at hv
  obtain ⟨y, hy⟩ := hv
  have hrun : (x.run.run log).run supply = ((.ok (y.run supply).1, log), (y.run supply).2) := by
    rw [hy]
    rfl
  exact ⟨_, _, hrun, hx.holds _ ⟨log, supply, by rw [outcome, hrun]⟩⟩

/-- Where something is held, nothing is at fault. -/
theorem not_fault (hx : x.Exact H F report) {b : β} (hb : H b) (r : ρ) : ¬ F r := by
  obtain ⟨v, -, hnone, hsome⟩ := hx.judged
  exact fun hr => by cases (hnone.mpr ⟨b, hb⟩).symm.trans ((hsome _).mpr ⟨r, hr, rfl⟩)

/-- Either something is held or something is at fault. -/
theorem holds_or_fault (hx : x.Exact H F report) : (∃ b, H b) ∨ ∃ r, F r := by
  obtain ⟨v, -, hnone, hsome⟩ := hx.judged
  cases v with
  | none => exact Or.inl (hnone.mp rfl)
  | some s =>
    obtain ⟨r, hr, -⟩ := (hsome s).mp rfl
    exact Or.inr ⟨r, hr⟩

theorem isOk_iff (hx : x.Exact H F report) (log : Log) (supply : Supply) :
    (∃ b, (x.outcome log supply).1 = .ok b) ↔ ∃ b, H b := by
  constructor
  · rintro ⟨b, hb⟩
    exact ⟨b, hx.holds b ⟨log, supply, hb⟩⟩
  · rintro ⟨b, hb⟩
    obtain ⟨c, supply', hrun, -⟩ := hx.exists_run hb log supply
    exact ⟨c, by rw [outcome, hrun]⟩

theorem error_iff (hx : x.Exact H F report) (log : Log) (supply : Supply) (e : ε) :
    (x.outcome log supply).1 = .error e ↔ ∃ r, F r ∧ (report r).1 = e := by
  constructor
  · intro he
    rcases hx.holds_or_fault with ⟨b, hb⟩ | ⟨r, hr⟩
    · obtain ⟨c, hc⟩ := (hx.isOk_iff log supply).mpr ⟨b, hb⟩
      cases hc.symm.trans he
    · rw [hx.outcome_of_fault hr] at he
      exact ⟨r, hr, Except.error.inj he⟩
  · rintro ⟨r, hr, rfl⟩
    rw [hx.outcome_of_fault hr]

theorem log_of_ok (hx : x.Exact H F report) {log : Log} {supply : Supply} {b : β}
    (hb : (x.outcome log supply).1 = .ok b) : (x.outcome log supply).2 = log := by
  obtain ⟨c, supply', hrun, -⟩ := hx.exists_run (hx.holds b ⟨log, supply, hb⟩) log supply
  rw [outcome, hrun]

/-! ### Steps -/

/-- The same format may be described differently. -/
theorem congr {F' : ρ → Prop} (hx : x.Exact H F report) (hH : ∀ b, H b → H' b)
    (hex : (∃ b, H' b) → ∃ b, H b) (hF : ∀ r, F r ↔ F' r) : x.Exact H' F' report := by
  obtain ⟨v, hv, hnone, hsome⟩ := hx.judged
  exact ⟨fun b hb => hH b (hx.holds b hb),
    v, hv, hnone.trans ⟨fun ⟨b, hb⟩ => ⟨b, hH b hb⟩, hex⟩,
    fun s => (hsome s).trans (exists_congr fun r => and_congr_left fun _ => hF r)⟩

/-- The faults may be told in other words. -/
theorem reword (hx : x.Exact H F report) (g : ρ → σ) (hg : ∀ r, report' (g r) = report r) :
    x.Exact H (fun s => ∃ r, F r ∧ s = g r) report' := by
  obtain ⟨v, hv, hnone, hsome⟩ := hx.judged
  refine ⟨hx.holds, v, hv, hnone, fun s => (hsome s).trans ?_⟩
  constructor
  · rintro ⟨r, hr, rfl⟩
    exact ⟨g r, ⟨r, hr, rfl⟩, hg r⟩
  · rintro ⟨-, ⟨r, hr, rfl⟩, rfl⟩
    exact ⟨r, hr, (hg r).symm⟩

theorem accept {b : β} (hb : H b) (hF : ∀ r, ¬ F r) : (pure b : Attempt ε β).Exact H F report := by
  refine ⟨fun c hc => ?_, none, .pure b, iff_of_true rfl ⟨b, hb⟩, fun s => ?_⟩
  · obtain rfl := mayReturn_pure.mp hc
    exact hb
  · exact iff_of_false (fun h => by cases h) fun ⟨r, hr, _⟩ => hF r hr

theorem refuse {r : ρ} {e : ε} (hr : report r = (e, [])) (hH : ∀ b, ¬ H b)
    (hF : ∀ r', F r' ↔ r' = r) : (throw e : Attempt ε β).Exact H F report := by
  refine ⟨fun b hb => absurd hb not_mayReturn_throw, some (e, []), .throw e, ?_, fun s => ?_⟩
  · exact iff_of_false (fun h => by cases h) fun ⟨b, hb⟩ => hH b hb
  · constructor
    · rintro ⟨⟩
      exact ⟨r, (hF r).mpr rfl, hr⟩
    · rintro ⟨r', hr', rfl⟩
      rw [(hF r').mp hr', hr]

theorem pure (b : β) (report : ρ → ε × List Event) :
    (pure b : Attempt ε β).Exact (· = b) (FirstFault []) report :=
  accept rfl fun _ => not_firstFault_nil

theorem lift_field {H : β → Prop} {F : FieldError → Prop} {y : Except FieldError β}
    (hy : PluginClosure.Exact H F y) :
    (liftM y : Attempt RecordError β).Exact H F fun d => (.field d, []) := by
  refine ⟨fun b hb => (hy.ok_iff b).mp (mayReturn_lift_field.mp hb), _, .lift_field y, ?_⟩
  simp only [← hy.ok_iff, ← hy.error_iff]
  cases y with
  | ok b => simp
  | error d => simp [eq_comm]

theorem lift_fresh (y : Fresh β) (report : ρ → ε × List Event) :
    (liftM y : Attempt ε β).Exact (fun b => ∃ supply, (y.run supply).1 = b) (FirstFault [])
      report :=
  ⟨fun _ => mayReturn_lift_fresh.mp, none, .lift_fresh y,
    iff_of_true rfl ⟨(y.run {}).1, {}, rfl⟩,
    fun _ => iff_of_false (fun h => by cases h) fun ⟨_, h, _⟩ => not_firstFault_nil h⟩

/-- The second attempt has its places, whatever the first one returns. -/
theorem seq (hx : x.Exact H F report)
    (hf : ∀ b, (f b).Exact (K b) (FirstFault places) report) :
    (x >>= f).Exact (fun c => ∃ b, H b ∧ K b c) (FirstFault (F :: places)) report := by
  have hreturn (c : γ) (hc : (x >>= f).MayReturn c) : ∃ b, H b ∧ K b c := by
    obtain ⟨b, hb, hc⟩ := hc.of_bind
    exact ⟨b, hx.holds b hb, (hf b).holds c hc⟩
  obtain ⟨v, hv, hnone, hsome⟩ := hx.judged
  cases v with
  | some s =>
    obtain ⟨r, hr, rfl⟩ := (hsome s).mp rfl
    have hH (b : β) : ¬ H b := fun hb => by cases hnone.mpr ⟨b, hb⟩
    refine ⟨hreturn, some (report r), hv.bind_of_fails, ?_, fun s => (hsome s).trans ?_⟩
    · exact iff_of_false (fun h => by cases h) fun ⟨c, b, hb, _⟩ => hH b hb
    · refine exists_congr fun r' => and_congr_left fun _ => ?_
      rw [firstFault_cons]
      exact (or_iff_left fun ⟨hn, _⟩ => hn r hr).symm
  | none =>
    obtain ⟨b, hb⟩ := hnone.mp rfl
    have hF (r : ρ) : ¬ F r := fun hr => by cases (hsome _).mpr ⟨r, hr, rfl⟩
    obtain ⟨u, hu, hunone, husome⟩ := (hf b).judged
    -- The second attempts are judged by the same places, and have therefore the same verdict.
    have hall (c : β) : (f c).Verdict u ∧ (u = none ↔ ∃ d, K c d) := by
      obtain ⟨w, hw, hwnone, hwsome⟩ := (hf c).judged
      obtain rfl : w = u := Option.ext fun s => (hwsome s).trans (husome s).symm
      exact ⟨hw, hwnone⟩
    have hbind := hv.bind fun c => (hall c).1
    rw [Option.none_or] at hbind
    refine ⟨hreturn, u, hbind, ?_, fun s => (husome s).trans ?_⟩
    · rw [(hall b).2]
      exact ⟨fun ⟨d, hd⟩ => ⟨d, b, hb, hd⟩,
        fun ⟨d, c, _, hd⟩ => (hall b).2.mp ((hall c).2.mpr ⟨d, hd⟩)⟩
    · refine exists_congr fun r => and_congr_left fun _ => ?_
      rw [firstFault_cons]
      exact (or_iff_right (hF r)).trans (and_iff_right hF) |>.symm

/-- Of a failure it is noted at the end that it happened. -/
theorem onFailure (hx : x.Exact H F report) (event : ε → Event) :
    (onFailure event x).Exact H F fun r =>
      ((report r).1, (report r).2 ++ [event (report r).1]) := by
  obtain ⟨v, hv, hnone, hsome⟩ := hx.judged
  refine ⟨fun b hb => hx.holds b (mayReturn_onFailure.mp hb), _, hv.onFailure event, ?_, ?_⟩
  · rw [Option.map_eq_none_iff, hnone]
  · intro s
    rw [Option.map_eq_some_iff]
    constructor
    · rintro ⟨t, ht, rfl⟩
      obtain ⟨r, hr, rfl⟩ := (hsome t).mp ht
      exact ⟨r, hr, rfl⟩
    · rintro ⟨r, hr, rfl⟩
      exact ⟨report r, (hsome _).mpr ⟨r, hr, rfl⟩, rfl⟩

end Exact

end Attempt

end PluginClosure
