import PluginClosure.Target
import PluginClosure.Proofs.Records.Union

/-!
# Attempts in histories

An attempt creates objects like any computation, notes events besides, and may fail. What it
promises is stated for the case that it succeeds: the result is related to the inventory afterwards,
whatever has been noted before. The inventory afterwards belongs to the same history even if the
attempt fails.

## Main definitions

* `PluginClosure.Attempt.outcome`: the result or the error, and what has been noted.
* `PluginClosure.Slots.Within`: slots with records at hand.
* `PluginClosure.Inventory.Attempts`: attempts as pieces of histories.

## Main results

* `PluginClosure.Attempt.run_bind`, `PluginClosure.Attempt.run_onFailure`: attempts, step by step.
* `PluginClosure.Inventory.Attempts.bind`, `PluginClosure.Inventory.Attempts.onFailure`,
  `PluginClosure.Inventory.Attempts.lift`: attempts in sequence, and lifted computations.
-/

namespace PluginClosure

variable {ε β γ : Type}

namespace Attempt

theorem run_note (e : Event) (log : Log) :
    (note e : Attempt ε Unit).run.run log = pure (.ok (), log ++ [e]) := rfl

theorem run_bind (x : Attempt ε β) (f : β → Attempt ε γ) (log : Log) :
    (x >>= f).run.run log = (x.run.run log) >>= fun r => match r with
      | (.ok b, log) => (f b).run.run log
      | (.error e, log) => pure (.error e, log) := by
  rw [ExceptT.run_bind, StateT.run_bind]
  congr 1
  funext ⟨r, log⟩
  cases r <;> rfl

theorem run_onFailure (event : ε → Event) (x : Attempt ε β) (log : Log) :
    (onFailure event x).run.run log = (x.run.run log) >>= fun r => match r with
      | (.ok b, log) => pure (.ok b, log)
      | (.error e, log) => pure (.error e, log ++ [event e]) := by
  rw [onFailure, ExceptT.run_tryCatch, StateT.run_bind]
  congr 1
  funext ⟨r, log⟩
  cases r <;> rfl

theorem run_mapError {δ : Type} (f : ε → δ) (x : Attempt ε β) (log : Log) :
    (mapError f x).run.run log = (fun r => (r.1.mapError f, r.2)) <$> (x.run.run log) := rfl

/-- A computation that cannot note events leaves the log as it is. -/
theorem run_lift (x : ExceptT ε Fresh β) (log : Log) :
    (liftM x : Attempt ε β).run.run log = (fun r => (r, log)) <$> x.run := rfl

theorem run_lift_fresh (x : Fresh β) (log : Log) :
    (liftM x : Attempt ε β).run.run log = (fun b => (.ok b, log)) <$> x := rfl

theorem run_lift_field (x : Except FieldError β) (log : Log) :
    (liftM x : Attempt RecordError β).run.run log = pure (x.mapError .field, log) := rfl

/-- What an attempt comes to that starts with the given log and supply, and what has been noted in
the end. -/
def outcome (x : Attempt ε β) (log : Log) (supply : Supply) : Except ε β × Log :=
  ((x.run.run log).run supply).1

end Attempt

/-- The records that the slots hold are at hand. -/
structure Slots.Within (x : Slots) (i : Inventory) : Prop where
  current : ∀ r ∈ x.current, r ∈ i.providers
  legacy : ∀ r ∈ x.legacy, r ∈ i.providers

namespace Inventory

variable {i : Inventory} {P : β → Inventory → Prop} {Q : γ → Inventory → Prop}

/-- Run in the inventory, whatever has been noted before, the attempt is a piece of a history. If it
succeeds, `P` is true of its result and of the inventory afterwards. -/
def Attempts (i : Inventory) (x : Attempt ε β) (P : β → Inventory → Prop) : Prop :=
  ∀ log, i.Yields (x.run.run log) fun r j => ∀ b, r.1 = .ok b → P b j

namespace Attempts

variable {x : Attempt ε β}

theorem pure {b : β} (h : P b i) : i.Attempts (pure b : Attempt ε β) P := by
  intro log
  refine Yields.pure ?_
  rintro _ ⟨⟩
  exact h

theorem throw (e : ε) : i.Attempts (throw e : Attempt ε β) P := by
  intro log
  refine Yields.pure ?_
  rintro _ ⟨⟩

theorem note (e : Event) : i.Attempts (Attempt.note e : Attempt ε Unit) fun _ _ => True :=
  fun _ => Yields.pure fun _ _ => trivial

theorem bind {f : β → Attempt ε γ} (hx : i.Attempts x P)
    (hf : ∀ b j, i.Leads j → P b j → j.Attempts (f b) Q) : i.Attempts (x >>= f) Q := by
  intro log
  rw [Attempt.run_bind]
  refine (hx log).bind fun r j hj hr => ?_
  obtain ⟨e | b, log⟩ := r
  · refine .pure ?_
    rintro _ ⟨⟩
  · exact hf b j hj (hr b rfl) log

theorem onFailure (hx : i.Attempts x P) (event : ε → Event) :
    i.Attempts (Attempt.onFailure event x) P := by
  intro log
  rw [Attempt.run_onFailure]
  refine (hx log).bind fun r j _ hr => ?_
  obtain ⟨e | b, log⟩ := r
  · refine .pure ?_
    rintro _ ⟨⟩
  · exact .pure hr

theorem mapError {δ : Type} (hx : i.Attempts x P) (f : ε → δ) :
    i.Attempts (Attempt.mapError f x) P := by
  intro log
  rw [Attempt.run_mapError]
  refine (hx log).map fun r j _ hr b hb => ?_
  obtain ⟨e | c, log⟩ := r
  · cases hb
  · cases hb
    exact hr _ rfl

theorem lift {y : ExceptT ε Fresh β} (hy : i.Yields y.run fun r j => ∀ b, r = .ok b → P b j) :
    i.Attempts (liftM y : Attempt ε β) P := by
  intro log
  rw [Attempt.run_lift]
  exact hy.map fun r j _ hr => hr

theorem lift_fresh {y : Fresh β} (hy : i.Yields y P) : i.Attempts (liftM y : Attempt ε β) P := by
  intro log
  rw [Attempt.run_lift_fresh]
  refine hy.map fun b j _ hb c hc => ?_
  cases hc
  exact hb

/-- A reading of a field creates nothing. -/
theorem lift_field {y : Except FieldError β} (hy : ∀ b, y = .ok b → P b i) :
    i.Attempts (liftM y : Attempt RecordError β) P := by
  intro log
  rw [Attempt.run_lift_field]
  refine .pure fun b hb => ?_
  cases y with
  | error e => cases hb
  | ok c =>
    cases hb
    exact hy _ rfl

end Attempts

end Inventory

end PluginClosure
