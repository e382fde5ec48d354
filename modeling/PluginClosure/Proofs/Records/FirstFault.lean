import Mathlib.Data.List.Basic
import Mathlib.Data.Option.Basic

/-!
# First faults

Whatever looks at several things one after the other, and stops at the first one that is at fault,
fails exactly if something is at fault, and its error tells of the first such thing.

## Main definitions

* `PluginClosure.FirstWith`: the first element of a list with a property.
* `PluginClosure.Blames`: an outcome that is an error because of the first fault in a list.
* `PluginClosure.FirstFault`: the errors of the first place at fault.

## Main results

* `PluginClosure.exists_firstWith_iff`: where something has the property, something is the first.
* `PluginClosure.blames_of_find?`: an outcome that is computed in the same way as a search.
* `PluginClosure.Blames.error_iff`: the same faults make the same errors.
* `PluginClosure.firstFault_cons`: places are looked at one after the other.
-/

namespace PluginClosure

variable {β γ δ ε : Type}

/-- Of the elements for which `P` is true, this is the first one of the list. -/
def FirstWith (P : β → Prop) (l : List β) (b : β) : Prop :=
  ∃ before after, l = before ++ b :: after ∧ (∀ c ∈ before, ¬ P c) ∧ P b

variable {P : β → Prop} {l : List β}

theorem firstWith_iff_find? [DecidablePred P] {b : β} :
    FirstWith P l b ↔ l.find? P = some b := by
  rw [List.find?_eq_some_iff_append, decide_eq_true_iff]
  constructor
  · rintro ⟨before, after, hl, hbefore, hb⟩
    exact ⟨hb, before, after, hl, fun c hc => by simp [hbefore c hc]⟩
  · rintro ⟨hb, before, after, hl, hbefore⟩
    exact ⟨before, after, hl, fun c hc => by simpa using hbefore c hc, hb⟩

theorem exists_firstWith_iff : (∃ b, FirstWith P l b) ↔ ∃ b ∈ l, P b := by
  classical
  simp only [firstWith_iff_find?, ← Option.isSome_iff_exists, List.find?_isSome, decide_eq_true_iff]

theorem firstWith_cons {b c : β} :
    FirstWith P (b :: l) c ↔ P b ∧ c = b ∨ ¬ P b ∧ FirstWith P l c := by
  classical
  rw [firstWith_iff_find?, firstWith_iff_find?, List.find?_cons]
  by_cases h : P b
  · simp [h, eq_comm]
  · simp [h]

/-- The outcome is an error exactly if `P` is true of something in the list, and the error belongs
to the first such thing. -/
structure Blames (P : β → Prop) (error : β → ε) (l : List β) (x : Except ε γ) : Prop where
  isError : (∃ e, x = .error e) ↔ ∃ b ∈ l, P b
  eq_error : ∀ e, x = .error e ↔ ∃ b, FirstWith P l b ∧ e = error b

variable {error : β → ε} {x : Except ε γ}

theorem blames_of_find? [DecidablePred P]
    (h : (∃ b, l.find? P = some b ∧ x = .error (error b)) ∨
      (l.find? P = none ∧ ∃ c, x = .ok c)) : Blames P error l x := by
  have hx (e : ε) : x = .error e ↔ ∃ b, FirstWith P l b ∧ e = error b := by
    simp only [firstWith_iff_find?]
    rcases h with ⟨b, hb, rfl⟩ | ⟨hn, c, rfl⟩
    · simp [hb, eq_comm]
    · simp [hn]
  refine ⟨?_, hx⟩
  rw [← exists_firstWith_iff]
  constructor
  · rintro ⟨e, he⟩
    obtain ⟨b, hb, -⟩ := (hx e).mp he
    exact ⟨b, hb⟩
  · rintro ⟨b, hb⟩
    exact ⟨_, (hx _).mpr ⟨b, hb, rfl⟩⟩

/-- Outcomes that are errors because of the same faults are the same errors. -/
theorem Blames.error_iff {y : Except ε δ} (hx : Blames P error l x) (hy : Blames P error l y)
    (e : ε) : x = .error e ↔ y = .error e :=
  (hx.eq_error e).trans (hy.eq_error e).symm

/-- Without a fault there is a result. -/
theorem Blames.isOk (h : Blames P error l x) : (∃ c, x = .ok c) ↔ ∀ b ∈ l, ¬ P b := by
  have hiff : (∃ c, x = .ok c) ↔ ¬ ∃ e, x = .error e := by
    cases x <;> simp
  rw [hiff, h.isError]
  simp only [not_exists, not_and]

/-! ### Places -/

/-- Each place of a list is given by the errors that it is at fault with. The error is one of the
first place that is at fault. -/
def FirstFault (l : List (ε → Prop)) (e : ε) : Prop :=
  ∃ F, FirstWith (fun F => ∃ d, F d) l F ∧ F e

variable {F : ε → Prop} {places : List (ε → Prop)} {e : ε}

theorem not_firstFault_nil : ¬ FirstFault [] e := by
  rintro ⟨F, ⟨before, after, h, -⟩, -⟩
  exact List.append_ne_nil_of_right_ne_nil before (List.cons_ne_nil F after) h.symm

/-- Later places are looked at if the first one is not at fault. -/
theorem firstFault_cons :
    FirstFault (F :: places) e ↔ F e ∨ (∀ d, ¬ F d) ∧ FirstFault places e := by
  simp only [FirstFault, firstWith_cons, not_exists]
  constructor
  · rintro ⟨G, ⟨-, rfl⟩ | ⟨hF, hG⟩, he⟩
    · exact Or.inl he
    · exact Or.inr ⟨hF, G, hG, he⟩
  · rintro (he | ⟨hF, G, hG, he⟩)
    · exact ⟨F, Or.inl ⟨⟨e, he⟩, rfl⟩, he⟩
    · exact ⟨G, Or.inr ⟨hF, hG⟩, he⟩

theorem firstFault_singleton : FirstFault [F] e ↔ F e :=
  firstFault_cons.trans (or_iff_left fun h => not_firstFault_nil h.2)

end PluginClosure
