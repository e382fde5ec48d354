import PluginClosure.Value.Basic
import PluginClosure.Proofs.Records.ExactReadings

/-!
# Formats of fields

The formats of records are put together from a few forms. A value is of some kind, and is refused if
it is not. A list has items of one format. A field is required, or may be left out, and then
something stands in for its value. For a field that is required, this is an error; for one that may
be left out, it is what the field would otherwise have held.

## Main definitions

* `PluginClosure.Value.Unfit`: the refusal of a value of another kind.
* `PluginClosure.Value.HoldsItems`, `PluginClosure.Value.ItemsFault`: lists.
* `PluginClosure.Fields.Present`, `PluginClosure.Fields.PresentOr`: what is said of the value in a
  field.

## Main results

* `PluginClosure.Value.exact_items`: a list is read exactly if its items are.
* `PluginClosure.Fields.exact_required`, `PluginClosure.Fields.exact_optional`: the same for fields.
-/

namespace PluginClosure

variable {β γ : Type}

/-! ### Values -/

namespace Value

variable {Holds : Value → β → Prop} {name : String} {d : Demand} {v : Value}

/-- The value holds nothing of what its field is to hold. -/
def Unfit (Holds : Value → β → Prop) (name : String) (d : Demand) (v : Value) (e : FieldError) :
    Prop :=
  (∀ b, ¬ Holds v b) ∧ e = .wrongKind name v.kind d

/-- What is held is returned. If nothing is held, the value is refused for its kind. -/
theorem exact_of_holds {x : Except FieldError β} (hok : ∀ b, Holds v b → x = .ok b)
    (hrefuse : (∀ b, ¬ Holds v b) → x = v.refuse name d) :
    Exact (Holds v) (v.Unfit Holds name d) x := by
  by_cases h : ∃ b, Holds v b
  · obtain ⟨b, hb⟩ := h
    obtain rfl := hok b hb
    refine (Exact.ok b).congr (fun c => ⟨fun h => h ▸ hb, fun hc => ?_⟩) fun e => ?_
    · exact (Except.ok.inj (hok c hc)).symm
    · exact iff_of_false not_firstFault_nil fun hu => hu.1 b hb
  · have hn (b : β) : ¬ Holds v b := fun hb => h ⟨b, hb⟩
    rw [hrefuse hn]
    exact (Exact.error _).congr (fun b => iff_of_false id (hn b)) fun _ => (and_iff_right hn).symm

/-- The value is the file. -/
def HoldsFile (v : Value) (c : File) : Prop := v = .file c

/-- The value is the file, or the absent value if there is none. -/
inductive HoldsOptionalFile : Value → Option File → Prop
  | none : HoldsOptionalFile .none Option.none
  | file (c : File) : HoldsOptionalFile (.file c) (some c)

/-- The value is the struct with these fields. -/
def HoldsStruct (v : Value) (f : Fields Value) : Prop := v = .struct f

/-- The value is the list. -/
def HoldsList (v : Value) (l : List Value) : Prop := v = .list l

theorem exact_struct? (v : Value) (name : String) :
    Exact v.HoldsStruct (v.Unfit HoldsStruct name (.exactly .struct)) (v.struct? name) := by
  refine exact_of_holds (by rintro f rfl; rfl) fun hn => ?_
  cases v with
  | struct f => exact absurd rfl (hn f)
  | _ => rfl

theorem exact_list? (v : Value) (name : String) :
    Exact v.HoldsList (v.Unfit HoldsList name (.exactly .list)) (v.list? name) := by
  refine exact_of_holds (by rintro l rfl; rfl) fun hn => ?_
  cases v with
  | list l => exact absurd rfl (hn l)
  | _ => rfl

theorem exact_file? (v : Value) (name : String) :
    Exact v.HoldsFile (v.Unfit HoldsFile name (.exactly .file)) (v.file? name) := by
  refine exact_of_holds (by rintro c rfl; rfl) fun hn => ?_
  cases v with
  | file c => exact absurd rfl (hn c)
  | _ => rfl

theorem exact_optionalFile? (v : Value) (name : String) :
    Exact v.HoldsOptionalFile (v.Unfit HoldsOptionalFile name (.optional .file))
      (v.optionalFile? name) := by
  refine exact_of_holds (fun c hc => by cases hc <;> rfl) fun hn => ?_
  cases v with
  | none => exact absurd .none (hn Option.none)
  | file c => exact absurd (.file c) (hn (some c))
  | _ => rfl

/-! ### Lists -/

/-- The value is a list, and its items hold the given ones, in the same sequence. -/
inductive HoldsItems (Holds : Value → β → Prop) : Value → List β → Prop
  | list {l : List Value} {bs : List β} (h : List.Forall₂ Holds l bs) :
      HoldsItems Holds (.list l) bs

/-- What is at fault with a value that is to be a list. -/
inductive ItemsFault (Fault : Value → FieldError → Prop) (name : String) :
    Value → FieldError → Prop
  | kind {v : Value} (h : ∀ l, v ≠ .list l) :
      ItemsFault Fault name v (.wrongKind name v.kind (.exactly .list))
  | item {l : List Value} {e : FieldError} (h : FirstFault (l.map Fault) e) :
      ItemsFault Fault name (.list l) e

theorem exact_items {Fault : Value → FieldError → Prop} {read : Value → Except FieldError β}
    (hread : ∀ v, Exact (Holds v) (Fault v) (read v)) (v : Value) (name : String) :
    Exact (v.HoldsItems Holds) (v.ItemsFault Fault name)
      (v.list? name >>= fun l => l.mapM read) := by
  refine ((v.exact_list? name).bind fun l _ => Exact.mapM hread l).congr (fun bs => ?_) fun e => ?_
  · constructor
    · rintro ⟨l, rfl, h⟩
      exact .list h
    · rintro ⟨h⟩
      exact ⟨_, rfl, h⟩
  · constructor
    · rintro (⟨hn, rfl⟩ | ⟨l, rfl, h⟩)
      · exact .kind hn
      · exact .item h
    · rintro (hn | h)
      · exact Or.inl ⟨hn, rfl⟩
      · exact Or.inr ⟨_, rfl, h⟩

end Value

/-! ### Fields -/

namespace Fields

variable {f : Fields Value} {name : String}

/-- The field has a value of which `c` is true. -/
def Present (R : Value → γ → Prop) (f : Fields Value) (name : String) (c : γ) : Prop :=
  ∃ v, f.get? name = some v ∧ R v c

/-- The field has a value of which `c` is true, or there is no such field, and `c` is what stands in
for it. -/
def PresentOr (R : Value → γ → Prop) (substitute : γ) (f : Fields Value) (name : String) (c : γ) :
    Prop :=
  f.get? name = none ∧ c = substitute ∨ f.Present R name c

variable {Holds : Value → β → Prop} {Fault : Value → FieldError → Prop}
  {read : Value → Except FieldError β}

theorem exact_require (f : Fields Value) (name : String) :
    Exact (fun v => f.get? name = some v) (fun e => f.get? name = none ∧ e = .missing name)
      (f.require name) := by
  rw [require]
  cases f.get? name with
  | none => exact (Exact.error _).congr (fun v => by simp) fun e => by simp
  | some w =>
    refine (Exact.ok w).congr (fun v => by simp [eq_comm]) fun e => ?_
    exact iff_of_false not_firstFault_nil fun h => Option.some_ne_none w h.1

/-- A field that is required. -/
theorem exact_required (hread : ∀ v, Exact (Holds v) (Fault v) (read v)) (f : Fields Value)
    (name : String) :
    Exact (f.Present Holds name) (f.PresentOr Fault (.missing name) name)
      (f.require name >>= read) :=
  (f.exact_require name).bind fun v _ => hread v

/-- A field that may be left out. -/
theorem exact_optional (hread : ∀ v, Exact (Holds v) (Fault v) (read v)) (substitute : β)
    (f : Fields Value) (name : String) :
    Exact (f.PresentOr Holds substitute name) (f.Present Fault name)
      (match f.get? name with
        | none => pure substitute
        | some v => read v) := by
  cases h : f.get? name with
  | none =>
    refine (Exact.ok substitute).congr (fun b => by simp [PresentOr, Present, h]) fun e => ?_
    exact iff_of_false not_firstFault_nil fun ⟨v, hv, _⟩ => by cases h.symm.trans hv
  | some v =>
    exact (hread v).congr (fun b => by simp [PresentOr, Present, h]) fun e => by simp [Present, h]

end Fields

end PluginClosure
