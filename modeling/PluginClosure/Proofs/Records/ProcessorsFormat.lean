import PluginClosure.Proofs.Records.Decoded
import PluginClosure.Proofs.Records.FieldFormats

/-!
# The format of processors

A value is read as a record of processors if it is one, or if it is a struct with three fields, each
of which holds a set in the order of records. Strings are expected in the first field and files in
the other two, but an empty set of the wrong elements will do. Whatever else the struct holds does
not matter.

The fields are looked at one after the other. A field is at fault if it is missing, if it holds
anything but a set of the right elements, or if it holds such a set in another order. The order is
the last thing to be looked at, also for an empty set.

## Main definitions

* `PluginClosure.Value.HoldsStrings`, `PluginClosure.Value.HoldsFiles`: what a value is taken for
  where a set is expected.
* `PluginClosure.Value.HoldsProcessors`: the format.
* `PluginClosure.Value.ProcessorsFault`: what is at fault with any other value.

## Main results

* `PluginClosure.Processors.exact_ofValue`: the reading of records of processors is exact.
* `PluginClosure.processors_format`: which values are read, and why the others are not.
-/

namespace PluginClosure

variable {α : Type}

/-! ### What values hold -/

namespace Value

/-- The value is taken for the set where a set of strings is expected. -/
inductive HoldsStrings : Value → TransitiveSet String → Prop
  | strings (s : TransitiveSet String) : HoldsStrings (.strings s) s
  | files {s : TransitiveSet File} (h : s.isEmpty = true) : HoldsStrings (.files s) (.empty s.order)

/-- The value is taken for the set where a set of files is expected. -/
inductive HoldsFiles : Value → TransitiveSet File → Prop
  | files (s : TransitiveSet File) : HoldsFiles (.files s) s
  | strings {s : TransitiveSet String} (h : s.isEmpty = true) :
      HoldsFiles (.strings s) (.empty s.order)

theorem exact_strings? (v : Value) (name : String) :
    Exact v.HoldsStrings (v.Unfit HoldsStrings name (.exactly (.set .string)))
      (v.strings? name) := by
  refine exact_of_holds ?_ fun hn => ?_
  · rintro _ (_ | h)
    · rfl
    · exact if_pos h
  · cases v with
    | strings s => exact absurd (.strings s) (hn s)
    | files s => exact if_neg fun h => hn _ (.files h)
    | _ => rfl

theorem exact_files? (v : Value) (name : String) :
    Exact v.HoldsFiles (v.Unfit HoldsFiles name (.exactly (.set .file))) (v.files? name) := by
  refine exact_of_holds ?_ fun hn => ?_
  · rintro _ (_ | h)
    · rfl
    · exact if_pos h
  · cases v with
    | files s => exact absurd (.files s) (hn s)
    | strings s => exact if_neg fun h => hn _ (.strings h)
    | _ => rfl

end Value

/-! ### What fields hold -/

namespace Fields

variable {f : Fields Value} {name : String}

/-- The field holds the set, in the order of records. -/
def HoldsSet (Holds : Value → TransitiveSet α → Prop) (f : Fields Value) (name : String)
    (s : TransitiveSet α) : Prop :=
  ∃ v, f.get? name = some v ∧ Holds v s ∧ s.order = Processors.order

/-- What is at fault with a field that is to hold a set. -/
inductive SetFault (k : ElementKind) (Holds : Value → TransitiveSet α → Prop) (f : Fields Value)
    (name : String) : FieldError → Prop
  | missing (h : f.get? name = none) : SetFault k Holds f name (.missing name)
  | kind {v : Value} (hv : f.get? name = some v) (h : ∀ s, ¬ Holds v s) :
      SetFault k Holds f name (.wrongKind name v.kind (.exactly (.set k)))
  | order {v : Value} {s : TransitiveSet α} (hv : f.get? name = some v) (hs : Holds v s)
      (h : s.order ≠ Processors.order) :
      SetFault k Holds f name (.wrongOrder name v.kind s.order (.set k) Processors.order)

theorem HoldsSet.order_eq {Holds : Value → TransitiveSet α → Prop} {s : TransitiveSet α}
    (h : f.HoldsSet Holds name s) : s.order = Processors.order := by
  obtain ⟨-, -, -, ho⟩ := h
  exact ho

/-- The fields hold the three sets of a record. -/
structure HoldsSets (f : Fields Value) (classes : TransitiveSet String)
    (classpath data : TransitiveSet File) : Prop where
  classes : f.HoldsSet Value.HoldsStrings Processors.classesField classes
  classpath : f.HoldsSet Value.HoldsFiles Processors.classpathField classpath
  data : f.HoldsSet Value.HoldsFiles Processors.dataField data

/-- What may be at fault with a struct for a record of processors, field by field. -/
def setFaults (f : Fields Value) : List (FieldError → Prop) := [
  f.SetFault .string Value.HoldsStrings Processors.classesField,
  f.SetFault .file Value.HoldsFiles Processors.classpathField,
  f.SetFault .file Value.HoldsFiles Processors.dataField]

end Fields

/-- The value is the record, or a struct with the sets of the record. -/
inductive Value.HoldsProcessors : Value → Processors → Prop
  | processors (p : Processors) : HoldsProcessors (.processors p) p
  | struct {f : Fields Value} {p : Processors} (h : f.HoldsSets p.classes p.classpath p.data) :
      HoldsProcessors (.struct f) p

/-- What is at fault with a value that is to be a record of processors. -/
inductive Value.ProcessorsFault : Value → RecordError → Prop
  | struct {f : Fields Value} {d : FieldError} (h : FirstFault f.setFaults d) :
      ProcessorsFault (.struct f) (.field d)
  | kind {v : Value} (hp : ∀ p, v ≠ .processors p) (hf : ∀ f, v ≠ .struct f) :
      ProcessorsFault v (.wrongRecord v.kind .processors)

namespace Value

variable {f : Fields Value} {v : Value} {p : Processors} {e : RecordError}

theorem holdsProcessors_struct_iff :
    (Value.struct f).HoldsProcessors p ↔ f.HoldsSets p.classes p.classpath p.data := by
  refine ⟨fun h => ?_, .struct⟩
  cases h with | struct h => exact h

theorem processorsFault_struct_iff :
    (Value.struct f).ProcessorsFault e ↔ ∃ d, FirstFault f.setFaults d ∧ e = .field d := by
  constructor
  · rintro (h | ⟨-, hf⟩)
    · exact ⟨_, h, rfl⟩
    · exact absurd rfl (hf f)
  · rintro ⟨d, hd, rfl⟩
    exact .struct hd

theorem processorsFault_kind_iff (hp : ∀ p, v ≠ .processors p) (hf : ∀ f, v ≠ .struct f) :
    v.ProcessorsFault e ↔ e = .wrongRecord v.kind .processors := by
  constructor
  · rintro (h | -)
    · exact absurd rfl (hf _)
    · rfl
  · rintro rfl
    exact .kind hp hf

end Value

/-! ### Readings -/

namespace Processors

variable {f : Fields Value} {p : Processors}

theorem exact_readSet (k : ElementKind) (Holds : Value → TransitiveSet α → Prop)
    {read : Value → String → Except FieldError (TransitiveSet α)} (f : Fields Value) (name : String)
    (hread : ∀ v : Value, Exact (Holds v) (v.Unfit Holds name (.exactly (.set k))) (read v name)) :
    Exact (f.HoldsSet Holds name) (f.SetFault k Holds name) (readSet k read f name) := by
  refine ((f.exact_require name).bind fun v _ =>
    (hread v).bind fun s _ => Exact.guard s _).congr (fun s => ?_) fun e => ?_
  · simp only [Fields.HoldsSet]
    constructor
    · rintro ⟨v, hv, t, ht, ho, rfl⟩
      exact ⟨v, hv, ht, ho⟩
    · rintro ⟨v, hv, hs, ho⟩
      exact ⟨v, hv, s, hs, ho, rfl⟩
  · constructor
    · rintro (⟨hn, rfl⟩ | ⟨v, hv, ⟨hn, rfl⟩ | ⟨s, hs, ho, rfl⟩⟩)
      · exact .missing hn
      · exact .kind hv hn
      · exact .order hv hs ho
    · rintro (hn | ⟨hv, hn⟩ | ⟨hv, hs, ho⟩)
      · exact Or.inl ⟨hn, rfl⟩
      · exact Or.inr ⟨_, hv, Or.inl ⟨hn, rfl⟩⟩
      · exact Or.inr ⟨_, hv, Or.inr ⟨_, hs, ho, rfl⟩⟩

theorem exact_readStrings (f : Fields Value) (name : String) :
    Exact (f.HoldsSet Value.HoldsStrings name) (f.SetFault .string Value.HoldsStrings name)
      (readStrings f name) :=
  exact_readSet .string Value.HoldsStrings f name fun v => v.exact_strings? name

theorem exact_readFiles (f : Fields Value) (name : String) :
    Exact (f.HoldsSet Value.HoldsFiles name) (f.SetFault .file Value.HoldsFiles name)
      (readFiles f name) :=
  exact_readSet .file Value.HoldsFiles f name fun v => v.exact_files? name

end Processors

namespace Processors

variable {f g : Fields Value} {v : Value} {p : Processors}

/-- A record is made of the sets that are given, also if it is the canonical one. -/
theorem create_sets {classes : TransitiveSet String} {classpath data : TransitiveSet File}
    (hc : classes.order = order) (hp : classpath.order = order) (hd : data.order = order)
    (supply : Supply) :
    let q := ((create classes classpath data).run supply).1
    q.classes = classes ∧ q.classpath = classpath ∧ q.data = data := by
  rcases create_spec classes classpath data supply with ⟨he, h⟩ | ⟨-, h⟩
  · simp only [Bool.and_eq_true] at he
    rw [h]
    exact ⟨(TransitiveSet.eq_empty_of_isEmpty he.1.1 hc).symm,
      (TransitiveSet.eq_empty_of_isEmpty he.1.2 hp).symm,
      (TransitiveSet.eq_empty_of_isEmpty he.2 hd).symm⟩
  · rw [h]
    exact ⟨rfl, rfl, rfl⟩

theorem exact_ofFields (f : Fields Value) :
    (ofFields f).Exact (fun p => f.HoldsSets p.classes p.classpath p.data)
      (FirstFault f.setFaults) fun d => (.field d, []) := by
  have hread := (Attempt.Exact.lift_field (exact_readStrings f classesField)).seq fun classes =>
    (Attempt.Exact.lift_field (exact_readFiles f classpathField)).seq fun classpath =>
      (Attempt.Exact.lift_field (exact_readFiles f dataField)).seq fun data =>
        Attempt.Exact.lift_fresh (create classes classpath data) _
  refine hread.congr (fun p => ?_) ?_ fun s => Iff.rfl
  · rintro ⟨classes, hc, classpath, hp, data, hd, supply, rfl⟩
    obtain ⟨hcs, hps, hds⟩ := create_sets hc.order_eq hp.order_eq hd.order_eq supply
    rw [hcs, hps, hds]
    exact ⟨hc, hp, hd⟩
  · rintro ⟨p, hc, hp, hd⟩
    exact ⟨_, p.classes, hc, p.classpath, hp, p.data, hd, {}, rfl⟩

/-- The values of the format are read, and others are refused for what is at fault with them. Then
it is noted that the value is no record of processors. -/
theorem exact_ofValue (v : Value) :
    (ofValue v).Exact v.HoldsProcessors v.ProcessorsFault fun e =>
      (e, [.rejectedProcessors v.kind e]) := by
  have hnoted {x : Attempt RecordError Processors}
      (hx : x.Exact v.HoldsProcessors v.ProcessorsFault fun e => (e, [])) :=
    hx.onFailure (.rejectedProcessors v.kind)
  refine hnoted ?_
  cases v with
  | processors p =>
    refine .accept (.processors p) fun e h => ?_
    cases h with | kind hp _ => exact hp p rfl
  | struct f =>
    exact ((exact_ofFields f).reword RecordError.field fun d => rfl).congr
      (fun p => Value.holdsProcessors_struct_iff.mpr)
      (Exists.imp fun p => Value.holdsProcessors_struct_iff.mp)
      fun e => Value.processorsFault_struct_iff.symm
  | _ =>
    exact .refuse rfl (by rintro p ⟨⟩) fun e =>
      Value.processorsFault_kind_iff (by rintro _ ⟨⟩) (by rintro _ ⟨⟩)

/-- The three fields are all that is looked at. -/
theorem ofFields_congr (h : ∀ name ∈ [classesField, classpathField, dataField],
    g.get? name = f.get? name) : ofFields g = ofFields f := by
  have hc := h classesField (by simp)
  have hp := h classpathField (by simp)
  have hd := h dataField (by simp)
  simp only [ofFields, readStrings, readFiles, readSet, Fields.require, hc, hp, hd]

end Processors

end PluginClosure
