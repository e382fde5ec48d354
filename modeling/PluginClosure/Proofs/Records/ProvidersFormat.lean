import PluginClosure.Proofs.Records.ProcessorsFormat

/-!
# The format of the plugin provider

An instance is read if it is a record of the plugin provider, or if it is a struct under a key of
the plugin provider with a list of outputs and two records of processors. The list is read from the
left, each output field by field, and after it the records of processors. What comes first and is at
fault is the reason why an instance is not read. A compilation is read in the same way, but for its
outputs.

If the fault is inside a value that is to be a record of processors, that value has been refused on
its own before. Therefore a *rejection* tells of this value, besides the error.

## Main definitions

* `PluginClosure.Value.HoldsOutput`, `PluginClosure.Value.OutputFault`: the format of an output.
* `PluginClosure.Rejection`: why an instance is refused.
* `PluginClosure.InstanceOf.HoldsProvider`, `PluginClosure.InstanceOf.ProviderFault`: the format of
  the plugin provider.
* `PluginClosure.InstanceOf.HoldsCompilation`, `PluginClosure.InstanceOf.CompilationFault`: the
  format of a compilation.

## Main results

* `PluginClosure.CompiledOutput.exact_ofValue`, `PluginClosure.PluginProvider.exact_ofInstance`,
  `PluginClosure.PluginProvider.exact_ofCompilation`: the readings are exact.
* `PluginClosure.provider_format`: which instances are read, and why the others are not.
-/

namespace PluginClosure

/-! ### Outputs -/

/-- The fields hold the files of the output. -/
structure Fields.HoldsOutput (f : Fields Value) (o : CompiledOutput) : Prop where
  classJar : f.Present Value.HoldsFile "class_jar" o.classJar
  compileJar : f.PresentOr Value.HoldsOptionalFile none "compile_jar" o.compileJar
  sourceJars : f.PresentOr (Value.HoldsItems Value.HoldsFile) [] "source_jars" o.sourceJars

/-- What may be at fault with a struct for an output, field by field. -/
def Fields.outputFaults (f : Fields Value) : List (FieldError → Prop) := [
  f.PresentOr (Value.Unfit Value.HoldsFile "class_jar" (.exactly .file)) (.missing "class_jar")
    "class_jar",
  f.Present (Value.Unfit Value.HoldsOptionalFile "compile_jar" (.optional .file)) "compile_jar",
  f.Present (Value.ItemsFault (Value.Unfit Value.HoldsFile "source_jars" (.exactly .file))
    "source_jars") "source_jars"]

namespace Value

/-- The value is a struct with the files of the output. -/
inductive HoldsOutput : Value → CompiledOutput → Prop
  | struct {f : Fields Value} {o : CompiledOutput} (h : f.HoldsOutput o) : HoldsOutput (.struct f) o

/-- What is at fault with a value that is to be an output. -/
inductive OutputFault : Value → FieldError → Prop
  | kind {v : Value} (h : ∀ f, v ≠ .struct f) :
      OutputFault v (.wrongKind CompiledOutput.listField v.kind (.exactly .struct))
  | struct {f : Fields Value} {e : FieldError} (h : FirstFault f.outputFaults e) :
      OutputFault (.struct f) e

end Value

namespace CompiledOutput

theorem exact_readClassJar (f : Fields Value) :
    Exact (f.Present Value.HoldsFile "class_jar")
      (f.PresentOr (Value.Unfit Value.HoldsFile "class_jar" (.exactly .file)) (.missing "class_jar")
        "class_jar") (readClassJar f) :=
  Fields.exact_required (fun v => v.exact_file? "class_jar") f "class_jar"

theorem exact_readCompileJar (f : Fields Value) :
    Exact (f.PresentOr Value.HoldsOptionalFile none "compile_jar")
      (f.Present (Value.Unfit Value.HoldsOptionalFile "compile_jar" (.optional .file))
        "compile_jar") (readCompileJar f) :=
  Fields.exact_optional (fun v => v.exact_optionalFile? "compile_jar") none f "compile_jar"

theorem exact_readSourceJars (f : Fields Value) :
    Exact (f.PresentOr (Value.HoldsItems Value.HoldsFile) [] "source_jars")
      (f.Present (Value.ItemsFault (Value.Unfit Value.HoldsFile "source_jars" (.exactly .file))
        "source_jars") "source_jars") (readSourceJars f) :=
  Fields.exact_optional
    (fun v => Value.exact_items (fun w => w.exact_file? "source_jars") v "source_jars") [] f
    "source_jars"

/-- Values with the format of an output are read, and others are refused for their fault. -/
theorem exact_ofValue (v : Value) : Exact v.HoldsOutput v.OutputFault (ofValue v) := by
  have hread := (v.exact_struct? listField).bind fun f _ =>
    (exact_readClassJar f).seq fun classJar _ => (exact_readCompileJar f).seq fun compileJar _ =>
      (exact_readSourceJars f).seq fun sourceJars _ =>
        Exact.ok (⟨classJar, compileJar, sourceJars⟩ : CompiledOutput)
  refine hread.congr (fun o => ?_) fun e => ?_
  · constructor
    · rintro ⟨f, rfl, classJar, hc, compileJar, hi, sourceJars, hs, rfl⟩
      exact .struct ⟨hc, hi, hs⟩
    · rintro ⟨hc, hi, hs⟩
      exact ⟨_, rfl, _, hc, _, hi, _, hs, rfl⟩
  · constructor
    · rintro (⟨hn, rfl⟩ | ⟨f, rfl, h⟩)
      · exact .kind hn
      · exact .struct h
    · rintro (hn | h)
      · exact Or.inl ⟨hn, rfl⟩
      · exact Or.inr ⟨_, rfl, h⟩

theorem exact_listOfValue (v : Value) :
    Exact (v.HoldsItems Value.HoldsOutput) (v.ItemsFault Value.OutputFault listField)
      (listOfValue v) :=
  Value.exact_items exact_ofValue v listField

end CompiledOutput

/-! ### Rejections -/

/-- Why an instance is refused. -/
structure Rejection where
  /-- The error. -/
  error : RecordError
  /-- The value that should have been a record of processors, if the fault is inside one. -/
  inside : Option Value

namespace Rejection

/-- A rejection because of a field. -/
def ofField (e : FieldError) : Rejection := ⟨.field e, none⟩

/-- What has been noted of the value before. -/
def events (r : Rejection) : List Event :=
  match r.inside with
  | none => []
  | some v => [.rejectedProcessors v.kind r.error]

/-- The error, and what has been noted before. -/
def report (r : Rejection) : RecordError × List Event := (r.error, r.events)

end Rejection

/-! ### Providers -/

namespace Fields

/-- The fields hold the contents of a record with the mark of the origin. -/
structure HoldsProvider (f : Fields Value) (o : Origin) (r : PluginProvider) : Prop where
  outputs : f.Present (Value.HoldsItems Value.HoldsOutput) CompiledOutput.listField r.outputs
  plugins : f.Present Value.HoldsProcessors PluginProvider.pluginsField r.plugins
  apiPlugins : f.Present Value.HoldsProcessors PluginProvider.apiPluginsField r.apiPlugins
  builtin : r.builtin = true ↔ o = .builtin

/-- What may be at fault with the field for outputs. -/
def OutputsFault (f : Fields Value) (r : Rejection) : Prop :=
  ∃ e, f.PresentOr (Value.ItemsFault Value.OutputFault CompiledOutput.listField)
    (.missing CompiledOutput.listField) CompiledOutput.listField e ∧ r = .ofField e

/-- What may be at fault with a field for processors. -/
def PartFault (f : Fields Value) (name : String) (r : Rejection) : Prop :=
  f.PresentOr (fun v r => ∃ e, v.ProcessorsFault e ∧ r = ⟨e, some v⟩) (.ofField (.missing name))
    name r

/-- What may be at fault with the fields for processors. -/
def partFaults (f : Fields Value) : List (Rejection → Prop) :=
  [f.PartFault PluginProvider.pluginsField, f.PartFault PluginProvider.apiPluginsField]

/-- What may be at fault with a struct for a record of the plugin provider, field by field. -/
def providerFaults (f : Fields Value) : List (Rejection → Prop) := f.OutputsFault :: f.partFaults

/-- A fault that is inside a value is the reason why this value is no record of processors. -/
theorem PartFault.inside {f : Fields Value} {name : String} {r : Rejection} {v : Value}
    (h : f.PartFault name r) (hv : r.inside = some v) : v.ProcessorsFault r.error := by
  rcases h with ⟨-, rfl⟩ | ⟨w, -, e, he, rfl⟩
  · cases hv
  · cases hv
    exact he

theorem inside_of_partFaults {f : Fields Value} {r : Rejection} {v : Value}
    (h : FirstFault f.partFaults r) (hv : r.inside = some v) : v.ProcessorsFault r.error := by
  rcases firstFault_cons.mp h with h | ⟨-, h⟩
  · exact h.inside hv
  · exact (firstFault_singleton.mp h).inside hv

end Fields

namespace InstanceOf

/-- The instance is the record, or a struct under a key of the plugin provider with the contents of
the record. -/
inductive HoldsProvider : Instance → PluginProvider → Prop
  | native (r : PluginProvider) : HoldsProvider (.native r) r
  | generic {o : Origin} {f : Fields Value} {r : PluginProvider} (h : f.HoldsProvider o r) :
      HoldsProvider (.generic (.plugin o) f) r

/-- What is at fault with an instance that is to be a record of the plugin provider. -/
inductive ProviderFault : Instance → Rejection → Prop
  | generic {o : Origin} {f : Fields Value} {r : Rejection} (h : FirstFault f.providerFaults r) :
      ProviderFault (.generic (.plugin o) f) r
  | key {a : Instance} (hr : ∀ r, a ≠ .native r) (hf : ∀ o f, a ≠ .generic (.plugin o) f) :
      ProviderFault a ⟨.wrongRecord a.kind PluginProvider.kind, none⟩

variable {o : Origin} {f : Fields Value}

theorem holdsProvider_generic_iff {r : PluginProvider} :
    HoldsProvider (.generic (.plugin o) f) r ↔ f.HoldsProvider o r := by
  refine ⟨fun h => ?_, .generic⟩
  cases h with | generic h => exact h

theorem exists_holdsProvider_iff {a : Instance} : (∃ r, a.HoldsProvider r) ↔
    (∃ r, a = .native r) ∨ ∃ o f, a = .generic (.plugin o) f ∧ ∃ r, f.HoldsProvider o r := by
  constructor
  · rintro ⟨r, ⟨⟩ | h⟩
    · exact Or.inl ⟨r, rfl⟩
    · exact Or.inr ⟨_, _, rfl, r, h⟩
  · rintro (⟨r, rfl⟩ | ⟨o, f, rfl, r, h⟩)
    · exact ⟨r, .native r⟩
    · exact ⟨r, .generic h⟩

theorem providerFault_generic_iff {r : Rejection} :
    ProviderFault (.generic (.plugin o) f) r ↔ FirstFault f.providerFaults r := by
  refine ⟨fun h => ?_, .generic⟩
  cases h with
  | generic h => exact h
  | key _ hf => exact absurd rfl (hf o f)

theorem providerFault_key_iff {a : Instance} {r : Rejection} (hr : ∀ r, a ≠ .native r)
    (hf : ∀ o f, a ≠ .generic (.plugin o) f) :
    a.ProviderFault r ↔ r = ⟨.wrongRecord a.kind PluginProvider.kind, none⟩ := by
  constructor
  · rintro (h | -)
    · exact absurd rfl (hf _ _)
    · rfl
  · rintro rfl
    exact .key hr hf

theorem ProviderFault.inside {a : Instance} {r : Rejection} {v : Value} (h : a.ProviderFault r)
    (hv : r.inside = some v) : v.ProcessorsFault r.error := by
  cases h with
  | key => cases hv
  | generic h =>
    rcases firstFault_cons.mp h with ⟨e, -, rfl⟩ | ⟨-, h⟩
    · cases hv
    · exact Fields.inside_of_partFaults h hv

end InstanceOf

namespace PluginProvider

variable {f g : Fields Value} {o : Origin}

theorem ofInstance_generic (o : Origin) (f : Fields Value) :
    ofInstance (.generic (.plugin o) f) =
      Attempt.onFailure (.rejectedPlugin kind) (ofFields o f) := rfl

theorem ofCompilation_generic (o : Origin) (f : Fields Value) :
    ofCompilation (.generic (.compilation o) f) =
      Attempt.onFailure (.rejectedCompilation (.provider ProviderKey.compilationName))
        (ofCompilationFields o f) := rfl

theorem exact_readOutputs (f : Fields Value) :
    (liftM (readOutputs f) : Attempt RecordError (List CompiledOutput)).Exact
      (f.Present (Value.HoldsItems Value.HoldsOutput) CompiledOutput.listField) f.OutputsFault
      Rejection.report :=
  (Attempt.Exact.lift_field (Fields.exact_required CompiledOutput.exact_listOfValue f
    CompiledOutput.listField)).reword Rejection.ofField fun _ => rfl

theorem exact_readProcessors (f : Fields Value) (name : String) :
    (readProcessors f name).Exact (f.Present Value.HoldsProcessors name) (f.PartFault name)
      Rejection.report := by
  cases h : f.get? name with
  | none =>
    have hread : readProcessors f name = throw (.field (.missing name)) := by
      rw [readProcessors, Fields.require, h]
      rfl
    rw [hread]
    refine .refuse (r := .ofField (.missing name)) rfl ?_ fun r => ?_
    · rintro p ⟨v, hv, -⟩
      cases h.symm.trans hv
    · simp [Fields.PartFault, Fields.PresentOr, Fields.Present, h]
  | some v =>
    have hread : readProcessors f name = Processors.ofValue v := by
      rw [readProcessors, Fields.require, h]
      rfl
    rw [hread]
    refine ((Processors.exact_ofValue v).reword (fun e => ⟨e, some v⟩) fun e => rfl).congr
      (fun p hp => ⟨v, h, hp⟩) ?_ fun r => ?_
    · rintro ⟨p, w, hw, hp⟩
      cases h.symm.trans hw
      exact ⟨p, hp⟩
    · simp [Fields.PartFault, Fields.PresentOr, Fields.Present, h]

theorem exact_ofFields (o : Origin) (f : Fields Value) :
    (ofFields o f).Exact (f.HoldsProvider o) (FirstFault f.providerFaults) Rejection.report := by
  have hread := (exact_readOutputs f).seq fun outputs =>
    (exact_readProcessors f pluginsField).seq fun plugins =>
      (exact_readProcessors f apiPluginsField).seq fun apiPlugins =>
        Attempt.Exact.lift_fresh (make outputs plugins apiPlugins o.isBuiltin) _
  refine hread.congr (fun r => ?_) ?_ fun _ => Iff.rfl
  · rintro ⟨outputs, ho, plugins, hp, apiPlugins, ha, supply, rfl⟩
    have hbuiltin : o.isBuiltin = true ↔ o = .builtin := by cases o <;> decide
    exact ⟨ho, hp, ha, hbuiltin⟩
  · rintro ⟨r, ho, hp, ha, -⟩
    exact ⟨_, _, ho, _, hp, _, ha, {}, rfl⟩

/-- The instances of the format are read, and others are refused for what is at fault with them.
Then it is noted that the instance is no record of the plugin provider. -/
theorem exact_ofInstance (a : Instance) :
    (ofInstance a).Exact a.HoldsProvider a.ProviderFault fun r =>
      (r.error, r.events ++ [.rejectedPlugin a.kind r.error]) := by
  have hnoted {x : Attempt RecordError PluginProvider}
      (hx : x.Exact a.HoldsProvider a.ProviderFault Rejection.report) :=
    hx.onFailure (.rejectedPlugin a.kind)
  refine hnoted ?_
  match a with
  | .native r =>
    refine .accept (.native r) fun s h => ?_
    cases h with | key hr _ => exact hr r rfl
  | .generic (.plugin o) f =>
    exact (exact_ofFields o f).congr (fun r => InstanceOf.holdsProvider_generic_iff.mpr)
      (Exists.imp fun r => InstanceOf.holdsProvider_generic_iff.mp)
      fun r => InstanceOf.providerFault_generic_iff.symm
  | .generic (.compilation o) f =>
    exact .refuse rfl (by rintro r ⟨⟩) fun r =>
      InstanceOf.providerFault_key_iff (by rintro _ ⟨⟩) (by rintro _ _ ⟨⟩)
  | .generic (.other n) f =>
    exact .refuse rfl (by rintro r ⟨⟩) fun r =>
      InstanceOf.providerFault_key_iff (by rintro _ ⟨⟩) (by rintro _ _ ⟨⟩)

/-- The three fields are all that is looked at. -/
theorem ofFields_congr (o : Origin) (h : ∀ name ∈ [CompiledOutput.listField, pluginsField,
    apiPluginsField], g.get? name = f.get? name) : ofFields o g = ofFields o f := by
  have ho := h CompiledOutput.listField (by simp)
  have hp := h pluginsField (by simp)
  have ha := h apiPluginsField (by simp)
  simp only [ofFields, readOutputs, readProcessors, Fields.require, ho, hp, ha]

end PluginProvider

/-! ### Compilations -/

/-- The fields hold the processors of the record, which is canonical if there are none. -/
def Fields.HoldsCompilation (f : Fields Value) (o : Origin) (r : PluginProvider) : Prop :=
  ∃ p, f.Present Value.HoldsProcessors PluginProvider.pluginsField p ∧
    ∃ q, f.Present Value.HoldsProcessors PluginProvider.apiPluginsField q ∧
      if (p.isEmpty && q.isEmpty) = true then r = .empty o.isBuiltin
      else ∃ n, r = ⟨.issued n, [], p, q, o.isBuiltin⟩

namespace InstanceOf

/-- The instance is a struct under a key of the compilation provider with the processors of the
record. -/
inductive HoldsCompilation : Instance → PluginProvider → Prop
  | generic {o : Origin} {f : Fields Value} {r : PluginProvider} (h : f.HoldsCompilation o r) :
      HoldsCompilation (.generic (.compilation o) f) r

/-- What is at fault with an instance that is to be one of the compilation provider. -/
inductive CompilationFault : Instance → Rejection → Prop
  | generic {o : Origin} {f : Fields Value} {r : Rejection} (h : FirstFault f.partFaults r) :
      CompilationFault (.generic (.compilation o) f) r
  | key {a : Instance} (h : ∀ o f, a ≠ .generic (.compilation o) f) :
      CompilationFault a ⟨.wrongRecord a.kind (.provider ProviderKey.compilationName), none⟩

variable {o : Origin} {f : Fields Value}

theorem holdsCompilation_generic_iff {r : PluginProvider} :
    HoldsCompilation (.generic (.compilation o) f) r ↔ f.HoldsCompilation o r := by
  refine ⟨fun h => ?_, .generic⟩
  cases h with | generic h => exact h

theorem compilationFault_generic_iff {r : Rejection} :
    CompilationFault (.generic (.compilation o) f) r ↔ FirstFault f.partFaults r := by
  refine ⟨fun h => ?_, .generic⟩
  cases h with
  | generic h => exact h
  | key hf => exact absurd rfl (hf o f)

theorem compilationFault_key_iff {a : Instance} {r : Rejection}
    (hf : ∀ o f, a ≠ .generic (.compilation o) f) : a.CompilationFault r ↔
      r = ⟨.wrongRecord a.kind (.provider ProviderKey.compilationName), none⟩ := by
  constructor
  · rintro (h | -)
    · exact absurd rfl (hf _ _)
    · rfl
  · rintro rfl
    exact .key hf

theorem CompilationFault.inside {a : Instance} {r : Rejection} {v : Value}
    (h : a.CompilationFault r) (hv : r.inside = some v) : v.ProcessorsFault r.error := by
  cases h with
  | key => cases hv
  | generic h => exact Fields.inside_of_partFaults h hv

end InstanceOf

namespace PluginProvider

theorem exact_ofCompilationFields (o : Origin) (f : Fields Value) :
    (ofCompilationFields o f).Exact (f.HoldsCompilation o) (FirstFault f.partFaults)
      Rejection.report := by
  refine (exact_readProcessors f pluginsField).seq fun p =>
    (exact_readProcessors f apiPluginsField).seq fun q => ?_
  split
  · exact .pure _ _
  · refine (Attempt.Exact.lift_fresh (make [] p q o.isBuiltin) Rejection.report).congr ?_
      (fun _ => ⟨_, {}, rfl⟩) fun _ => Iff.rfl
    rintro _ ⟨supply, rfl⟩
    exact ⟨_, rfl⟩

/-- The processors of a compilation are read, or the first fault is noted, and that the instance is
none of the compilation provider. -/
theorem exact_ofCompilation (a : Instance) :
    (ofCompilation a).Exact a.HoldsCompilation a.CompilationFault fun r =>
      (r.error, r.events ++ [.rejectedCompilation a.kind r.error]) := by
  have hnoted {x : Attempt RecordError PluginProvider}
      (hx : x.Exact a.HoldsCompilation a.CompilationFault Rejection.report) :=
    hx.onFailure (.rejectedCompilation a.kind)
  refine hnoted ?_
  match a with
  | .generic (.compilation o) f =>
    exact (exact_ofCompilationFields o f).congr
      (fun r => InstanceOf.holdsCompilation_generic_iff.mpr)
      (Exists.imp fun r => InstanceOf.holdsCompilation_generic_iff.mp)
      fun r => InstanceOf.compilationFault_generic_iff.symm
  | .native r =>
    exact .refuse rfl (by rintro r ⟨⟩) fun r =>
      InstanceOf.compilationFault_key_iff (by rintro _ _ ⟨⟩)
  | .generic (.plugin o) f =>
    exact .refuse rfl (by rintro r ⟨⟩) fun r =>
      InstanceOf.compilationFault_key_iff (by rintro _ _ ⟨⟩)
  | .generic (.other n) f =>
    exact .refuse rfl (by rintro r ⟨⟩) fun r =>
      InstanceOf.compilationFault_key_iff (by rintro _ _ ⟨⟩)

end PluginProvider

/-! ### The format -/

/-- **The format of the plugin provider.** An instance is read if it is a record, which is then
given back as it is, or if it is a struct under a key of the plugin provider with the contents of a
record, which are then those of the result. Of a struct that is not read the first fault is the
reason, and of any other instance its kind. Outputs and lists of outputs, which can also be read on
their own, have the format that they have in a struct, and the values that hold processors are those
that are read as records of processors. -/
theorem provider_format (a : Instance) (log : Log) (supply : Supply) :
    let res := ((PluginProvider.ofInstance a).outcome log supply).1
    ((∃ r, res = .ok r) ↔ (∃ r, a = .native r) ∨
      ∃ o f, a = .generic (.plugin o) f ∧ ∃ r, f.HoldsProvider o r) ∧
    (∀ r, a = .native r → res = .ok r) ∧
    (∀ o f, a = .generic (.plugin o) f →
      (∀ r, res = .ok r → f.HoldsProvider o r) ∧
      (∀ e, res = .error e ↔ ∃ r, FirstFault f.providerFaults r ∧ e = r.error) ∧
      ∀ g : Fields Value, (∀ name ∈ [CompiledOutput.listField, PluginProvider.pluginsField,
        PluginProvider.apiPluginsField], g.get? name = f.get? name) →
          PluginProvider.ofInstance (.generic (.plugin o) g) = PluginProvider.ofInstance a) ∧
    ((∀ r, a ≠ .native r) → (∀ o f, a ≠ .generic (.plugin o) f) →
      res = .error (.wrongRecord a.kind PluginProvider.kind) ∧
        (RecordError.wrongRecord a.kind PluginProvider.kind).message =
          s!"got element of type {a.key.name}, want " ++ "JavaPluginInfo") ∧
    (∀ v, Exact (Value.HoldsOutput v) v.OutputFault (CompiledOutput.ofValue v)) ∧
    (∀ v, Exact (Value.HoldsItems Value.HoldsOutput v)
      (v.ItemsFault Value.OutputFault CompiledOutput.listField) (CompiledOutput.listOfValue v)) ∧
    ∀ v,
      ((∃ p, Value.HoldsProcessors v p) ↔
        ∃ p, ((Processors.ofValue v).outcome log supply).1 = .ok p) ∧
      ∀ e, v.ProcessorsFault e ↔ ((Processors.ofValue v).outcome log supply).1 = .error e := by
  intro res
  have hexact := PluginProvider.exact_ofInstance a
  have herror (e : RecordError) : res = .error e ↔ ∃ r, a.ProviderFault r ∧ r.error = e :=
    hexact.error_iff log supply e
  refine ⟨(hexact.isOk_iff log supply).trans InstanceOf.exists_holdsProvider_iff, ?_, ?_, ?_,
    CompiledOutput.exact_ofValue, CompiledOutput.exact_listOfValue, fun v => ⟨?_, fun e => ?_⟩⟩
  · rintro r rfl
    rfl
  · rintro o f rfl
    simp only [InstanceOf.providerFault_generic_iff] at herror
    refine ⟨fun r hr => ?_, fun e => (herror e).trans ?_, fun g hg => ?_⟩
    · exact InstanceOf.holdsProvider_generic_iff.mp (hexact.holds r ⟨log, supply, hr⟩)
    · exact exists_congr fun r => and_congr_right fun _ => eq_comm
    · rw [PluginProvider.ofInstance_generic, PluginProvider.ofInstance_generic,
        PluginProvider.ofFields_congr o hg]
  · intro hr hf
    exact ⟨(herror _).mpr ⟨_, .key hr hf, rfl⟩, rfl⟩
  · exact ((Processors.exact_ofValue v).isOk_iff log supply).symm
  · rw [(Processors.exact_ofValue v).error_iff log supply]
    exact exists_eq_right.symm

namespace Inventory

namespace Sample

/-- An output with a source that is listed twice, and without an interface. -/
def outputValue : Value := .struct <| .ofList [
  ("class_jar", .file ⟨"a.jar"⟩),
  ("source_jars", .list [.file ⟨"a.srcjar"⟩, .file ⟨"a.srcjar"⟩])]

/-- A struct that is no output, for two reasons. -/
def faultyOutputValue : Value := .struct <| .ofList [("class_jar", .int 1), ("compile_jar", .int 2)]

/-- The fields of a struct with one output. -/
def outputFields : Fields Value := .ofList [
  (CompiledOutput.listField, .list [outputValue]),
  (PluginProvider.pluginsField, .processors .empty),
  (PluginProvider.apiPluginsField, .processors .empty)]

/-- The fields of a struct with an output, another one that is at fault, and no processors. -/
def faultyOutputFields : Fields Value :=
  .ofList [(CompiledOutput.listField, .list [outputValue, faultyOutputValue])]

end Sample

/-- A struct with one output is read under the key of the bundled rules. A struct that has another
output besides, and no processors, is refused for the first fault of this output. -/
theorem provider_format_sample :
    (∃ r, ((PluginProvider.ofInstance (.generic (.plugin .builtin) Sample.outputFields)).outcome []
        ⟨3⟩).1 = .ok r ∧ r.builtin = true ∧
      r.outputs = [⟨⟨"a.jar"⟩, none, [⟨"a.srcjar"⟩, ⟨"a.srcjar"⟩]⟩]) ∧
    ((PluginProvider.ofInstance (.generic (.plugin .builtin) Sample.faultyOutputFields)).outcome []
        ⟨3⟩).1 = .error (.field (.wrongKind "class_jar" .int (.exactly .file))) := by
  obtain ⟨hok, -, hstruct, -⟩ :=
    provider_format (.generic (.plugin .builtin) Sample.outputFields) [] ⟨3⟩
  obtain ⟨-, -, hfaulty, -⟩ :=
    provider_format (.generic (.plugin .builtin) Sample.faultyOutputFields) [] ⟨3⟩
  have houtput : Sample.outputValue.HoldsOutput ⟨⟨"a.jar"⟩, none, [⟨"a.srcjar"⟩, ⟨"a.srcjar"⟩]⟩ :=
    .struct ⟨⟨_, rfl, rfl⟩, Or.inl ⟨rfl, rfl⟩, Or.inr ⟨_, rfl, .list (.cons rfl (.cons rfl .nil))⟩⟩
  have houtputs : Sample.outputFields.Present (Value.HoldsItems Value.HoldsOutput)
      CompiledOutput.listField [⟨⟨"a.jar"⟩, none, [⟨"a.srcjar"⟩, ⟨"a.srcjar"⟩]⟩] :=
    ⟨_, rfl, .list (.cons houtput .nil)⟩
  constructor
  · obtain ⟨r, hr⟩ := hok.mpr (Or.inr ⟨_, _, rfl, ⟨.canonical true, _, .empty, .empty, true⟩,
      houtputs, ⟨_, rfl, .processors _⟩, ⟨_, rfl, .processors _⟩, by decide⟩)
    have hholds := (hstruct _ _ rfl).1 r hr
    exact ⟨r, hr, hholds.builtin.mpr rfl, (Fields.exact_required CompiledOutput.exact_listOfValue _
      _).holds_unique hholds.outputs houtputs⟩
  · have hnone := (CompiledOutput.exact_ofValue _).exists_holds_iff.mp ⟨_, houtput⟩
    have hclassJar : Sample.faultyOutputValue.OutputFault
        (.wrongKind "class_jar" .int (.exactly .file)) :=
      .struct (firstFault_cons.mpr (Or.inl (Or.inr ⟨.int 1, rfl, by rintro c ⟨⟩, rfl⟩)))
    have hitems : FirstFault ([Sample.outputValue, Sample.faultyOutputValue].map Value.OutputFault)
        (.wrongKind "class_jar" .int (.exactly .file)) :=
      firstFault_cons.mpr (Or.inr ⟨hnone, firstFault_cons.mpr (Or.inl hclassJar)⟩)
    exact ((hfaulty _ _ rfl).2.1 _).mpr
      ⟨_, firstFault_cons.mpr (Or.inl ⟨_, Or.inr ⟨_, rfl, .item hitems⟩, rfl⟩), rfl⟩

end Inventory

end PluginClosure
