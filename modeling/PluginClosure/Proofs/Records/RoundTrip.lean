import PluginClosure.Proofs.Records.Returns

/-!
# Reading what was written

Outputs and records are written as structs with agreed fields, and the readings of these structs are
known in advance. Outputs are read as they were. The sets of a record of processors are read one
after the other, and the first one in another order than that of records is refused. A record of the
plugin provider holds its processors as they are, so that nothing is refused.

## Main definitions

* `PluginClosure.Processors.WrittenSet`, `PluginClosure.Processors.writtenSets`: the sets of a
  record as fields of its struct, in the sequence in which they are read.
* `PluginClosure.PluginProvider.toFields`: the fields of the struct of a record.

## Main results

* `PluginClosure.CompiledOutput.listOfValue_map_toValue`: outputs.
* `PluginClosure.Processors.ofFields_toFields`: records of processors.
* `PluginClosure.PluginProvider.ofInstance_toInstance`: records of the plugin provider.
-/

namespace PluginClosure

variable {β γ ε : Type}

/-! ### Outputs -/

theorem mapM_map_eq_ok (f : β → Except ε γ) (g : γ → β) (h : ∀ c, f (g c) = .ok c) (l : List γ) :
    (l.map g).mapM f = .ok l := by
  induction l with
  | nil => rfl
  | cons c l ih =>
    rw [List.map_cons, List.mapM_cons, h, ih]
    rfl

namespace CompiledOutput

theorem readSourceJars_of_get? {f : Fields Value} {l : List File}
    (h : f.get? "source_jars" = some (.list (l.map .file))) : readSourceJars f = .ok l := by
  rw [readSourceJars, h]
  exact mapM_map_eq_ok (Value.file? · "source_jars") Value.file (fun _ => rfl) l

/-- The absent value is read as no interface. -/
theorem readCompileJar_of_get? {f : Fields Value} {c : Option File}
    (h : f.get? "compile_jar" = some (match c with
      | none => .none
      | some c => .file c)) : readCompileJar f = .ok c := by
  rw [readCompileJar, h]
  cases c <;> rfl

theorem readClassJar_of_get? {f : Fields Value} {c : File}
    (h : f.get? "class_jar" = some (.file c)) : readClassJar f = .ok c := by
  rw [readClassJar, Fields.require_eq_ok.mpr h]
  rfl

theorem ofValue_toValue (o : CompiledOutput) : ofValue o.toValue = .ok o := by
  rw [toValue, ofValue]
  show (do return (⟨← readClassJar _, ← readCompileJar _, ← readSourceJars _⟩ : CompiledOutput)) = _
  rw [readClassJar_of_get? (c := o.classJar) (by rw [Fields.get?_ofList]; rfl),
    readCompileJar_of_get? (c := o.compileJar) (by rw [Fields.get?_ofList]; rfl),
    readSourceJars_of_get? (l := o.sourceJars) (by rw [Fields.get?_ofList]; rfl)]
  rfl

/-- Outputs can be read as they were written, one after the other. -/
theorem listOfValue_map_toValue (l : List CompiledOutput) :
    listOfValue (.list (l.map toValue)) = .ok l :=
  mapM_map_eq_ok ofValue toValue ofValue_toValue l

end CompiledOutput

/-! ### Records of processors -/

namespace Processors

variable {α : Type} {p : Processors}

/-- A set that is found in its field is refused because of its order only. -/
theorem readSet_of_get? (e : ElementKind)
    (read : Value → String → Except FieldError (TransitiveSet α)) {f : Fields Value}
    {name : String} {v : Value} {s : TransitiveSet α} (hv : f.get? name = some v)
    (hs : read v name = .ok s) :
    readSet e read f name = if s.order = order then .ok s
      else .error (.wrongOrder name v.kind s.order (.set e) order) := by
  have hrequire : f.require name = .ok v := Fields.require_eq_ok.mpr hv
  rw [readSet, hrequire]
  show (read v name >>= _) = _
  rw [hs]
  rfl

/-- A set of a record as a field of the struct. -/
structure WrittenSet where
  /-- The name of the field. -/
  field : String
  /-- The set as a value. -/
  value : Value
  /-- The order of the set. -/
  order : Order

/-- The sets of a record, in the sequence in which they are read. -/
def writtenSets (p : Processors) : List WrittenSet := [
  ⟨classesField, p.classesValue, p.classes.order⟩,
  ⟨classpathField, p.classpathValue, p.classpath.order⟩,
  ⟨dataField, p.dataValue, p.data.order⟩]

namespace WrittenSet

/-- The set is in another order than that of records. -/
def Foreign (w : WrittenSet) : Prop := w.order ≠ Processors.order

instance : DecidablePred Foreign := fun w => inferInstanceAs (Decidable (w.order ≠ _))

/-- The field holds a set of the right kind, but one in another order. -/
def refusal (w : WrittenSet) : RecordError :=
  .field (.wrongOrder w.field w.value.kind w.order w.value.kind Processors.order)

end WrittenSet

theorem forall_mem_writtenSets {P : WrittenSet → Prop} : (∀ w ∈ p.writtenSets, P w) ↔
    P ⟨classesField, p.classesValue, p.classes.order⟩ ∧
      P ⟨classpathField, p.classpathValue, p.classpath.order⟩ ∧
        P ⟨dataField, p.dataValue, p.data.order⟩ := by
  simp [writtenSets]

/-- Each set is found in its field. -/
theorem get?_toFields (p : Processors) :
    ∀ w ∈ p.writtenSets, p.toFields.get? w.field = some w.value := by
  rw [forall_mem_writtenSets, toFields]
  simp only [Fields.get?_ofList]
  exact ⟨rfl, rfl, rfl⟩

/-- The first set in another order is the reason why a struct that was written is refused. -/
theorem ofFields_toFields (p : Processors) :
    (∃ w, p.writtenSets.find? (fun w => w.Foreign) = some w ∧
      ofFields p.toFields = throw w.refusal) ∨
    (p.writtenSets.find? (fun w => w.Foreign) = none ∧
      ofFields p.toFields = liftM (create p.classes p.classpath p.data)) := by
  obtain ⟨hclasses, hclasspath, hdata⟩ := forall_mem_writtenSets.mp p.get?_toFields
  rw [ofFields, readStrings, readFiles, readSet_of_get? .string Value.strings? hclasses rfl,
    readSet_of_get? .file Value.files? hclasspath rfl, readSet_of_get? .file Value.files? hdata rfl]
  by_cases hc : p.classes.order = order
  · by_cases hp : p.classpath.order = order
    · by_cases hd : p.data.order = order
      · rw [if_pos hc, if_pos hp, if_pos hd]
        exact Or.inr ⟨by simp [writtenSets, WrittenSet.Foreign, hc, hp, hd], rfl⟩
      · rw [if_pos hc, if_pos hp, if_neg hd]
        exact Or.inl ⟨_, by simp [writtenSets, WrittenSet.Foreign, hc, hp, hd], rfl⟩
    · rw [if_pos hc, if_neg hp]
      exact Or.inl ⟨_, by simp [writtenSets, WrittenSet.Foreign, hc, hp], rfl⟩
  · rw [if_neg hc]
    exact Or.inl ⟨_, by simp [writtenSets, WrittenSet.Foreign, hc], rfl⟩

end Processors

/-! ### Records of the plugin provider -/

namespace PluginProvider

theorem readProcessors_of_get? {f : Fields Value} {name : String} {p : Processors}
    (h : f.get? name = some (.processors p)) : readProcessors f name = pure p := by
  rw [readProcessors, Fields.require_eq_ok.mpr h]
  rfl

/-- The fields of the struct that a record is written as. -/
def toFields (r : PluginProvider) : Fields Value := .ofList [
  (CompiledOutput.listField, .list (r.outputs.map CompiledOutput.toValue)),
  (pluginsField, .processors r.plugins),
  (apiPluginsField, .processors r.apiPlugins)]

theorem toInstance_eq (r : PluginProvider) : r.toInstance = .generic r.key r.toFields := rfl

theorem get?_outputs_toFields (r : PluginProvider) : r.toFields.get? CompiledOutput.listField =
    some (.list (r.outputs.map CompiledOutput.toValue)) := by
  rw [toFields, Fields.get?_ofList]
  rfl

theorem readOutputs_toFields (r : PluginProvider) : readOutputs r.toFields = .ok r.outputs := by
  rw [readOutputs, Fields.require_eq_ok.mpr r.get?_outputs_toFields]
  exact CompiledOutput.listOfValue_map_toValue r.outputs

/-- To read a record that was written is to make a record with the same contents. -/
theorem ofInstance_toInstance (r : PluginProvider) :
    ofInstance r.toInstance = liftM (make r.outputs r.plugins r.apiPlugins r.builtin) := by
  have hplugins : readProcessors r.toFields pluginsField = pure r.plugins :=
    readProcessors_of_get? (by rw [toFields, Fields.get?_ofList]; rfl)
  have hapiPlugins : readProcessors r.toFields apiPluginsField = pure r.apiPlugins :=
    readProcessors_of_get? (by rw [toFields, Fields.get?_ofList]; rfl)
  have hfields : ofFields (.ofBuiltin r.builtin) r.toFields =
      liftM (make r.outputs r.plugins r.apiPlugins r.builtin) := by
    rw [ofFields, readOutputs_toFields, hplugins, hapiPlugins, Origin.isBuiltin_ofBuiltin]
    rfl
  show Attempt.onFailure _ (ofFields (.ofBuiltin r.builtin) r.toFields) = _
  rw [hfields]
  rfl

end PluginProvider

end PluginClosure
