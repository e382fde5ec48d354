import PluginClosure.Value.Basic

/-!
# Compiled outputs as structs

In the configuration language a compiled output is a struct with the fields `class_jar`,
`compile_jar` and `source_jars`. The first of them is required. The second may be left out or be the
absent value, and the third may be left out if there are no sources.

## Main definitions

* `PluginClosure.CompiledOutput.ofValue`, `CompiledOutput.listOfValue`: reading.
* `PluginClosure.CompiledOutput.toValue`: writing.
-/

namespace PluginClosure.CompiledOutput

/-- The field of a plugin provider that holds its outputs. Errors about the outputs as such name
it. -/
def listField : String := "java_outputs"

/-- Reads the field `class_jar`. -/
def readClassJar (f : Fields Value) : Except FieldError File := do
  (← f.require "class_jar").file? "class_jar"

/-- Reads the field `compile_jar`. -/
def readCompileJar (f : Fields Value) : Except FieldError (Option File) :=
  match f.get? "compile_jar" with
  | none => return none
  | some v => v.optionalFile? "compile_jar"

/-- Reads the field `source_jars`. -/
def readSourceJars (f : Fields Value) : Except FieldError (List File) :=
  match f.get? "source_jars" with
  | none => return []
  | some v => do (← v.list? "source_jars").mapM (·.file? "source_jars")

/-- Reads an output. Of several faults the one in the first field counts. -/
def ofValue (v : Value) : Except FieldError CompiledOutput := do
  let f ← v.struct? listField
  return { classJar := ← readClassJar f, compileJar := ← readCompileJar f,
           sourceJars := ← readSourceJars f }

/-- Reads a list of outputs. Of several faults the one in the first output counts. -/
def listOfValue (v : Value) : Except FieldError (List CompiledOutput) := do
  (← v.list? listField).mapM ofValue

/-- Writes an output. -/
def toValue (o : CompiledOutput) : Value :=
  .struct <| .ofList [
    ("class_jar", .file o.classJar),
    ("compile_jar", match o.compileJar with
      | none => .none
      | some f => .file f),
    ("source_jars", .list (o.sourceJars.map .file))]

end PluginClosure.CompiledOutput
