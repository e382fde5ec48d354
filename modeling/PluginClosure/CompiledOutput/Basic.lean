import PluginClosure.File

/-!
# Compiled outputs

The compilation of a target produces class files, possibly an interface for dependants to compile
against, and refers to the sources that were compiled.

## Main definitions

* `PluginClosure.CompiledOutput`.
-/

namespace PluginClosure

open Text (Outline)

/-- The files that belong to one compilation. -/
structure CompiledOutput where
  /-- The compiled classes. -/
  classJar : File
  /-- The interface that dependants compile against, if there is one. -/
  compileJar : Option File := none
  /-- The sources that were compiled. -/
  sourceJars : List File := []
deriving DecidableEq, Hashable, Repr

/-- The debug text of a compiled output. -/
def CompiledOutput.outline (o : CompiledOutput) : Outline :=
  .record "BuildOutput" [
    ("class_jar", o.classJar.outline),
    ("compile_jar", match o.compileJar with
      | none => .word "None"
      | some f => .tuple "Some" [f.outline]),
    ("source_jars", .list (o.sourceJars.map File.outline))]

end PluginClosure
