import PluginClosure.CompiledOutput.Basic
import PluginClosure.Processors.Basic
import PluginClosure.ProviderKey

/-!
# The plugin provider

A build target tells its dependants which annotation processors apply to them, and which of these
also generate API. Along with it go the outputs of the target's own compilation, which its direct
dependants may read and which never travel further: a union of records has no outputs.

The processors that generate API are among all processors. Whoever makes a record sees to it, and a
record is therefore taken to be empty when it has no processors at all.

## Main definitions

* `PluginClosure.PluginProvider`, `PluginProvider.empty`, `PluginProvider.create`.
* `PluginClosure.PluginProvider.union`: the union of a list of records.
* `PluginClosure.PluginProvider.unionTwo`: the union of two, which gives back one of them unchanged
  if the other is empty.
* `PluginClosure.PluginProvider.same`: whether two records are one and the same object. In contrast,
  `==` compares the contents.
-/

namespace PluginClosure

/-- What a target tells its dependants about annotation processors. -/
structure PluginProvider where
  /-- There is a canonical empty record with and one without the mark `builtin`. -/
  id : Identity Bool
  /-- The outputs of the target's own compilation. -/
  outputs : List CompiledOutput
  /-- All processors. -/
  plugins : Processors
  /-- The processors that also generate API. -/
  apiPlugins : Processors
  /-- Whether the record comes from the rules bundled with the build tool alone. -/
  builtin : Bool

/-- A record was to be made whose processors for API are not among its processors. -/
structure ApiNotAmongPlugins where
deriving DecidableEq, Repr

/-- The text of the error. -/
def ApiNotAmongPlugins.message (_ : ApiNotAmongPlugins) : String :=
  "api generating plugins must be a subset of plugins"

namespace PluginProvider

/-- The canonical empty record with, or without, the mark. -/
def empty (builtin : Bool) : PluginProvider :=
  ⟨.canonical builtin, [], .empty, .empty, builtin⟩

/-- A new record with the given contents. -/
def make (outputs : List CompiledOutput) (plugins apiPlugins : Processors) (builtin : Bool) :
    Fresh PluginProvider :=
  return ⟨← Identity.issue, outputs, plugins, apiPlugins, builtin⟩

/-- Whether every class of `p` is a class of `q`. -/
def classesAmong (p q : Processors) : Bool :=
  let known := Std.HashSet.ofList q.classes.toList
  p.classes.toList.all known.contains

/-- A new record with the given contents, if the classes that generate API are among all classes. -/
def create (outputs : List CompiledOutput) (plugins apiPlugins : Processors) (builtin : Bool) :
    ExceptT ApiNotAmongPlugins Fresh PluginProvider := do
  if classesAmong apiPlugins plugins then
    make outputs plugins apiPlugins builtin
  else
    throw {}

/-- Whether there are no processors. -/
def isEmpty (r : PluginProvider) : Bool := r.plugins.isEmpty

/-- Whether any processor is to run, whatever its classpath and its data. -/
def hasProcessors (r : PluginProvider) : Bool := !r.plugins.classes.isEmpty

/-- The key that the record is filed under. -/
def key (r : PluginProvider) : ProviderKey := .plugin (.ofBuiltin r.builtin)

/-- Whether two records are one and the same object. -/
def same (r s : PluginProvider) : Bool := r.id = s.id

instance : BEq PluginProvider where
  beq r s :=
    r.same s || (r.builtin == s.builtin && r.outputs == s.outputs && r.plugins == s.plugins &&
      r.apiPlugins == s.apiPlugins)

/-- The union of the records of a list, without their outputs. It bears the mark `builtin` if all of
them do and `builtin` is given. Empty parts are left out, and if nothing is left the result is the
canonical empty record. -/
def union (l : List PluginProvider) (builtin : Bool) :
    ExceptT OrderMismatch Fresh PluginProvider := do
  let plugins := (l.map PluginProvider.plugins).filter (!·.isEmpty)
  let apiPlugins := (l.map PluginProvider.apiPlugins).filter (!·.isEmpty)
  let builtin := builtin && l.all PluginProvider.builtin
  if plugins.isEmpty && apiPlugins.isEmpty then
    return empty builtin
  else
    make [] (← Processors.union plugins) (← Processors.union apiPlugins) builtin

/-- The union of two records. If one of them is empty there is nothing to unite, and the result is
the other one, outputs included. -/
def unionTwo (r s : PluginProvider) : ExceptT OrderMismatch Fresh PluginProvider :=
  if r.isEmpty then
    return s
  else if s.isEmpty then
    return r
  else
    union [r, s] (r.builtin && s.builtin)

end PluginProvider

end PluginClosure
