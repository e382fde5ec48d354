import PluginClosure.CompiledOutput.Struct
import PluginClosure.Processors.Struct

/-!
# The plugin provider as a struct

A record of the plugin provider is exported as it is, or as a struct under the key of the record:
one of the two keys of the plugin provider, from which the mark of the record is taken. A struct
under a key of the compilation provider carries processors too, and can be read for these alone.

## Main definitions

* `PluginClosure.PluginProvider.ofInstance`, `PluginProvider.ofValue`: reading.
* `PluginClosure.PluginProvider.ofCompilation`: the processors of a compilation.
* `PluginClosure.PluginProvider.toInstance`: writing.
-/

namespace PluginClosure.PluginProvider

/-- The name of the field that holds all processors. -/
def pluginsField : String := "plugins"

/-- The name of the field that holds the processors that generate API. -/
def apiPluginsField : String := "api_generating_plugins"

/-- Reads a record of processors from a field. -/
def readProcessors (f : Fields Value) (name : String) : Attempt RecordError Processors := do
  let v ← f.require name
  Processors.ofValue v

/-- Reads the outputs from their field. -/
def readOutputs (f : Fields Value) : Except FieldError (List CompiledOutput) := do
  CompiledOutput.listOfValue (← f.require CompiledOutput.listField)

/-- Reads a record from the fields of a struct that was exported under a key of the plugin provider.
The record is a new one, even if it is empty. -/
def ofFields (p : Origin) (f : Fields Value) : Attempt RecordError PluginProvider := do
  let outputs ← readOutputs f
  let plugins ← readProcessors f pluginsField
  let apiPlugins ← readProcessors f apiPluginsField
  make outputs plugins apiPlugins p.isBuiltin

/-- Reads a record from an instance. An instance that is a record already is given back. -/
def ofInstance (i : Instance) : Attempt RecordError PluginProvider :=
  Attempt.onFailure (.rejectedPlugin i.kind) do
    match i with
    | .native r => return r
    | .generic (.plugin p) f => ofFields p f
    | i => throw (.wrongRecord i.kind kind)

/-- Reads a record from a value that is to be an instance. -/
def ofValue (v : Value) : Attempt RecordError PluginProvider :=
  match v with
  | .provider i => ofInstance i
  | v => throw (.wrongRecord v.kind kind)

/-- Reads the processors of a compilation from the fields of a struct. -/
def ofCompilationFields (p : Origin) (f : Fields Value) :
    Attempt RecordError PluginProvider := do
  let plugins ← readProcessors f pluginsField
  let apiPlugins ← readProcessors f apiPluginsField
  if plugins.isEmpty && apiPlugins.isEmpty then
    return empty p.isBuiltin
  else
    make [] plugins apiPlugins p.isBuiltin

/-- Reads the processors of a compilation, and leaves its outputs behind. -/
def ofCompilation (i : Instance) : Attempt RecordError PluginProvider :=
  Attempt.onFailure (.rejectedCompilation i.kind) do
    match i with
    | .generic (.compilation p) f => ofCompilationFields p f
    | i => throw (.wrongRecord i.kind (.provider ProviderKey.compilationName))

/-- Writes a record as a struct under its own key. -/
def toInstance (r : PluginProvider) : Instance :=
  .generic r.key <| .ofList [
    (CompiledOutput.listField, .list (r.outputs.map CompiledOutput.toValue)),
    (pluginsField, .processors r.plugins),
    (apiPluginsField, .processors r.apiPlugins)]

end PluginClosure.PluginProvider
