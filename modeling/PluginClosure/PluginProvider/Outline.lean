import PluginClosure.PluginProvider.Basic
import PluginClosure.TransitiveSet.Outline

/-!
# The debug text of plugin records

## Main definitions

* `PluginClosure.Processors.outline`, `PluginClosure.PluginProvider.outline`.
-/

namespace PluginClosure

open Text (Outline quoted)

/-- The debug text of a record of processors. -/
def Processors.outline (p : Processors) : Outline :=
  .record "PluginData" [
    ("processor_classes", p.classes.outline fun s => .word (quoted s)),
    ("processor_classpath", p.classpath.outline File.outline),
    ("processor_data", p.data.outline File.outline)]

/-- The debug text of a record of the plugin provider. -/
def PluginProvider.outline (r : PluginProvider) : Outline :=
  .record "PluginInfo" [
    ("build_outputs", .list (r.outputs.map CompiledOutput.outline)),
    ("plugins", r.plugins.outline),
    ("api_generating_plugins", r.apiPlugins.outline),
    ("builtin", .word (toString r.builtin))]

end PluginClosure
