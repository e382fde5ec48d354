import PluginClosure.Value.Basic
import PluginClosure.PluginProvider.Outline

/-!
# The debug text of values

Every value is shown under the name of its case. The fields of a struct appear in the order of their
names, which are quoted.

## Main definitions

* `PluginClosure.Value.outline`, `PluginClosure.InstanceOf.outline`.
-/

namespace PluginClosure

open Text (Outline quoted)

namespace InstanceOf

/-- The debug text of a struct, in terms of that of its fields. -/
def outlineFields (entries : List (String × Outline)) : Outline :=
  .record "Struct" [("fields", .map entries)]

/-- The debug text of an instance that is a record. -/
def outlineNative (r : PluginProvider) : Outline := .tuple "Plugin" [r.outline]

/-- The debug text of an instance that is a struct, in terms of that of its fields. -/
def outlineGeneric (k : ProviderKey) (entries : List (String × Outline)) : Outline :=
  .record "Struct" [("key", k.outline), ("fields", outlineFields entries)]

end InstanceOf

namespace Value

open InstanceOf

mutual

/-- The debug text of a value. -/
def outline : Value → Outline
  | none => .word "None"
  | bool b => .tuple "Bool" [.word (toString b)]
  | int n => .tuple "Int" [.word (toString n)]
  | string s => .tuple "String" [.word (quoted s)]
  | file f => .tuple "Artifact" [f.outline]
  | list l => .tuple "List" [.list (outlineItems l)]
  | strings s => .tuple "StringSet" [s.outline fun s => .word (quoted s)]
  | files s => .tuple "ArtifactSet" [s.outline File.outline]
  | struct ⟨es⟩ => .tuple "Struct" [outlineFields (outlineEntries es)]
  | processors p => .tuple "PluginData" [p.outline]
  | provider (.native r) => .tuple "Info" [outlineNative r]
  | provider (.generic k ⟨es⟩) => .tuple "Info" [outlineGeneric k (outlineEntries es)]

/-- The debug texts of the items of a list. -/
def outlineItems : List Value → List Outline
  | [] => []
  | v :: l => outline v :: outlineItems l

/-- The debug texts of fields, with their names in quotes. -/
def outlineEntries : List (String × Value) → List (String × Outline)
  | [] => []
  | (n, v) :: l => (quoted n, outline v) :: outlineEntries l

end

end Value

/-- The debug text of an instance. -/
def InstanceOf.outline : InstanceOf Value → Outline
  | .native r => outlineNative r
  | .generic k f => outlineGeneric k (Value.outlineEntries f.entries)

end PluginClosure
