import PluginClosure.Text.Outline
import PluginClosure.Text.Quoted

/-!
# Provider keys

A target exposes what it knows as instances of providers, filed under keys. The plugin provider and
the compilation provider each exist twice: once bundled with the build tool and once defined by the
rules. The two are different providers under the same name, told apart by their origin.

## Main definitions

* `PluginClosure.Origin`: where a provider is defined.
* `PluginClosure.ProviderKey`: what an instance is filed under.
-/

namespace PluginClosure

open Text (Outline quoted)

/-- Where a provider is defined. -/
inductive Origin where
  /-- In the rules bundled with the build tool. -/
  | builtin
  /-- In the rules that are maintained outside the build tool. -/
  | rulesDefined
deriving DecidableEq, Hashable, Repr

namespace Origin

/-- The origin of a record that is, or is not, marked as bundled. -/
def ofBuiltin : Bool → Origin
  | true => builtin
  | false => rulesDefined

/-- Whether the provider is bundled with the build tool. -/
def isBuiltin : Origin → Bool
  | builtin => true
  | rulesDefined => false

@[simp] theorem isBuiltin_ofBuiltin (b : Bool) : (ofBuiltin b).isBuiltin = b := by
  cases b <;> rfl

@[simp] theorem ofBuiltin_isBuiltin (p : Origin) : ofBuiltin p.isBuiltin = p := by
  cases p <;> rfl

/-- The label of the file that defines the providers of this origin. -/
def label : Origin → String
  | builtin => "@_builtins//:common/java/java_info.bzl"
  | rulesDefined => "@rules_java//java/private:java_info.bzl"

/-- The name of the origin in debug text. -/
def debugName : Origin → String
  | builtin => "Builtin"
  | rulesDefined => "RulesDefined"

end Origin

/-- What an instance of a provider is filed under. -/
inductive ProviderKey where
  /-- The plugin provider. -/
  | plugin (p : Origin)
  /-- The compilation provider, which carries plugins among other things. -/
  | compilation (p : Origin)
  /-- A provider of another name. -/
  | other (name : String)
deriving DecidableEq, Hashable, Repr

namespace ProviderKey

/-- The name of the plugin provider. -/
def pluginName : String := "JavaPluginInfo"

/-- The name of the compilation provider. -/
def compilationName : String := "JavaInfo"

/-- The name of the provider, whatever its origin. -/
def name : ProviderKey → String
  | plugin _ => pluginName
  | compilation _ => compilationName
  | other n => n

/-- The label of the file that defines the provider, where it is known. -/
def label? : ProviderKey → Option String
  | plugin p => some p.label
  | compilation p => some p.label
  | other _ => none

instance : ToString ProviderKey where
  toString k :=
    match k.label? with
    | some l => l ++ "%" ++ k.name
    | none => k.name

/-- The debug text of a key. -/
def outline : ProviderKey → Outline
  | plugin p => .tuple "PluginInfo" [.word p.debugName]
  | compilation p => .tuple "JavaInfo" [.word p.debugName]
  | other n => .tuple "Other" [.word (quoted n)]

end ProviderKey

end PluginClosure
