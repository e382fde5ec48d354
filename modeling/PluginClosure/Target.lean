import PluginClosure.PluginProvider.Struct
import Std.Data.HashMap

/-!
# Looking up the plugin provider of a target

A target has a label, and exposes instances of providers under keys. The plugin provider exists
under two keys, and as long as both are in use a target may expose either or both. A lookup reads
the two, and unites the records if both are there, since each may know of processors that the other
does not.

## Main definitions

* `PluginClosure.Target`: a label, and an instance for some of the keys.
* `PluginClosure.Exports`: a target in the making; an instance is filed under its own key.
* `PluginClosure.Slots`, `Slots.ofTarget`, `Slots.union`: the two records, and the one they make.
* `PluginClosure.PluginProvider.ofTarget`: the record of a target.
-/

namespace PluginClosure

/-- What a lookup sees of a target. -/
structure Target where
  /-- The label, for messages. -/
  label : String
  /-- The instance under a key. -/
  provider : ProviderKey → Option Instance

/-- A label, and instances filed under their own keys. -/
structure Exports where
  /-- The label, for messages. -/
  label : String
  /-- The instances. -/
  providers : Std.HashMap ProviderKey Instance

namespace Exports

/-- A target without instances. -/
def empty (label : String) : Exports := ⟨label, ∅⟩

/-- Files an instance. The instance under the same key, if there is one, is taken out. -/
def insert (m : Exports) (i : Instance) : Option Instance × Exports :=
  (m.providers[i.key]?, { m with providers := m.providers.insert i.key i })

/-- A target with the instances of a list. Of several under one key the last one stays. -/
def ofList (label : String) (l : List Instance) : Exports :=
  l.foldl (fun m i => (m.insert i).2) (empty label)

/-- What a lookup sees. -/
def toTarget (m : Exports) : Target := ⟨m.label, fun k => m.providers[k]?⟩

end Exports

/-- The records that a target has under the two keys of the plugin provider. -/
structure Slots where
  /-- The record under the key of the rules that are maintained outside the build tool. -/
  current : Option PluginProvider := none
  /-- The record under the key of the bundled rules. -/
  legacy : Option PluginProvider := none

namespace Slots

/-- Reads the record under one of the keys. -/
def read (t : Target) (p : Origin) : Attempt RecordError (Option PluginProvider) :=
  match t.provider (.plugin p) with
  | none => return none
  | some i => return some (← PluginProvider.ofInstance i)

/-- Reads both records, the current one first. -/
def ofTarget (t : Target) : Attempt RecordError Slots :=
  Attempt.onFailure (.lookupFailed t.label) do
    return { current := ← read t .rulesDefined, legacy := ← read t .builtin }

/-- The record that the slots make: the only one as it is, or the union of both. -/
def union : Slots → Attempt OrderMismatch (Option PluginProvider)
  | ⟨none, none⟩ => return none
  | ⟨some r, none⟩ => return some r
  | ⟨none, some r⟩ => return some r
  | ⟨some r, some s⟩ => do
    Attempt.note (.unitingIdentities r.builtin s.builtin)
    return some (← PluginProvider.unionTwo r s)

end Slots

/-- The record that a target has of the plugin provider. -/
def PluginProvider.ofTarget (t : Target) : Attempt RecordError (Option PluginProvider) := do
  let slots ← Slots.ofTarget t
  Attempt.mapError .order slots.union

end PluginClosure
