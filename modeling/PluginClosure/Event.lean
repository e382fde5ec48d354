import PluginClosure.TransitiveSet.Draft
import PluginClosure.Value.Kind

/-!
# Events

Reading records from values, and uniting what a target exposes, notes events for whoever wants to
follow it. Every event has a level, a message, and named data.

## Main definitions

* `PluginClosure.RecordError`: why a value is no record.
* `PluginClosure.Event`, with `Event.level`, `Event.message` and `Event.data`.
-/

namespace PluginClosure

/-- Why no record could be made of a value, or of what a target exposes. -/
inductive RecordError where
  /-- The value is another kind of record, or none at all. -/
  | wrongRecord (actual expected : Kind)
  /-- The value has the right kind, but one of its fields is wrong. -/
  | field (e : FieldError)
  /-- Records were to be united that list their elements in another order. -/
  | order (e : OrderMismatch)
deriving DecidableEq, Repr

/-- The text of the error. -/
def RecordError.message : RecordError → String
  | wrongRecord k l => s!"got element of type {k.typeName}, want {l.typeName}"
  | field e => e.message
  | order e => e.message

/-- How much attention an event asks for. -/
inductive Level where
  /-- Of interest when every step is followed. -/
  | trace
  /-- Of interest when something goes wrong. -/
  | debug
deriving DecidableEq, Repr

/-- The name of the level. -/
def Level.name : Level → String
  | trace => "TRACE"
  | debug => "DEBUG"

/-- A datum that goes with an event. -/
inductive Datum where
  /-- A text. -/
  | text (s : String)
  /-- A truth value. -/
  | flag (b : Bool)
deriving DecidableEq, Repr

/-- What can be noted. -/
inductive Event where
  /-- A value is no record of processors. -/
  | rejectedProcessors (value : Kind) (e : RecordError)
  /-- An instance has no plugins to be read as those of a compilation. -/
  | rejectedCompilation (provider : Kind) (e : RecordError)
  /-- An instance is no record of the plugin provider. -/
  | rejectedPlugin (provider : Kind) (e : RecordError)
  /-- A target does not say which plugins apply. -/
  | lookupFailed (label : String) (e : RecordError)
  /-- A target has the plugin provider under both keys. -/
  | unitingIdentities (currentBuiltin legacyBuiltin : Bool)
deriving DecidableEq, Repr

namespace Event

/-- How much attention the event asks for. -/
def level : Event → Level
  | unitingIdentities _ _ => .trace
  | _ => .debug

/-- The message of the event. -/
def message : Event → String
  | rejectedProcessors _ _ => "rejected plugin data"
  | rejectedCompilation _ _ => "rejected compilation provider"
  | rejectedPlugin _ _ => "rejected plugin provider"
  | lookupFailed _ _ => "plugin provider lookup failed"
  | unitingIdentities _ _ => "merging plugin providers of both identities"

/-- The named data of the event. -/
def data : Event → List (String × Datum)
  | rejectedProcessors k e => [("value", .text k.typeName), ("err", .text e.message)]
  | rejectedCompilation k e => [("provider", .text k.typeName), ("err", .text e.message)]
  | rejectedPlugin k e => [("provider", .text k.typeName), ("err", .text e.message)]
  | lookupFailed l e => [("label", .text l), ("err", .text e.message)]
  | unitingIdentities b c => [("current_builtin", .flag b), ("legacy_builtin", .flag c)]

end Event

end PluginClosure
