import PluginClosure.PluginProvider.Basic
import PluginClosure.Value.Kind
import PluginClosure.Value.Fields

/-!
# Values of the configuration language

Records come from, and go to, a configuration language whose values are loosely typed. A record may
appear there as it is, or as a struct with agreed field names.

## Main definitions

* `PluginClosure.Value`: the values.
* `PluginClosure.Instance`: an instance of a provider, either a record or a struct under a key.
* `PluginClosure.Value.struct?`, `list?`, `file?`, `optionalFile?`, `strings?`, `files?`: readings
  of a value that is to have a certain kind. Each is given the name of the field that the value
  comes from, for the error.
-/

namespace PluginClosure

/-- An instance of a provider, over the type of values that fields hold. -/
inductive InstanceOf (β : Type) where
  /-- A record of the plugin provider. -/
  | native (r : PluginProvider)
  /-- A struct exported under a key. -/
  | generic (key : ProviderKey) (fields : Fields β)

/-- A value of the configuration language. -/
inductive Value where
  /-- The absent value. -/
  | none
  /-- A truth value. -/
  | bool (b : Bool)
  /-- An integer. -/
  | int (n : Int)
  /-- A string. -/
  | string (s : String)
  /-- A single file. -/
  | file (f : File)
  /-- A list. -/
  | list (l : List Value)
  /-- A transitive set of strings. -/
  | strings (s : TransitiveSet String)
  /-- A transitive set of files. -/
  | files (s : TransitiveSet File)
  /-- A struct of named fields. -/
  | struct (fields : Fields Value)
  /-- A record of processors. -/
  | processors (p : Processors)
  /-- An instance of a provider. -/
  | provider (i : InstanceOf Value)

/-- An instance of a provider. -/
abbrev Instance := InstanceOf Value

namespace InstanceOf

variable {β : Type}

/-- The key that the instance is filed under. -/
def key : InstanceOf β → ProviderKey
  | native r => r.key
  | generic k _ => k

/-- The kind of the instance. -/
def kind (i : InstanceOf β) : Kind := .provider i.key.name

end InstanceOf

/-- The kind of the plugin provider. -/
def PluginProvider.kind : Kind := .provider ProviderKey.pluginName

namespace Value

/-- The kind of a value. -/
def kind : Value → Kind
  | none => .none
  | bool _ => .bool
  | int _ => .int
  | string _ => .string
  | file _ => .file
  | list _ => .list
  | strings _ => .set .string
  | files _ => .set .file
  | struct _ => .struct
  | processors _ => .processors
  | provider i => i.kind

/-- The refusal of a value that does not have the kind that its field is to have. -/
def refuse {α : Type} (v : Value) (field : String) (d : Demand) : Except FieldError α :=
  .error (.wrongKind field v.kind d)

/-- The fields of a struct. -/
def struct? (v : Value) (field : String) : Except FieldError (Fields Value) :=
  match v with
  | struct f => .ok f
  | v => v.refuse field (.exactly .struct)

/-- The items of a list. -/
def list? (v : Value) (field : String) : Except FieldError (List Value) :=
  match v with
  | list l => .ok l
  | v => v.refuse field (.exactly .list)

/-- A file. -/
def file? (v : Value) (field : String) : Except FieldError File :=
  match v with
  | file f => .ok f
  | v => v.refuse field (.exactly .file)

/-- A file, or the absent value. -/
def optionalFile? (v : Value) (field : String) : Except FieldError (Option File) :=
  match v with
  | none => .ok Option.none
  | file f => .ok (some f)
  | v => v.refuse field (.optional .file)

/-- A set of strings. An empty set of files will do, since it holds no file. -/
def strings? (v : Value) (field : String) : Except FieldError (TransitiveSet String) :=
  match v with
  | strings s => .ok s
  | files s =>
    if s.isEmpty then .ok (.empty s.order)
    else (files s).refuse field (.exactly (.set .string))
  | v => v.refuse field (.exactly (.set .string))

/-- A set of files. An empty set of strings will do, since it holds no string. -/
def files? (v : Value) (field : String) : Except FieldError (TransitiveSet File) :=
  match v with
  | files s => .ok s
  | strings s =>
    if s.isEmpty then .ok (.empty s.order)
    else (strings s).refuse field (.exactly (.set .file))
  | v => v.refuse field (.exactly (.set .file))

end Value

/-- The value of a field that a struct is to have. -/
def Fields.require {β : Type} (f : Fields β) (name : String) : Except FieldError β :=
  match f.get? name with
  | some v => .ok v
  | none => .error (.missing name)

end PluginClosure
