import PluginClosure.Order

/-!
# Kinds of values

The configuration language knows a value by its kind. Messages give a kind in one of two ways: by
the name of its type, or by a description that also says what a set holds.

## Main definitions

* `PluginClosure.Kind`, `Kind.typeName`, `Kind.describe`.
* `PluginClosure.FieldError`: what can be wrong with a field of a struct.
-/

namespace PluginClosure

/-- What a set of the configuration language holds. -/
inductive ElementKind where
  /-- Strings. -/
  | string
  /-- Files. -/
  | file
deriving DecidableEq, Repr

/-- What kind of thing a value is. -/
inductive Kind where
  /-- The absent value. -/
  | none
  /-- A truth value. -/
  | bool
  /-- An integer. -/
  | int
  /-- A string. -/
  | string
  /-- A single file. -/
  | file
  /-- A list. -/
  | list
  /-- A transitive set. -/
  | set (e : ElementKind)
  /-- A struct of named fields. -/
  | struct
  /-- A record of processors. -/
  | processors
  /-- An instance of the provider with this name. -/
  | provider (name : String)
deriving DecidableEq, Repr

namespace Kind

/-- The name of the type in messages. -/
def typeName : Kind → String
  | none => "NoneType"
  | bool => "bool"
  | int => "int"
  | string => "string"
  | file => "File"
  | list => "list"
  | set _ => "depset"
  | struct => "struct"
  | processors => "PluginData"
  | provider n => n

/-- The name of the type, with the type of the elements for a set. -/
def describe : Kind → String
  | set .string => "depset of 'string'"
  | set .file => "depset of 'File'"
  | k => k.typeName

end Kind

/-- What a field is to hold. -/
inductive Demand where
  /-- A value of the kind. -/
  | exactly (k : Kind)
  /-- A value of the kind, or the absent value. -/
  | optional (k : Kind)
deriving DecidableEq, Repr

/-- The text for what a field is to hold. -/
def Demand.describe : Demand → String
  | exactly k => k.describe
  | optional k => k.describe ++ " or None"

/-- What is wrong with a field. -/
inductive FieldError where
  /-- The struct has no such field. -/
  | missing (field : String)
  /-- The field holds a value of another kind. -/
  | wrongKind (field : String) (actual : Kind) (expected : Demand)
  /-- The field holds a set, as it is to, but one of another order. -/
  | wrongOrder (field : String) (actual : Kind) (actualOrder : Order) (expected : Kind)
      (expectedOrder : Order)
deriving DecidableEq, Repr

/-- The text of the error. -/
def FieldError.message : FieldError → String
  | missing f => s!"Missing field: {f}"
  | wrongKind f k d => s!"for {f}, got {k.describe}, want {d.describe}"
  | wrongOrder f k o l p =>
    s!"for {f}, got {k.describe} (order {o}), want {l.describe} (order {p})"

end PluginClosure
