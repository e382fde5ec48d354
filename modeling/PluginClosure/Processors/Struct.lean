import PluginClosure.Value.Basic
import PluginClosure.Attempt

/-!
# Records of processors as structs

In the configuration language a record of processors appears as it is, or as a struct with a set for
each of its parts. The classpath goes by the name `processor_jars` there. A set of another order
than that of records is refused when the struct is read, while the field can still be named, so that
it cannot spoil a union later on.

## Main definitions

* `PluginClosure.Processors.ofValue`: reading.
* `PluginClosure.Processors.toFields`, with `classesValue`, `classpathValue`, `dataValue`: writing.
-/

namespace PluginClosure.Processors

variable {α : Type}

/-- The name of the field that holds the classes. -/
def classesField : String := "processor_classes"

/-- The name of the field that holds the classpath. -/
def classpathField : String := "processor_jars"

/-- The name of the field that holds the data files. -/
def dataField : String := "processor_data"

/-- Reads a field that is to hold a set in the order of records, by a reading for the kind of
set. -/
def readSet (e : ElementKind) (read : Value → String → Except FieldError (TransitiveSet α))
    (f : Fields Value) (name : String) : Except FieldError (TransitiveSet α) := do
  let v ← f.require name
  let s ← read v name
  if s.order = order then
    return s
  else
    throw (.wrongOrder name v.kind s.order (.set e) order)

/-- Reads a field that is to hold strings. -/
def readStrings : Fields Value → String → Except FieldError (TransitiveSet String) :=
  readSet .string Value.strings?

/-- Reads a field that is to hold files. -/
def readFiles : Fields Value → String → Except FieldError (TransitiveSet File) :=
  readSet .file Value.files?

/-- Reads a record from the fields of a struct. Of several faults the one in the first field
counts. -/
def ofFields (f : Fields Value) : Attempt RecordError Processors := do
  let classes ← readStrings f classesField
  let classpath ← readFiles f classpathField
  let data ← readFiles f dataField
  create classes classpath data

/-- Reads a record. A value that is one already is given back. -/
def ofValue (v : Value) : Attempt RecordError Processors :=
  Attempt.onFailure (.rejectedProcessors v.kind) do
    match v with
    | .processors p => return p
    | .struct f => ofFields f
    | v => throw (.wrongRecord v.kind .processors)

/-- The classes as a value. -/
def classesValue (p : Processors) : Value := .strings p.classes

/-- The classpath as a value. -/
def classpathValue (p : Processors) : Value := .files p.classpath

/-- The data files as a value. -/
def dataValue (p : Processors) : Value := .files p.data

/-- Writes a record as the fields of a struct. -/
def toFields (p : Processors) : Fields Value :=
  .ofList [
    (classesField, p.classesValue),
    (classpathField, p.classpathValue),
    (dataField, p.dataValue)]

end PluginClosure.Processors
