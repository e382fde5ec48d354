import PluginClosure.TransitiveSet.Draft
import PluginClosure.TransitiveSet.Cursor
import PluginClosure.File

/-!
# Annotation processors

A record of processors says which annotation processors are to run: the names of their classes, the
files of their classpath, and the data files that they read. Records are united field by field along
the dependency graph, and a union refers to its parts instead of copying them.

There is one empty record. A record with three empty sets, however it is come by, is that one.

## Main definitions

* `PluginClosure.Processors`, `Processors.empty`, `Processors.create`, `Processors.ofLists`.
* `PluginClosure.Processors.union`: the union of a list of records. Of a repeated element the first
  occurrence is kept, so the records are listed in the sequence of the dependencies.
* `PluginClosure.Processors.same`: whether two records are one and the same object. In contrast,
  `==` compares the elements.
-/

namespace PluginClosure

/-- Which annotation processors are to run, and with what. -/
structure Processors where
  /-- The empty record is canonical. -/
  id : Identity Unit
  /-- The names of the classes to run. -/
  classes : TransitiveSet String
  /-- The files of the classpath to run them with. -/
  classpath : TransitiveSet File
  /-- The files that they read. -/
  data : TransitiveSet File

namespace Processors

/-- The order in which records of processors list their elements when they are united. -/
def order : Order := .insertion

/-- The empty record. -/
def empty : Processors := ⟨.canonical (), .empty order, .empty order, .empty order⟩

/-- Whether there are no elements in any of the sets. Takes constant time. -/
def isEmpty (p : Processors) : Bool :=
  p.classes.isEmpty && p.classpath.isEmpty && p.data.isEmpty

/-- The record with the given sets. If all are empty, whatever their orders, it is the empty one. -/
def create (classes : TransitiveSet String) (classpath data : TransitiveSet File) :
    Fresh Processors := do
  if classes.isEmpty && classpath.isEmpty && data.isEmpty then
    return empty
  else
    return ⟨← Identity.issue, classes, classpath, data⟩

/-- The record that holds the given elements directly. -/
def ofLists (classes : List String) (classpath data : List File) : Fresh Processors := do
  let classes ← TransitiveSet.ofList order classes
  let classpath ← TransitiveSet.ofList order classpath
  let data ← TransitiveSet.ofList order data
  create classes classpath data

/-- Whether two records are one and the same object. -/
def same (p q : Processors) : Bool := p.id = q.id

instance : BEq Processors where
  beq p q :=
    p.same q || (p.classes == q.classes && p.classpath == q.classpath && p.data == q.data)

/-- A union of records in the making. -/
structure Drafts where
  /-- The union of the classes so far. -/
  classes : Draft String := { order }
  /-- The union of the classpaths so far. -/
  classpath : Draft File := { order }
  /-- The union of the data files so far. -/
  data : Draft File := { order }

/-- Imports the sets of one more record. -/
def Drafts.add (u : Drafts) (p : Processors) : Except OrderMismatch Drafts := do
  let classes ← u.classes.addSet p.classes
  let classpath ← u.classpath.addSet p.classpath
  let data ← u.data.addSet p.data
  return { classes, classpath, data }

/-- The record with what has been united. -/
def Drafts.finish (u : Drafts) : Fresh Processors := do
  create (← u.classes.finish) (← u.classpath.finish) (← u.data.finish)

/-- The union of the records of a list. It is refused because of the first set, reading record by
record and field by field, that is not in the order of records. -/
def union (l : List Processors) : ExceptT OrderMismatch Fresh Processors := do
  let u ← (l.foldlM Drafts.add {} : Except OrderMismatch Drafts)
  u.finish

end Processors

end PluginClosure
