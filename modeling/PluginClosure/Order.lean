/-!
# Traversal orders

A transitive set fixes, when it is created, the order in which its elements are listed. The orders
differ in where the own elements of a set stand relative to the elements of the sets it imports,
and in which occurrence of a repeated element survives. Only sets of one order are combined.

## Main definitions

* `PluginClosure.Order`: the four orders, and their names in configuration files.
* `PluginClosure.Order.ofName`: the order with a given name.
* `PluginClosure.UnknownOrder`: the error for any other name.
-/

namespace PluginClosure

/-- The order in which a transitive set lists its elements. -/
inductive Order where
  /-- Own elements and imports in the sequence in which they were added, first occurrence kept. -/
  | insertion
  /-- Imports, left to right, before the own elements. -/
  | postorder
  /-- Own elements before the imports, left to right. -/
  | preorder
  /-- Own elements before everything imported, by whatever paths it is reached. -/
  | topological
deriving DecidableEq, Repr

/-- An order was asked for by a name that no order has. -/
structure UnknownOrder where
  /-- The name asked for. -/
  name : String
deriving DecidableEq, Repr

namespace Order

/-- Every order, in the sequence in which messages list them. -/
def all : List Order := [insertion, postorder, preorder, topological]

theorem mem_all (o : Order) : o ∈ all := by cases o <;> decide

/-- The name of the order in configuration files. -/
def name : Order → String
  | insertion => "default"
  | postorder => "postorder"
  | preorder => "preorder"
  | topological => "topological"

/-- The name of the order in debug text. -/
def debugName : Order → String
  | insertion => "Stable"
  | postorder => "Compile"
  | preorder => "NaiveLink"
  | topological => "Link"

instance : Inhabited Order := ⟨insertion⟩

instance : ToString Order := ⟨name⟩

theorem name_injective {o p : Order} (h : o.name = p.name) : o = p := by
  cases o <;> cases p <;> simp_all [name]

/-- The order with the given name. -/
def ofName (s : String) : Except UnknownOrder Order :=
  match all.find? (·.name = s) with
  | some o => .ok o
  | none => .error ⟨s⟩

@[simp] theorem ofName_name (o : Order) : ofName o.name = .ok o := by
  cases o <;> rfl

end Order

/-- The text of the error, which lists the names that would have been accepted. -/
def UnknownOrder.message (e : UnknownOrder) : String :=
  s!"Invalid order: {e.name} (want one of " ++ ", ".intercalate (Order.all.map Order.name) ++ ")"

end PluginClosure
