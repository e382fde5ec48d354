import PluginClosure.TransitiveSet.Cursor
import PluginClosure.Text.Outline
import PluginClosure.Text.Quoted

/-!
# The debug text of transitive sets

Debug text shows the order of a set and its distinct elements in that order, and nothing of the
nodes behind them.

## Main definitions

* `PluginClosure.TransitiveSet.outline`, `PluginClosure.Cursor.outline`.
-/

namespace PluginClosure

variable {α : Type} [BEq α] [Hashable α]

/-- The debug text of a set, in terms of that of its elements. -/
def TransitiveSet.outline (element : α → Text.Outline) (s : TransitiveSet α) : Text.Outline :=
  .record "Depset" [
    ("order", .word s.order.debugName),
    ("elements", .list (s.toList.map element))]

/-- The debug text of a cursor. It names the state, and gives away that there is more to it. -/
def Cursor.outline (c : Cursor α) : Text.Outline :=
  .excerpt "Iter" [("state", .word (Text.quoted c.stateName))]

end PluginClosure
