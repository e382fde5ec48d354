/-!
# Outlines

An outline is the debug text of a value before it is laid out: words, labelled parts, and groups in
brackets. It can be written on one line, or with every item of a group on lines of its own, indented
by four blanks for each level. The indentation reaches every line of an item, those inside a word
that runs over several lines included. A group may end in two dots, which tell that there is more to
it. The dots are no item: on lines of their own, every item is followed by a comma, and they are not.

## Main definitions

* `PluginClosure.Text.Outline`, with the groups `record`, `excerpt`, `tuple`, `list` and `map`.
* `PluginClosure.Text.Outline.line`: the layout on one line.
* `PluginClosure.Text.Outline.block`: the layout with one item to a line.
-/

namespace PluginClosure.Text

/-- What stands around the items of a group. -/
structure Bracket where
  /-- The text before the items. -/
  opening : String
  /-- The text after the items. -/
  closing : String
  /-- Whether blanks separate the items from the brackets where all is on one line. -/
  padded : Bool := false
  /-- Whether two dots behind the items stand for what is not shown. -/
  dotted : Bool := false
deriving DecidableEq, Repr

namespace Bracket

/-- The braces of a record. -/
def braces (name : String) : Bracket :=
  { opening := name ++ " \x7b", closing := "\x7d", padded := true }

/-- The dots, if there are any. -/
def dots (b : Bracket) : List String := if b.dotted then [".."] else []

end Bracket

/-- Debug text before it is laid out. -/
inductive Outline where
  /-- A text that is written as it is. -/
  | word (s : String)
  /-- A part under a name. -/
  | labelled (name : String) (part : Outline)
  /-- Items in brackets. -/
  | group (b : Bracket) (items : List Outline)

namespace Outline

/-- A record: its name, and its fields in braces. -/
def record (name : String) (fields : List (String × Outline)) : Outline :=
  .group (.braces name) (fields.map fun (n, o) => labelled n o)

/-- A record of which some fields are not shown. -/
def excerpt (name : String) (fields : List (String × Outline)) : Outline :=
  .group { Bracket.braces name with dotted := true } (fields.map fun (n, o) => labelled n o)

/-- A constructor with arguments in parentheses. -/
def tuple (name : String) (arguments : List Outline) : Outline :=
  .group { opening := name ++ "(", closing := ")" } arguments

/-- A list in square brackets. -/
def list (items : List Outline) : Outline :=
  .group { opening := "[", closing := "]" } items

/-- A map from keys to values in braces. -/
def map (entries : List (String × Outline)) : Outline :=
  .group { opening := "\x7b", closing := "\x7d" } (entries.map fun (k, o) => labelled k o)

/-! ### On one line -/

/-- Puts brackets around the items of a group, written on one line. -/
def encloseLine (b : Bracket) (items : List String) : String :=
  match items ++ b.dots with
  | [] => b.opening ++ b.closing
  | items =>
    let pad := if b.padded then " " else ""
    b.opening ++ pad ++ ", ".intercalate items ++ pad ++ b.closing

mutual

/-- The outline on one line. -/
def line : Outline → String
  | word s => s
  | labelled n o => n ++ ": " ++ line o
  | group b items => encloseLine b (lineAll items)

/-- Each of the outlines on one line. -/
def lineAll : List Outline → List String
  | [] => []
  | o :: l => line o :: lineAll l

end

/-! ### With one item to a line -/

/-- Puts a text in front of the first line. -/
def labelFirst (s : String) : List String → List String
  | [] => [s]
  | x :: l => (s ++ x) :: l

/-- Puts a text behind the last line. -/
def endLast (s : String) : List String → List String
  | [] => [s]
  | [x] => [x ++ s]
  | x :: l => x :: endLast s l

/-- Puts brackets around the items of a group, each of them given by its lines. A group without
items stays on one line. -/
def encloseLines (b : Bracket) : List (List String) → List String
  | [] => [encloseLine b []]
  | items => b.opening :: (items.flatMap (endLast ",") ++ b.dots).map ("    " ++ ·) ++ [b.closing]

mutual

/-- The lines of the outline, with every item of a group on lines of its own. -/
def lines : Outline → List String
  | word s => s.splitOn "\n"
  | labelled n o => labelFirst (n ++ ": ") (lines o)
  | group b items => encloseLines b (linesAll items)

/-- The lines of each of the outlines. -/
def linesAll : List Outline → List (List String)
  | [] => []
  | o :: l => lines o :: linesAll l

end

/-- The outline with every item of a group on lines of its own. -/
def block (o : Outline) : String := "\n".intercalate o.lines

end Outline

end PluginClosure.Text
