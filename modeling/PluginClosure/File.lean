import PluginClosure.Text.Outline

/-!
# Files

A file of the build is known by the path under which the build uses it. Nothing here looks behind
the path. Files are ordered by their paths, code point by code point.

## Main definitions

* `PluginClosure.File`, with its order.
-/

namespace PluginClosure

open Text (Outline)

/-- A file of the build. -/
structure File where
  /-- The path under which the build uses the file. -/
  path : String
deriving DecidableEq, Hashable, Repr

namespace File

instance : ToString File := ⟨path⟩

instance : LE File where
  le f g := f.path ≤ g.path

instance : DecidableLE File := fun f g => inferInstanceAs (Decidable (f.path ≤ g.path))

/-- The debug text of a file. The path is not quoted. -/
def outline (f : File) : Outline := .word s!"<File {f.path}>"

end File

end PluginClosure
