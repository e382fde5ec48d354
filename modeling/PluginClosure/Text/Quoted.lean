/-!
# Quoted text

Debug text shows a string between double quotes. Quotes and backslashes are escaped, and so are the
characters without a shape of their own, for which there is a short form or the code point in
hexadecimal digits. Everything else, apostrophes included, is shown as it is.

## Main definitions

* `PluginClosure.Text.shapeless`: the ranges of characters without a shape of their own.
* `PluginClosure.Text.escape`: how a character is written between quotes.
* `PluginClosure.Text.quoted`: a string with its quotes.

## Implementation notes

Debug text in full also gives the code points of marks that combine with the character before them,
and of code points to which no character is assigned. The tables for these two classes are long and
grow with every version of the character standard. They are left out: such characters are shown as
they are.
-/

namespace PluginClosure.Text

/-- The ranges of characters without a shape of their own, in ascending order: controls, blanks
other than the space, separators, format characters, and private use. -/
def shapeless : List (Nat × Nat) := [
  (0x0, 0x1f), (0x7f, 0xa0), (0xad, 0xad), (0x600, 0x605), (0x61c, 0x61c), (0x6dd, 0x6dd),
  (0x70f, 0x70f), (0x890, 0x891), (0x8e2, 0x8e2), (0x1680, 0x1680), (0x180e, 0x180e),
  (0x2000, 0x200f), (0x2028, 0x202f), (0x205f, 0x2064), (0x2066, 0x206f), (0x3000, 0x3000),
  (0xe000, 0xf8ff), (0xfeff, 0xfeff), (0xfff9, 0xfffb), (0x110bd, 0x110bd), (0x110cd, 0x110cd),
  (0x13430, 0x1343f), (0x1bca0, 0x1bca3), (0x1d173, 0x1d17a), (0xe0001, 0xe0001),
  (0xe0020, 0xe007f), (0xf0000, 0xffffd), (0x100000, 0x10fffd)]

/-- Whether a character is in one of the ranges of `shapeless`. -/
def isShapeless (c : Char) : Bool :=
  shapeless.any fun (first, last) => first ≤ c.toNat && c.toNat ≤ last

/-- How a character is written between quotes. Marks that combine with the character before them,
and characters that the standard leaves unassigned, are written as they are. -/
def escape (c : Char) : String :=
  match c with
  | '\x22' => "\\\""
  | '\\' => "\\\\"
  | '\n' => "\\n"
  | '\r' => "\\r"
  | '\t' => "\\t"
  | '\x00' => "\\0"
  | c =>
    if isShapeless c then "\\u\x7b" ++ String.ofList (Nat.toDigits 16 c.toNat) ++ "\x7d"
    else c.toString

/-- The string between quotes. -/
def quoted (s : String) : String :=
  "\"" ++ String.join (s.toList.map escape) ++ "\""

end PluginClosure.Text
