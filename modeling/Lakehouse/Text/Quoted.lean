import Lakehouse.Text.Blank

/-!
# Quoted names in messages

Messages list names between double quotes. A quote or a backslash inside a name is escaped, and so
is every character that would not show on a page: controls, separators other than the space,
format characters, private characters and noncharacters.

Model of how names are displayed in quotes. Left out: the escapes of combining marks and of
unassigned characters.
-/

namespace Lakehouse.Text

/-- The ranges of characters that leave no mark of their own on a page: the properties Cc, Cf,
Zl, Zp, Co, and Zs without the space, together with the noncharacters. -/
def invisibleRanges : List (Nat × Nat) :=
  [(0x00, 0x1f), (0x7f, 0xa0), (0xad, 0xad), (0x600, 0x605), (0x61c, 0x61c), (0x6dd, 0x6dd),
    (0x70f, 0x70f), (0x890, 0x891), (0x8e2, 0x8e2), (0x1680, 0x1680), (0x180e, 0x180e),
    (0x2000, 0x200f), (0x2028, 0x202f), (0x205f, 0x206f), (0x3000, 0x3000), (0xe000, 0xf8ff),
    (0xfdd0, 0xfdef), (0xfeff, 0xfeff), (0xfff0, 0xfffb), (0xfffe, 0xffff),
    (0x110bd, 0x110bd), (0x110cd, 0x110cd), (0x13430, 0x1343f), (0x1bca0, 0x1bca3),
    (0x1d173, 0x1d17a), (0xe0000, 0xe0fff), (0xf0000, 0x10ffff)]

/-- Whether a character leaves a mark of its own on a page; the space counts as one. -/
def isVisible (c : Char) : Bool :=
  invisibleRanges.all fun (lo, hi) => c.toNat < lo || hi < c.toNat

/-- The lower-case hexadecimal digits of a number. -/
def hexDigits (n : Nat) : List Char := Nat.toDigits 16 n

/-- A character as it stands between double quotes. -/
def escapeChar : Char → List Char
  | '"' => ['\\', '"']
  | '\\' => ['\\', '\\']
  | '\n' => ['\\', 'n']
  | '\r' => ['\\', 'r']
  | '\t' => ['\\', 't']
  | '\x00' => ['\\', '0']
  | c => if isVisible c then [c] else "\\u\x7b".toList ++ hexDigits c.toNat ++ ['\x7d']

/-- A text between double quotes. -/
def quote (s : String) : String :=
  String.ofList ('"' :: s.toList.flatMap escapeChar ++ ['"'])

/-- Quoted texts between square brackets. -/
def quoteList (names : List String) : String :=
  "[" ++ String.intercalate ", " (names.map quote) ++ "]"

end Lakehouse.Text
