/-!
# Blank characters

The characters with the Unicode property White_Space, and what follows from it: trimming a text
at both ends, and asking whether anything but blanks is in it.

Model of `trim`.
-/

namespace Lakehouse.Text

/-- A character with the property White_Space. -/
def isBlank (c : Char) : Bool :=
  let n := c.toNat
  (0x09 ≤ n && n ≤ 0x0d) || n == 0x20 || n == 0x85 || n == 0xa0 || n == 0x1680
    || (0x2000 ≤ n && n ≤ 0x200a) || n == 0x2028 || n == 0x2029 || n == 0x202f
    || n == 0x205f || n == 0x3000

/-- The characters from the first that is not blank. -/
def dropBlanks (cs : List Char) : List Char := cs.dropWhile isBlank

/-- The characters from the first to the last that are not blank. -/
def trimmed (cs : List Char) : List Char := (dropBlanks (dropBlanks cs).reverse).reverse

/-- A text without the blanks at its two ends. -/
def trim (s : String) : String := String.ofList (trimmed s.toList)

/-- Whether a text holds nothing but blanks. -/
def isAllBlank (s : String) : Bool := s.toList.all isBlank

end Lakehouse.Text
