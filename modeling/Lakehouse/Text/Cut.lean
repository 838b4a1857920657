/-!
# Cutting texts

`cut` divides a text at the first separator; `pieces` divides it at every separator. Joining the
pieces with the separator gives the text back.

Model of `split` and `split_once` at one character, and of `strip_prefix`.
-/

namespace Lakehouse.Text

/-- The characters before the first separator, and those behind it if there is one. -/
def cut (sep : Char) : List Char → List Char × Option (List Char)
  | [] => ([], none)
  | c :: rest =>
    if c = sep then ([], some rest)
    else ((c :: (cut sep rest).1), (cut sep rest).2)

/-- The parts of a text between its separators. -/
def pieces (sep : Char) (s : String) : List String := (s.toList.splitOn sep).map String.ofList

/-- The text that starts with `start`, without it. -/
def stripStart? (start cs : List Char) : Option (List Char) :=
  if start.isPrefixOf cs then some (cs.drop start.length) else none

end Lakehouse.Text
