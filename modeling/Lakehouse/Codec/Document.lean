import Lakehouse.Dictionary

/-!
# Reading records from documents

Configuration is written in more than one notation. What reading a record needs from a notation is
collected in `Document`: whether a node is absent, its text, its elements, its members. Readers of
records are written once, over any notation.

* `Document.fields?` — the nodes of the named members of a record. Members with other names are
  skipped; a named member may stand only once.
* `Document.required`, `Document.optional`, `Document.orElse` — what a member has to be: present,
  present or absent, or replaced by a default.

Model of how a record with default and optional members is deserialised. Left out: the words for a
document that is not accepted.
-/

namespace Lakehouse

/-- A notation for trees of texts, lists and records. -/
class Document (δ : Type) where
  /-- The node stands for an absent value. -/
  isNull : δ → Bool
  /-- The text of a node that is one. -/
  text? : δ → Option String
  /-- The elements of a list. -/
  elements? : δ → Option (List δ)
  /-- The members of a record, in order; the name of a member may be unreadable. -/
  members? : δ → Option (List (Option String × δ))
  /-- Records may also be written as lists of their members' values. -/
  positional : Bool

namespace Document

variable {δ : Type} [Document δ] {α : Type}

/-- The one node with that name; no result when there are two. -/
def single? (name : String) (members : List (Option String × δ)) : Option (Option δ) :=
  match members.filter fun m => m.1 = some name with
  | [] => some none
  | [m] => some (some m.2)
  | _ => none

/-- The nodes of the named members of a record. As a list, a record has at least its first
`needed` members. -/
def fields? (names : List String) (needed : Nat) (d : δ) : Option (List (Option δ)) :=
  match Document.members? d with
  | some members =>
    if members.any (·.1.isNone) then none else names.mapM fun name => single? name members
  | none =>
    if positional δ then do
      let elements ← Document.elements? d
      if needed ≤ elements.length ∧ elements.length ≤ names.length then
        some (elements.map some ++ List.replicate (names.length - elements.length) none)
      else none
    else none

/-- A member that has to be there. -/
def required (read : δ → Option α) : Option δ → Option α
  | some d => read d
  | none => none

/-- A node that may stand for an absent value. -/
def nullable (read : δ → Option α) (d : δ) : Option (Option α) :=
  if Document.isNull d then some none else (read d).map some

/-- A member that may be missing or absent. -/
def optional (read : δ → Option α) : Option δ → Option (Option α)
  | some d => nullable read d
  | none => some none

/-- A member that has a default. -/
def orElse (default : α) (read : δ → Option α) : Option δ → Option α
  | some d => read d
  | none => some default

/-- The elements of a list, each read alike. -/
def list? (read : δ → Option α) (d : δ) : Option (List α) := do
  (← Document.elements? d).mapM read

/-- A record with members of any name, each read alike; of two with one name the later counts. -/
def dictionary? (read : δ → Option α) (d : δ) : Option (Dictionary α) := do
  let entries ← (← Document.members? d).mapM fun (name, value) => do
    return (← name, ← read value)
  return Dictionary.ofList entries

end Document

end Lakehouse
