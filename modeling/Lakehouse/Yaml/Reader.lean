import Lakehouse.Codec.Document
import Lakehouse.Yaml.Token

/-!
# Reading plain YAML documents

`Yaml.parse` reads a text that is one document. In a block the column of a token says where it
belongs: the entries of a mapping or a sequence stand in one column, and what belongs to an entry
stands further right. Only a sequence may stand in the column of the key it belongs to.

As a `Document`, a scalar has its text whether it is quoted or not. A plain scalar that is empty or
spells null stands for an absent value, and an empty one also for an empty list or record.

Not a model: the program reads documents with a library, and a run takes whatever reads them as a
parameter (`DocumentReader`).
-/

namespace Lakehouse

/-- A YAML document. -/
inductive Yaml where
  | scalar (text : String) (plain : Bool)
  | sequence (elements : List Yaml)
  | mapping (members : List (Yaml × Yaml))

namespace Yaml

/-- What stands for a value that is not written. -/
def nothing : Yaml := .scalar "" true

/-- Reads the lines of a plain scalar that go on right of the column `left`, up to a comment. -/
def foldPlain (left : Nat) (inFlow : Bool) (text : String) (line : Nat) :
    List Token → String × List Token
  | ⟨.scalar more true, place, last, false⟩ :: rest =>
    if line < place.line ∧ (inFlow ∨ left ≤ place.column) then
      foldPlain left inFlow
        (text ++ String.ofList (foldBreaks (place.line - line)) ++ more) last rest
    else (text, ⟨.scalar more true, place, last, false⟩ :: rest)
  | rest => (text, rest)

/-- Whether a key stands here: a scalar with a colon behind it on its line. -/
def atKey : List Token → Bool
  | ⟨.scalar _ _, place, last, _⟩ :: ⟨.colon, colon, _, _⟩ :: _ =>
    place.line = last && last = colon.line
  | _ => false

/-! ## Flow collections -/

mutual

/-- Reads a scalar or a flow collection in at most `steps` steps. -/
def takeFlow (steps left : Nat) (inFlow : Bool) (ts : List Token) :
    Option (Yaml × List Token) :=
  match steps with
  | 0 => none
  | steps + 1 =>
    match ts with
    | ⟨.scalar text false, _, _, _⟩ :: rest => some (.scalar text false, rest)
    | ⟨.scalar text true, _, last, _⟩ :: rest =>
      let (text, rest) := foldPlain left inFlow text last rest
      some (.scalar text true, rest)
    | ⟨.openSequence, _, _, _⟩ :: rest => do
      let (es, rest) ← takeElements steps rest
      return (.sequence es, rest)
    | ⟨.openMapping, _, _, _⟩ :: rest => do
      let (ms, rest) ← takeMembers steps rest
      return (.mapping ms, rest)
    | _ => none

/-- Reads what stands between a colon and the next comma or bracket. -/
def takeFlowValue (steps : Nat) (ts : List Token) : Option (Yaml × List Token) :=
  match steps with
  | 0 => none
  | steps + 1 =>
    match ts with
    | ⟨.comma, _, _, _⟩ :: _ | ⟨.closeSequence, _, _, _⟩ :: _ | ⟨.closeMapping, _, _, _⟩ :: _ =>
      some (nothing, ts)
    | _ => takeFlow steps 0 true ts

/-- Reads the elements of a sequence up to its closing bracket. An element with a colon is a mapping
of one member. -/
def takeElements (steps : Nat) (ts : List Token) : Option (List Yaml × List Token) :=
  match steps with
  | 0 => none
  | steps + 1 =>
    match ts with
    | ⟨.closeSequence, _, _, _⟩ :: rest => some ([], rest)
    | _ => do
      let (e, rest) ← takeFlow steps 0 true ts
      let (e, rest) ← match rest with
        | ⟨.colon, _, _, _⟩ :: rest => do
          let (v, rest) ← takeFlowValue steps rest
          pure (Yaml.mapping [(e, v)], rest)
        | _ => some (e, rest)
      match rest with
      | ⟨.closeSequence, _, _, _⟩ :: rest => return ([e], rest)
      | ⟨.comma, _, _, _⟩ :: rest => do
        let (es, rest) ← takeElements steps rest
        return (e :: es, rest)
      | _ => none

/-- Reads the members of a mapping up to its closing bracket. -/
def takeMembers (steps : Nat) (ts : List Token) : Option (List (Yaml × Yaml) × List Token) :=
  match steps with
  | 0 => none
  | steps + 1 =>
    match ts with
    | ⟨.closeMapping, _, _, _⟩ :: rest => some ([], rest)
    | _ => do
      let (k, rest) ← takeFlow steps 0 true ts
      let (v, rest) ← match rest with
        | ⟨.colon, _, _, _⟩ :: rest => takeFlowValue steps rest
        | _ => some (nothing, rest)
      match rest with
      | ⟨.closeMapping, _, _, _⟩ :: rest => return ([(k, v)], rest)
      | ⟨.comma, _, _, _⟩ :: rest => do
        let (ms, rest) ← takeMembers steps rest
        return ((k, v) :: ms, rest)
      | _ => none

end

/-! ## Blocks -/

mutual

/-- Reads what stands at the column `left` or right of it, in at most `steps` steps. -/
def takeBlock (steps left : Nat) (ts : List Token) : Option (Yaml × List Token) :=
  match steps with
  | 0 => none
  | steps + 1 =>
    match ts with
    | [] => some (nothing, [])
    | t :: _ =>
      if t.place.column < left then some (nothing, ts)
      else if t.kind = .dash then do
        let (es, rest) ← takeEntries steps t.place.column ts
        return (.sequence es, rest)
      else if atKey ts then do
        let (ms, rest) ← takePairs steps t.place.column ts
        return (.mapping ms, rest)
      else takeFlow steps left false ts

/-- Reads the entries of a sequence in the column `column`. -/
def takeEntries (steps column : Nat) (ts : List Token) : Option (List Yaml × List Token) :=
  match steps with
  | 0 => none
  | steps + 1 =>
    match ts with
    | ⟨.dash, place, _, _⟩ :: rest =>
      if place.column = column then do
        let (e, rest) ← takeBlock steps (column + 1) rest
        let (es, rest) ← takeEntries steps column rest
        return (e :: es, rest)
      else if place.column < column then some ([], ts)
      else none
    | t :: _ => if t.place.column ≤ column then some ([], ts) else none
    | [] => some ([], [])

/-- Reads the members of a mapping in the column `column`. -/
def takePairs (steps column : Nat) (ts : List Token) : Option (List (Yaml × Yaml) × List Token) :=
  match steps with
  | 0 => none
  | steps + 1 =>
    match ts with
    | ⟨.scalar key plain, place, _, _⟩ :: ⟨.colon, colon, _, _⟩ :: rest =>
      if place.column = column ∧ atKey ts then do
        let (v, rest) ← takePairValue steps column colon.line rest
        let (ms, rest) ← takePairs steps column rest
        return ((.scalar key plain, v) :: ms, rest)
      else if place.column < column then some ([], ts)
      else none
    | t :: _ => if t.place.column < column then some ([], ts) else none
    | [] => some ([], [])

/-- Reads the value of a key that stands in the column `column`; the colon is on the line `line`. -/
def takePairValue (steps column line : Nat) (ts : List Token) : Option (Yaml × List Token) :=
  match steps with
  | 0 => none
  | steps + 1 =>
    match ts with
    | [] => some (nothing, [])
    | t :: _ =>
      if t.place.line = line then
        if atKey ts then none else takeFlow steps (column + 1) false ts
      else if column < t.place.column then takeBlock steps (column + 1) ts
      else if t.place.column = column ∧ t.kind = .dash then do
        let (es, rest) ← takeEntries steps column ts
        return (.sequence es, rest)
      else some (nothing, ts)

end

/-- The document of a list of tokens. Each token is good for at most three steps. -/
def ofTokens (ts : List Token) : Option Yaml := do
  let (started, ts) := match ts with
    | ⟨.documentStart, _, _, _⟩ :: rest => (true, rest)
    | _ => (false, ts)
  let body := ts.takeWhile (·.kind != .documentEnd)
  let behind := ts.dropWhile (·.kind != .documentEnd)
  if (body = [] ∧ !started) ∨ behind.any (·.kind != .documentEnd) then none
  else
    match takeBlock (3 * body.length + 3) 0 body with
    | some (y, []) => some y
    | _ => none

/-- Reads a text that is one document. -/
def parse (text : String) : Option Yaml := do ofTokens (← tokens text.toList)

/-! ## As a notation for records -/

/-- Whether a scalar stands for an absent value. -/
def isNull : Yaml → Bool
  | .scalar text true => ["", "null", "Null", "NULL", "~"].contains text
  | _ => false

/-- The text of a scalar. -/
def text? : Yaml → Option String
  | .scalar text _ => some text
  | _ => none

/-- The elements of a sequence. -/
def elements? : Yaml → Option (List Yaml)
  | .sequence es => some es
  | .scalar "" true => some []
  | _ => none

/-- The members of a mapping. -/
def members? : Yaml → Option (List (Option String × Yaml))
  | .mapping ms => some (ms.map fun (k, v) => (k.text?, v))
  | .scalar "" true => some []
  | _ => none

instance : Document Yaml where
  isNull := isNull
  text? := text?
  elements? := elements?
  members? := members?
  positional := false

end Yaml

end Lakehouse
