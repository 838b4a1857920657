/-!
# Tokens of plain YAML documents

The part of the notation that configuration files keep to: block mappings and sequences, which show
their structure by indentation, flow collections between brackets, plain and quoted scalars,
comments. Anchors, aliases, tags, block scalars, directives and explicit keys are not in this part.

`Yaml.tokens` cuts a text into tokens. Every token knows its line and column, by which the reader
finds blocks, and whether a comment stands before it, which ends a plain scalar of several lines.
Inside flow collections fewer characters may stand in a plain scalar.

Not a model: the program reads documents with a library, and a run takes whatever reads them as a
parameter (`DocumentReader`).
-/

namespace Lakehouse.Yaml

/-- What a token is. -/
inductive Token.Kind where
  /-- A scalar, or one line of a plain scalar. -/
  | scalar (text : String) (plain : Bool)
  /-- The dash of a sequence entry. -/
  | dash
  /-- The colon between a key and its value. -/
  | colon
  | comma
  | openSequence
  | closeSequence
  | openMapping
  | closeMapping
  /-- The line that begins a document. -/
  | documentStart
  /-- The line that ends a document. -/
  | documentEnd
  deriving DecidableEq, Repr

/-- A position in a text. -/
structure Place where
  line : Nat
  column : Nat
  deriving DecidableEq, Repr

/-- A token, where it begins, the line on which it ends, and whether a comment stands between it and
the token before. -/
structure Token where
  kind : Token.Kind
  place : Place
  lastLine : Nat
  remarked : Bool
  deriving DecidableEq, Repr

/-- The position behind a character. -/
def Place.step (p : Place) (c : Char) : Place :=
  if c = '\n' then ⟨p.line + 1, 0⟩ else ⟨p.line, p.column + 1⟩

/-- The position behind some characters. -/
def Place.after (p : Place) (cs : List Char) : Place := cs.foldl Place.step p

/-! ## Characters -/

/-- A space or a tab. -/
def isSpace (c : Char) : Bool := c == ' ' || c == '\t'

/-- Whether a text ends here, or goes on with a space, a tab or a new line. -/
def atGap : List Char → Bool
  | [] => true
  | c :: _ => isSpace c || c == '\n'

/-- The brackets and the comma of flow collections. -/
def isFlowMark (c : Char) : Bool :=
  c == ',' || c == '[' || c == ']' || c == '\x7b' || c == '\x7d'

/-- Characters that begin no plain scalar, whatever follows. -/
def isReserved (c : Char) : Bool :=
  isFlowMark c || ['#', '&', '*', '!', '|', '>', '\'', '"', '%', '@', '\x60'].contains c

/-- Whether a plain scalar begins here. -/
def startsPlain (inFlow : Bool) : List Char → Bool
  | [] => false
  | '-' :: rest => !(rest.head?.any isSpace) && !(rest = [])
  | c :: rest =>
    if c = '?' ∨ c = ':' then !inFlow && !atGap rest
    else !isReserved c && !atGap [c]

/-- Line ends in one form. -/
def unifyLines : List Char → List Char
  | [] => []
  | '\r' :: '\n' :: rest => '\n' :: unifyLines rest
  | '\r' :: rest => '\n' :: unifyLines rest
  | c :: rest => c :: unifyLines rest

/-! ## Plain scalars -/

/-- The characters of a plain scalar on one line. A colon before a gap ends it, a comment ends it,
and in a flow collection its marks do; there a colon right before a mark is an error. -/
def plainChars (inFlow afterSpace : Bool) : List Char → Option (List Char)
  | [] => some []
  | c :: rest =>
    if c = '\n' ∨ (c = '#' ∧ afterSpace) ∨ (c = ':' ∧ atGap rest) ∨ (inFlow ∧ isFlowMark c) then
      some []
    else if inFlow ∧ c = ':' ∧ rest.head?.any (fun d => isFlowMark d || d == '?') then none
    else (plainChars inFlow (isSpace c) rest).map (c :: ·)

/-- Characters without the spaces at their end. -/
def trimEnd (cs : List Char) : List Char := (cs.reverse.dropWhile isSpace).reverse

/-! ## Quoted scalars -/

/-- The text of line breaks between two lines: a space for one, all but one of several. -/
def foldBreaks (breaks : Nat) : List Char :=
  if breaks = 1 then [' '] else List.replicate (breaks - 1) '\n'

/-- The line breaks a text begins with, with the spaces around them. -/
def countBreaks : List Char → Nat
  | [] => 0
  | c :: rest =>
    if c = '\n' then countBreaks rest + 1 else if isSpace c then countBreaks rest else 0

/-- The value of a hexadecimal digit. -/
def hexValue? (c : Char) : Option Nat :=
  if c.isDigit then some (c.toNat - '0'.toNat)
  else if 'a' ≤ c ∧ c ≤ 'f' then some (c.toNat - 'a'.toNat + 10)
  else if 'A' ≤ c ∧ c ≤ 'F' then some (c.toNat - 'A'.toNat + 10)
  else none

/-- The character of a code point given in hexadecimal digits. -/
def hexChar? (ds : List Char) : Option Char := do
  let n ← ds.foldlM (fun n c => (hexValue? c).map (n * 16 + ·)) 0
  if h : n.isValidChar then some (Char.ofNatAux n h) else none

/-- How many hexadecimal digits follow an escape's letter. -/
def hexLength? : Char → Option Nat
  | 'x' => some 2
  | 'u' => some 4
  | 'U' => some 8
  | _ => none

/-- The character that an escape of one letter stands for. -/
def escapeChar? : Char → Option Char
  | '0' => some '\x00'
  | 'a' => some '\x07'
  | 'b' => some '\x08'
  | 't' | '\t' => some '\t'
  | 'n' => some '\n'
  | 'v' => some '\x0b'
  | 'f' => some '\x0c'
  | 'r' => some '\r'
  | 'e' => some '\x1b'
  | ' ' => some ' '
  | '"' => some '"'
  | '/' => some '/'
  | '\\' => some '\\'
  | 'N' => some '\u0085'
  | '_' => some '\u00a0'
  | 'L' => some '\u2028'
  | 'P' => some '\u2029'
  | _ => none

/-- What reading a quoted scalar has come to: its characters so far, the last first. -/
abbrev Written := List Char

/-- Reads a scalar behind its opening single quote, in at most `steps` steps; gives its characters
and what follows it. -/
def takeSingle (steps : Nat) (written : Written) (cs : List Char) :
    Option (List Char × List Char) :=
  match steps with
  | 0 => none
  | steps + 1 =>
    match cs with
    | '\'' :: '\'' :: rest => takeSingle steps ('\'' :: written) rest
    | '\'' :: rest => some (written.reverse, rest)
    | '\n' :: _ =>
      takeSingle steps ((foldBreaks (countBreaks cs)).reverse ++ written.dropWhile isSpace)
        (cs.dropWhile fun c => c == '\n' || isSpace c)
    | c :: rest => takeSingle steps (c :: written) rest
    | [] => none

/-- Reads a scalar behind its opening double quote, in at most `steps` steps. `kept` counts the
characters in front that a line break does not trim. -/
def takeDouble (steps : Nat) (kept written : Written) (cs : List Char) :
    Option (List Char × List Char) :=
  match steps with
  | 0 => none
  | steps + 1 =>
    match cs with
    | '"' :: rest => some ((written ++ kept).reverse, rest)
    | '\\' :: '\n' :: rest => takeDouble steps (written ++ kept) [] (rest.dropWhile isSpace)
    | '\\' :: c :: rest =>
      match hexLength? c with
      | some n => do
        let d ← if rest.length < n then none else hexChar? (rest.take n)
        takeDouble steps (d :: (written ++ kept)) [] (rest.drop n)
      | none => do
        let d ← escapeChar? c
        takeDouble steps (d :: (written ++ kept)) [] rest
    | '\n' :: _ =>
      let kept := (foldBreaks (countBreaks cs)).reverse ++ (written.dropWhile isSpace ++ kept)
      takeDouble steps kept [] (cs.dropWhile fun c => c == '\n' || isSpace c)
    | c :: rest => takeDouble steps kept (c :: written) rest
    | [] => none

/-! ## Tokens -/

/-- Where the scanner is: the position, the number of open flow collections, whether a block
structure may begin here, and whether a comment stands behind the last token. -/
structure Scanner where
  place : Place
  depth : Nat
  fresh : Bool
  remarked : Bool

namespace Scanner

/-- The scanner behind some characters. -/
def skip (s : Scanner) (cs : List Char) : Scanner := { s with place := s.place.after cs }

/-- The scanner behind the characters of a token, where a block structure may begin or not. -/
def pass (s : Scanner) (cs : List Char) (fresh : Bool) : Scanner :=
  { s.skip cs with fresh, remarked := false }

/-- A token of one line that begins here. -/
def token (s : Scanner) (kind : Token.Kind) : Token := ⟨kind, s.place, s.place.line, s.remarked⟩

/-- Whether a flow collection is open. -/
def inFlow (s : Scanner) : Bool := 0 < s.depth

/-- Whether a line of three such characters stands here, which begins or ends a document. -/
def atMarker (s : Scanner) (mark : Char) : List Char → Bool
  | a :: b :: c :: rest =>
    s.place.column = 0 && a == mark && b == mark && c == mark && atGap rest
  | _ => false

/-- A bracket or comma, and the scanner behind it. -/
def flowMark? (s : Scanner) (c : Char) : Option (Token.Kind × Scanner) :=
  let opened := { s.pass [c] true with depth := s.depth + 1 }
  let closed := { s.pass [c] false with depth := s.depth - 1 }
  match c with
  | '[' => some (.openSequence, opened)
  | '\x7b' => some (.openMapping, opened)
  | ']' => if s.inFlow then some (.closeSequence, closed) else none
  | '\x7d' => if s.inFlow then some (.closeMapping, closed) else none
  | ',' => if s.inFlow then some (.comma, s.pass [c] true) else none
  | _ => none

end Scanner

/-- A quoted scalar behind its opening quote. -/
def takeQuoted (quote : Char) (cs : List Char) : Option (List Char × List Char) :=
  if quote = '"' then takeDouble (cs.length + 1) [] [] cs else takeSingle (cs.length + 1) [] cs

/-- The tokens of a text, in at most `steps` steps. -/
def scan (steps : Nat) (s : Scanner) (cs : List Char) : Option (List Token) :=
  match steps with
  | 0 => none
  | steps + 1 =>
    match cs with
    | [] => if s.inFlow then none else some []
    | c :: rest =>
      if c = '\n' then scan steps { s.skip [c] with fresh := true } rest
      else if c = ' ' ∨ (c = '\t' ∧ (s.inFlow ∨ !s.fresh)) then scan steps (s.skip [c]) rest
      else if c = '#' then
        scan steps { s.skip (cs.takeWhile (· != '\n')) with remarked := true }
          (cs.dropWhile (· != '\n'))
      else if s.atMarker '-' cs ∨ s.atMarker '.' cs then
        if s.inFlow then none
        else do
          let kind := if c = '-' then .documentStart else .documentEnd
          return s.token kind :: (← scan steps (s.pass (cs.take 3) false) (cs.drop 3))
      else if isFlowMark c then do
        let (kind, next) ← s.flowMark? c
        return s.token kind :: (← scan steps next rest)
      else if c = '-' ∧ atGap rest then
        if s.inFlow ∨ !s.fresh then none
        else do return s.token .dash :: (← scan steps (s.pass [c] true) rest)
      else if c = ':' ∧ (s.inFlow ∨ atGap rest) then do
        return s.token .colon :: (← scan steps (s.pass [c] false) rest)
      else if c = '"' ∨ c = '\'' then do
        let (text, after) ← takeQuoted c rest
        let next := s.pass (cs.take (cs.length - after.length)) false
        return ⟨.scalar (String.ofList text) false, s.place, next.place.line, s.remarked⟩
          :: (← scan steps next after)
      else if startsPlain s.inFlow cs then do
        let text ← plainChars s.inFlow false cs
        return s.token (.scalar (String.ofList (trimEnd text)) true)
          :: (← scan steps (s.pass text false) (cs.drop text.length))
      else none

/-- The characters that may stand in a document as they are; others have to be escaped. -/
def isPrintable (c : Char) : Bool :=
  ['\t', '\n', '\r', '\u0085'].contains c || (' ' ≤ c && c ≤ '~') ||
    ('\u00a0' ≤ c && c ≤ '\ufffd') || 0xffff < c.toNat

/-- The tokens of a text, given its characters. -/
def tokens (cs : List Char) : Option (List Token) :=
  let cs := match unifyLines cs with
    | '\ufeff' :: rest => rest
    | cs => cs
  if cs.all isPrintable then scan (cs.length + 1) ⟨⟨0, 0⟩, 0, true, false⟩ cs else none

end Lakehouse.Yaml
