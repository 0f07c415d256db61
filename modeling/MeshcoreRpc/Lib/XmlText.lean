import Mathlib.Data.List.TakeWhile

/-!
# XML text

Elements with attributes and character data, the text a serialiser writes for
them and the element a reader finds in a text.  The reader knows no
declarations, comments or sections, and refuses a document that has any.
-/

namespace XmlText

/-! ## Characters -/

/-- The code point lies in one of the ranges. -/
def inRanges (ranges : List (ℕ × ℕ)) (c : Char) : Bool :=
  ranges.any fun r ↦ decide (r.1 ≤ c.toNat ∧ c.toNat ≤ r.2)

/-- `Char`: what may occur in a document at all. -/
def isChar : Char → Bool :=
  inRanges [(0x9, 0xA), (0xD, 0xD), (0x20, 0xD7FF), (0xE000, 0xFFFD), (0x10000, 0x10FFFF)]

def nameStartRanges : List (ℕ × ℕ) :=
  [(0x3A, 0x3A), (0x41, 0x5A), (0x5F, 0x5F), (0x61, 0x7A), (0xC0, 0xD6), (0xD8, 0xF6),
    (0xF8, 0x2FF), (0x370, 0x37D), (0x37F, 0x1FFF), (0x200C, 0x200D), (0x2070, 0x218F),
    (0x2C00, 0x2FEF), (0x3001, 0xD7FF), (0xF900, 0xFDCF), (0xFDF0, 0xFFFD), (0x10000, 0xEFFFF)]

/-- `NameStartChar` -/
def isNameStart : Char → Bool := inRanges nameStartRanges

/-- `NameChar` -/
def isNameChar : Char → Bool :=
  inRanges ([(0x2D, 0x2E), (0x30, 0x39), (0xB7, 0xB7), (0x300, 0x36F), (0x203F, 0x2040)] ++
    nameStartRanges)

/-- `S` -/
def isBlank (c : Char) : Bool := c = ' ' || c = '\t' || c = '\n' || c = '\r'

def skip (cs : List Char) : List Char := cs.dropWhile isBlank

/-! ## Writing -/

inductive Node where
  | text (s : String)
  | element (tag : String) (attrs : List (String × String)) (content : List Node)

/-- A character of the text of an element. -/
def escapeText (c : Char) : List Char :=
  if c = '&' then ['&', 'a', 'm', 'p', ';']
  else if c = '<' then ['&', 'l', 't', ';']
  else if c = '>' then ['&', 'g', 't', ';']
  else [c]

/-- A character of the value of an attribute. -/
def escapeAttr (c : Char) : List Char :=
  if c = '"' then ['&', 'q', 'u', 'o', 't', ';']
  else if c = '\r' then ['&', '#', '1', '3', ';']
  else if c = '\n' then ['&', '#', '1', '0', ';']
  else if c = '\t' then ['&', '#', '0', '9', ';']
  else escapeText c

def attrText (kv : String × String) : List Char :=
  ' ' :: (kv.1.toList ++ '=' :: '"' :: (kv.2.toList.flatMap escapeAttr ++ ['"']))

mutual

/-- An element without content is closed at once. -/
def Node.chars : Node → List Char
  | .text s => s.toList.flatMap escapeText
  | .element tag attrs [] => '<' :: (tag.toList ++ attrs.flatMap attrText ++ [' ', '/', '>'])
  | .element tag attrs (n :: ns) =>
    '<' :: (tag.toList ++ attrs.flatMap attrText ++ '>' ::
      (n.chars ++ Node.contentChars ns ++ '<' :: '/' :: (tag.toList ++ ['>'])))

def Node.contentChars : List Node → List Char
  | [] => []
  | n :: ns => n.chars ++ Node.contentChars ns

end

/-- The text of an element. -/
def write (x : Node) : String := String.ofList x.chars

/-! ## Reading -/

/-- The end of a line is a line feed, however it is written. -/
def normalize : List Char → List Char
  | [] => []
  | [c] => [if c = '\r' then '\n' else c]
  | c :: d :: cs =>
    if c = '\r' then if d = '\n' then '\n' :: normalize cs else '\n' :: normalize (d :: cs)
    else c :: normalize (d :: cs)

def digitValue (c : Char) : Option ℕ := if c.isDigit then some (c.toNat - 48) else none

def hexValue (c : Char) : Option ℕ :=
  if c.isDigit then some (c.toNat - 48)
  else if 'a' ≤ c ∧ c ≤ 'f' then some (c.toNat - 87)
  else if 'A' ≤ c ∧ c ≤ 'F' then some (c.toNat - 55)
  else none

/-- The number that at least one digit stands for. -/
def numeral (base : ℕ) (value : Char → Option ℕ) : List Char → Option ℕ
  | [] => none
  | cs => cs.foldlM (fun n c ↦ (value c).map fun d ↦ n * base + d) 0

/-- The character of a code point, if it may occur. -/
def charOf (n : ℕ) : Option Char :=
  if n.isValidChar ∧ isChar (Char.ofNat n) then some (Char.ofNat n) else none

/-- What stands between `&` and `;`. -/
def reference (name : List Char) : Option Char :=
  if name = ['a', 'm', 'p'] then some '&'
  else if name = ['l', 't'] then some '<'
  else if name = ['g', 't'] then some '>'
  else if name = ['q', 'u', 'o', 't'] then some '"'
  else if name = ['a', 'p', 'o', 's'] then some '\''
  else
    match name with
    | '#' :: 'x' :: digits => (numeral 16 hexValue digits).bind charOf
    | '#' :: digits => (numeral 10 digitValue digits).bind charOf
    | _ => none

/-- Resolve the references; `plain` says what a character stands for that is in none, and `open_`
is what has been read of one. -/
def unescape (plain : Char → Option Char) : Option (List Char) → List Char → Option (List Char)
  | none, [] => some []
  | some _, [] => none
  | none, c :: cs =>
    if c = '&' then unescape plain (some []) cs
    else do
      let c ← plain c
      let cs ← unescape plain none cs
      return c :: cs
  | some name, c :: cs =>
    if c = ';' then do
      let c ← reference name.reverse
      let cs ← unescape plain none cs
      return c :: cs
    else unescape plain (some (c :: name)) cs

/-- A character of the text of an element. -/
def plainText (c : Char) : Option Char := if c = '<' then none else some c

/-- A character of the value of an attribute: blanks are spaces there. -/
def plainAttr (c : Char) : Option Char :=
  if c = '<' then none else if isBlank c then some ' ' else some c

/-- A name at the front of a text. -/
def scanName : List Char → Option (String × List Char)
  | [] => none
  | c :: cs =>
    if isNameStart c then
      some (String.ofList (c :: cs.takeWhile isNameChar), cs.dropWhile isNameChar)
    else none

/-- A quoted value. -/
def scanValue : List Char → Option (String × List Char)
  | [] => none
  | q :: cs =>
    if q = '"' ∨ q = '\'' then
      match cs.dropWhile fun c ↦ decide (c ≠ q) with
      | [] => none
      | _ :: rest =>
        (unescape plainAttr none (cs.takeWhile fun c ↦ decide (c ≠ q))).map fun v ↦
          (String.ofList v, rest)
    else none

def scanAttr (cs : List Char) : Option ((String × String) × List Char) := do
  let (k, rest) ← scanName cs
  match skip rest with
  | [] => none
  | c :: rest =>
    if c = '=' then (scanValue (skip rest)).map fun v ↦ ((k, v.1), v.2) else none

/-- The attributes of a start tag, each after a blank and no name twice; every round reads at least
one character. -/
def scanAttrs : ℕ → List Char → Option (List (String × String) × List Char)
  | 0, _ => none
  | n + 1, cs =>
    match skip cs with
    | [] => none
    | c :: rest =>
      if c = '/' ∨ c = '>' then some ([], c :: rest)
      else if skip cs = cs then none
      else do
        let (kv, rest) ← scanAttr (c :: rest)
        let (kvs, rest) ← scanAttrs n rest
        if kv.1 ∈ kvs.map Prod.fst then none else some (kv :: kvs, rest)

/-- The content of an element up to its end tag. -/
def scanContent (scan : List Char → Option (Node × List Char)) :
    ℕ → List Char → Option (List Node × List Char)
  | 0, _ => none
  | n + 1, cs =>
    match cs with
    | [] => none
    | c :: rest =>
      if c = '<' then
        match rest with
        | [] => none
        | d :: after =>
          if d = '/' then some ([], after)
          else do
            let (x, rest) ← scan (c :: rest)
            let (xs, rest) ← scanContent scan n rest
            return (x :: xs, rest)
      else do
        let s ← unescape plainText none ((c :: rest).takeWhile fun c ↦ decide (c ≠ '<'))
        let (xs, rest) ← scanContent scan n ((c :: rest).dropWhile fun c ↦ decide (c ≠ '<'))
        return (.text (String.ofList s) :: xs, rest)

/-- The rest of an end tag with this name. -/
def scanEnd (tag : String) (cs : List Char) : Option (List Char) := do
  let (name, rest) ← scanName cs
  match skip rest with
  | [] => none
  | c :: rest => if c = '>' ∧ name = tag then some rest else none

/-- What follows the attributes of an element. -/
def scanRest (scan : List Char → Option (Node × List Char)) (tag : String)
    (attrs : List (String × String)) : List Char → Option (Node × List Char)
  | [] => none
  | c :: rest =>
    if c = '>' then do
      let (content, after) ← scanContent scan (rest.length + 1) rest
      let after ← scanEnd tag after
      return (.element tag attrs content, after)
    else
      match rest with
      | [] => none
      | d :: after => if d = '>' then some (.element tag attrs [], after) else none

/-- An element that nests at most so deeply. -/
def scanElement : ℕ → List Char → Option (Node × List Char)
  | 0, _ => none
  | _ + 1, [] => none
  | depth + 1, c :: cs =>
    if c = '<' then do
      let (tag, rest) ← scanName cs
      let (attrs, rest) ← scanAttrs (rest.length + 1) rest
      scanRest (scanElement depth) tag attrs rest
    else none

/-- The element of a document. -/
def read (s : String) : Option Node :=
  let cs := normalize s.toList
  if cs.all isChar then
    match scanElement cs.length (skip cs) with
    | some (x, rest) => if skip rest = [] then some x else none
    | none => none
  else none

/-! ## Finding one's way -/

/-- The value of an attribute. -/
def Node.get (key : String) : Node → Option String
  | text _ => none
  | element _ attrs _ => attrs.lookup key

def Node.hasTag (tag : String) : Node → Bool
  | text _ => false
  | element tag' _ _ => tag' = tag

/-- The first element inside with the tag. -/
def Node.find (tag : String) : Node → Option Node
  | text _ => none
  | element _ _ content => content.find? (hasTag tag)

/-- The text of an element that holds a text only. -/
def Node.inner : Node → Option String
  | element _ _ [text s] => some s
  | _ => none

end XmlText
