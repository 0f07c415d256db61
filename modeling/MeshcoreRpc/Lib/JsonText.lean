import MeshcoreRpc.Lib.Table
import Mathlib.Data.List.TakeWhile

/-!
# JSON text

Values over a type of numbers, the text `json.dumps` writes for a value and the
value `json.loads` reads from a text.  How a number is written and read is a
parameter; so is how deep a text may nest before the reader gives up.
-/

namespace JsonText

open Tables

def isBlank (c : Char) : Bool := c = ' ' || c = '\t' || c = '\n' || c = '\r'

/-- The text after its leading blanks. -/
def skip (cs : List Char) : List Char := cs.dropWhile isBlank

/-- What follows a keyword. -/
def strip (word cs : List Char) : Option (List Char) :=
  if word.isPrefixOf cs then some (cs.drop word.length) else none

/-! ## Numerals -/

/-- A number as it is written. -/
inductive Numeral where
  | literal (whole fraction exponent : List Char)
  | nan
  | infinity (negative : Bool)

def Numeral.text : Numeral → List Char
  | literal whole fraction exponent => whole ++ (fraction ++ exponent)
  | nan => ['N', 'a', 'N']
  | infinity false => ['I', 'n', 'f', 'i', 'n', 'i', 't', 'y']
  | infinity true => ['-', 'I', 'n', 'f', 'i', 'n', 'i', 't', 'y']

/-- The digits at the front of a text, and what follows them. -/
def spanDigits (cs : List Char) : List Char × List Char :=
  (cs.takeWhile Char.isDigit, cs.dropWhile Char.isDigit)

/-- `0|[1-9][0-9]*` -/
def scanNatural : List Char → Option (List Char × List Char)
  | [] => none
  | c :: rest =>
    if c = '0' then some ([c], rest)
    else if c.isDigit then some (c :: (spanDigits rest).1, (spanDigits rest).2)
    else none

/-- `-?(0|[1-9][0-9]*)` -/
def scanWhole : List Char → Option (List Char × List Char)
  | [] => none
  | c :: rest =>
    if c = '-' then (scanNatural rest).map fun p ↦ (c :: p.1, p.2) else scanNatural (c :: rest)

/-- `(\.[0-9]+)?` -/
def scanFraction : List Char → List Char × List Char
  | [] => ([], [])
  | c :: rest =>
    if c = '.' ∧ (spanDigits rest).1 ≠ [] then (c :: (spanDigits rest).1, (spanDigits rest).2)
    else ([], c :: rest)

/-- `[-+]?` -/
def scanSign : List Char → List Char × List Char
  | [] => ([], [])
  | c :: rest => if c = '-' ∨ c = '+' then ([c], rest) else ([], c :: rest)

/-- `([eE][-+]?[0-9]+)?` -/
def scanExponent : List Char → List Char × List Char
  | [] => ([], [])
  | c :: rest =>
    let (sign, digits) := scanSign rest
    if (c = 'e' ∨ c = 'E') ∧ (spanDigits digits).1 ≠ [] then
      (c :: (sign ++ (spanDigits digits).1), (spanDigits digits).2)
    else ([], c :: rest)

def scanLiteral (cs : List Char) : Option (Numeral × List Char) :=
  (scanWhole cs).map fun w ↦
    (.literal w.1 (scanFraction w.2).1 (scanExponent (scanFraction w.2).2).1,
      (scanExponent (scanFraction w.2).2).2)

/-- A numeral that is a word of its own. -/
def scanWord (m : Numeral) (cs : List Char) : Option (Numeral × List Char) :=
  (strip m.text cs).map fun rest ↦ (m, rest)

def scanNumeral (cs : List Char) : Option (Numeral × List Char) :=
  (scanLiteral cs).or
    ((scanWord .nan cs).or ((scanWord (.infinity false) cs).or (scanWord (.infinity true) cs)))

/-- How numbers are written and read. -/
structure NumberFormat (N E : Type) where
  write : N → Numeral
  read : Numeral → Except E N

/-! ## Strings -/

def hexDigit (n : ℕ) : Char :=
  if n < 10 then Char.ofNat (n + 48) else Char.ofNat (n + 87)

def hexValue (c : Char) : Option ℕ :=
  if '0' ≤ c ∧ c ≤ '9' then some (c.toNat - 48)
  else if 'a' ≤ c ∧ c ≤ 'f' then some (c.toNat - 87)
  else if 'A' ≤ c ∧ c ≤ 'F' then some (c.toNat - 55)
  else none

/-- `\uXXXX` -/
def escapeUnit (n : ℕ) : List Char :=
  ['\\', 'u', hexDigit (n / 4096 % 16), hexDigit (n / 256 % 16), hexDigit (n / 16 % 16),
    hexDigit (n % 16)]

/-- A character inside a string, with `ensure_ascii`. -/
def escapeChar (c : Char) : List Char :=
  if c = '"' then ['\\', '"']
  else if c = '\\' then ['\\', '\\']
  else if c = '\n' then ['\\', 'n']
  else if c = '\r' then ['\\', 'r']
  else if c = '\t' then ['\\', 't']
  else if c = '\x0c' then ['\\', 'f']
  else if c = '\x08' then ['\\', 'b']
  else if ' ' ≤ c ∧ c ≤ '~' then [c]
  else if c.toNat < 0x10000 then escapeUnit c.toNat
  else
    -- a surrogate pair
    escapeUnit (0xD800 + (c.toNat - 0x10000) / 0x400) ++
      escapeUnit (0xDC00 + (c.toNat - 0x10000) % 0x400)

def quote (s : String) : List Char := '"' :: (s.toList.flatMap escapeChar ++ ['"'])

/-- Why a text is not read. -/
inductive Failure (E : Type) where
  | syntaxError
  | number (err : E)
  /-- The text nests too deeply. -/
  | recursion
  /-- A surrogate without its partner, which no `Char` is. -/
  | surrogate

def hexUnit (a b c d : Char) : Option ℕ := do
  return (← hexValue a) * 4096 + (← hexValue b) * 256 + (← hexValue c) * 16 + (← hexValue d)

/-- The character of an escape that is no `\u`. -/
def unescape (c : Char) : Option Char :=
  if c = '"' ∨ c = '\\' ∨ c = '/' then some c
  else if c = 'b' then some '\x08'
  else if c = 'f' then some '\x0c'
  else if c = 'n' then some '\n'
  else if c = 'r' then some '\r'
  else if c = 't' then some '\t'
  else none

def isHigh (n : ℕ) : Prop := 0xD800 ≤ n ∧ n ≤ 0xDBFF

def isLow (n : ℕ) : Prop := 0xDC00 ≤ n ∧ n ≤ 0xDFFF

instance : DecidablePred isHigh := fun _ ↦ inferInstanceAs (Decidable (_ ∧ _))

instance : DecidablePred isLow := fun _ ↦ inferInstanceAs (Decidable (_ ∧ _))

/-- What the next escape adds to the high surrogate before it. -/
def lowUnit : List Char → Option ℕ
  | s :: u :: a :: b :: c :: d :: _ =>
    if s = '\\' ∧ u = 'u' then (hexUnit a b c d).filter fun n ↦ decide (isLow n) else none
  | _ => none

/-- The characters of a string up to its closing quote; `high` is a surrogate
that waits for the escape at the front of the text. -/
def scanChars {E : Type} : Option ℕ → List Char → Except (Failure E) (List Char × List Char)
  | _, [] => .error .syntaxError
  | high, q :: cs =>
    if q = '\\' then
      match cs with
      | [] => .error .syntaxError
      | e :: cs =>
        if e = 'u' then
          match cs with
          | a :: b :: c :: d :: rest =>
            match hexUnit a b c d, high with
            | none, _ => .error .syntaxError
            | some low, some high =>
              (scanChars none rest).map fun p ↦
                (Char.ofNat (0x10000 + (high - 0xD800) * 0x400 + (low - 0xDC00)) :: p.1, p.2)
            | some n, none =>
              if isHigh n then
                match lowUnit rest with
                | some _ => scanChars (some n) rest
                | none => (scanChars none rest).bind fun _ ↦ .error .surrogate
              else if isLow n then (scanChars none rest).bind fun _ ↦ .error .surrogate
              else (scanChars none rest).map fun p ↦ (Char.ofNat n :: p.1, p.2)
          | _ => .error .syntaxError
        else
          match unescape e with
          | some c => (scanChars none cs).map fun p ↦ (c :: p.1, p.2)
          | none => .error .syntaxError
    else if q = '"' then .ok ([], cs)
    else if q < ' ' then .error .syntaxError
    else (scanChars none cs).map fun p ↦ (q :: p.1, p.2)

def scanString {E : Type} (cs : List Char) : Except (Failure E) (String × List Char) :=
  (scanChars none cs).map fun p ↦ (String.ofList p.1, p.2)

/-! ## Values -/

inductive Value (N : Type) where
  | null
  | bool (b : Bool)
  | num (n : N)
  | str (s : String)
  | arr (xs : List (Value N))
  | obj (kvs : List (String × Value N))

/-- What stands after a comma and after a colon. -/
structure Separators where
  comma : List Char
  colon : List Char
  comma_blank : ∀ c ∈ comma, isBlank c = true
  colon_blank : ∀ c ∈ colon, isBlank c = true

/-- `(", ", ": ")` -/
def Separators.default : Separators := ⟨[' '], [' '], by simp [isBlank], by simp [isBlank]⟩

/-- `(",", ":")` -/
def Separators.compact : Separators := ⟨[], [], by simp, by simp⟩

section Writing

variable {N E : Type} (fmt : NumberFormat N E) (sep : Separators)

mutual

def Value.text : Value N → List Char
  | .null => ['n', 'u', 'l', 'l']
  | .bool true => ['t', 'r', 'u', 'e']
  | .bool false => ['f', 'a', 'l', 's', 'e']
  | .num n => (fmt.write n).text
  | .str s => quote s
  | .arr [] => ['[', ']']
  | .arr (x :: xs) => '[' :: (Value.text x ++ Value.itemsText xs)
  | .obj [] => ['\x7b', '\x7d']
  | .obj ((k, v) :: kvs) =>
    '\x7b' :: (quote k ++ ':' :: (sep.colon ++ Value.text v) ++ Value.pairsText kvs)

/-- The items after the first one, and the bracket. -/
def Value.itemsText : List (Value N) → List Char
  | [] => [']']
  | x :: xs => ',' :: (sep.comma ++ Value.text x ++ Value.itemsText xs)

/-- The pairs after the first one, and the brace. -/
def Value.pairsText : List (String × Value N) → List Char
  | [] => ['\x7d']
  | (k, v) :: kvs =>
    ',' :: (sep.comma ++ (quote k ++ ':' :: (sep.colon ++ Value.text v)) ++ Value.pairsText kvs)

end

/-- `json.dumps`, of a value whose numbers can be written. -/
def dumps (v : Value N) : String := String.ofList (v.text fmt sep)

end Writing

/-! ## Reading -/

/-- A reader of one thing at the front of a text. -/
abbrev Scanner (E α : Type) := List Char → Except (Failure E) (α × List Char)

section Reading

variable {N E : Type} (fmt : NumberFormat N E)

/-- The items of an array up to its bracket; each round reads at least one
character, so the length of the text bounds the rounds. -/
def scanItems (scan : Scanner E (Value N)) : ℕ → Scanner E (List (Value N))
  | 0, _ => .error .syntaxError
  | n + 1, cs => do
    let (x, rest) ← scan cs
    match skip rest with
    | [] => .error .syntaxError
    | c :: rest =>
      if c = ',' then (scanItems scan n (skip rest)).map fun p ↦ (x :: p.1, p.2)
      else if c = ']' then .ok ([x], rest)
      else .error .syntaxError

/-- A key, its colon and its value. -/
def scanPair (scan : Scanner E (Value N)) : Scanner E (String × Value N)
  | [] => .error .syntaxError
  | q :: cs =>
    if q = '"' then do
      let (k, rest) ← scanString cs
      match skip rest with
      | [] => .error .syntaxError
      | c :: rest =>
        if c = ':' then (scan (skip rest)).map fun p ↦ ((k, p.1), p.2) else .error .syntaxError
    else .error .syntaxError

/-- The pairs of an object up to its brace. -/
def scanPairs (scan : Scanner E (Value N)) : ℕ → Scanner E (List (String × Value N))
  | 0, _ => .error .syntaxError
  | n + 1, cs => do
    let (kv, rest) ← scanPair scan cs
    match skip rest with
    | [] => .error .syntaxError
    | c :: rest =>
      if c = ',' then (scanPairs scan n (skip rest)).map fun p ↦ (kv :: p.1, p.2)
      else if c = '\x7d' then .ok ([kv], rest)
      else .error .syntaxError

def scanArray (scan : Scanner E (Value N)) (cs : List Char) :
    Except (Failure E) (Value N × List Char) :=
  match skip cs with
  | [] => .error .syntaxError
  | c :: rest =>
    if c = ']' then .ok (.arr [], rest)
    else (scanItems scan (cs.length + 1) (c :: rest)).map fun p ↦ (.arr p.1, p.2)

/-- Of a repeated key the last value counts. -/
def scanObject (scan : Scanner E (Value N)) (cs : List Char) :
    Except (Failure E) (Value N × List Char) :=
  match skip cs with
  | [] => .error .syntaxError
  | c :: rest =>
    if c = '\x7d' then .ok (.obj [], rest)
    else (scanPairs scan (cs.length + 1) (c :: rest)).map fun p ↦
      (.obj (Dict.update Table.empty p.1).rows, p.2)

/-- A keyword or a number. -/
def scanScalar (cs : List Char) : Except (Failure E) (Value N × List Char) :=
  match strip ['n', 'u', 'l', 'l'] cs, strip ['t', 'r', 'u', 'e'] cs,
    strip ['f', 'a', 'l', 's', 'e'] cs with
  | some rest, _, _ => .ok (.null, rest)
  | none, some rest, _ => .ok (.bool true, rest)
  | none, none, some rest => .ok (.bool false, rest)
  | none, none, none =>
    match scanNumeral cs with
    | some (numeral, rest) =>
      match fmt.read numeral with
      | .ok n => .ok (.num n, rest)
      | .error err => .error (.number err)
    | none => .error .syntaxError

/-- One value, whose parts `nested` reads. -/
def scanAny (nested : Option (Scanner E (Value N))) : Scanner E (Value N)
  | [] => .error .syntaxError
  | c :: rest =>
    if c = '"' then (scanString rest).map fun p ↦ (.str p.1, p.2)
    else if c = '\x7b' then
      match nested with
      | none => .error .recursion
      | some scan => scanObject scan rest
    else if c = '[' then
      match nested with
      | none => .error .recursion
      | some scan => scanArray scan rest
    else scanScalar fmt (c :: rest)

/-- `scan_once`, as deep as it may go. -/
def scanOnce : ℕ → Scanner E (Value N)
  | 0 => scanAny fmt none
  | depth + 1 => scanAny fmt (some (scanOnce depth))

/-- `json.loads` -/
def loads (limit : ℕ) (s : String) : Except (Failure E) (Value N) :=
  if s.toList.head? = some '\uFEFF' then .error .syntaxError
  else do
    let (v, rest) ← scanOnce fmt limit (skip s.toList)
    if skip rest = [] then return v else .error .syntaxError

end Reading

end JsonText
