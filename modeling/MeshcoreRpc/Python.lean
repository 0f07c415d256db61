import MeshcoreRpc.Lib.Binary64
import MeshcoreRpc.Lib.Table

/-!
# Python values

The values that reach the service in JSON payloads, with the conversions the
code applies to them.  Integers are unbounded and rounded where they are made
floats.  A finite float is the rational it stands for; sums and products of times
and coordinates are taken exactly, but NaN, the infinities and every conversion
that raises are modelled.
-/

namespace MeshcoreRpc

open Tables

/-- The exceptions an `except Exception` clause catches. -/
inductive PyExc where
  | timeoutError
  | rpcError (code message : String)
  | other (typeName : String)
  deriving DecidableEq, Repr

namespace PyExc

abbrev valueError : PyExc := .other "ValueError"
abbrev typeError : PyExc := .other "TypeError"
abbrev overflowError : PyExc := .other "OverflowError"
abbrev attributeError : PyExc := .other "AttributeError"
abbrev runtimeError : PyExc := .other "RuntimeError"
abbrev jsonDecodeError : PyExc := .other "JSONDecodeError"
abbrev unicodeDecodeError : PyExc := .other "UnicodeDecodeError"
abbrev operationalError : PyExc := .other "OperationalError"
abbrev programmingError : PyExc := .other "ProgrammingError"
abbrev integrityError : PyExc := .other "IntegrityError"
abbrev validationError : PyExc := .other "ValidationError"

/-- `type(e).__name__` -/
def typeName : PyExc → String
  | timeoutError => "TimeoutError"
  | rpcError _ _ => "RpcError"
  | other name => name

end PyExc

inductive PyFloat where
  | nan
  | inf (negative : Bool)
  | fin (q : ℚ)
  deriving DecidableEq

/-- What `json.loads` builds, and what `json.dumps` accepts. -/
inductive PyVal where
  | none
  | bool (b : Bool)
  | int (n : ℤ)
  | float (f : PyFloat)
  | str (s : String)
  | list (xs : List PyVal)
  | dict (kvs : List (String × PyVal))

abbrev PyDict := Dict String PyVal

/-- The dict of a JSON object: of a repeated key the last value counts. -/
def PyDict.ofPairs (kvs : List (String × PyVal)) : PyDict :=
  Dict.update Table.empty kvs

/-- `d.get(k)` -/
def PyDict.get (d : PyDict) (k : String) : PyVal := (d.get? k).getD .none

theorem except_bind_ok {ε α β : Type} {x : Except ε α} {f : α → Except ε β} {b : β}
    (h : x >>= f = .ok b) : ∃ a, x = .ok a ∧ f a = .ok b := by
  cases x with
  | error err => cases h
  | ok a => exact ⟨a, rfl, h⟩

theorem exists_ok_of_isSome {ε α : Type} {x : Except ε α} (h : x.toOption.isSome = true) :
    ∃ a, x = .ok a := by
  rcases x with err | a
  · simp [Except.toOption] at h
  · exact ⟨a, rfl⟩

namespace PyVal

/-- `bool(v)` -/
def truthy : PyVal → Bool
  | none => false
  | bool b => b
  | int n => n ≠ 0
  | float (.fin q) => q ≠ 0
  | float _ => true
  | str s => s ≠ ""
  | list xs => !xs.isEmpty
  | dict kvs => !kvs.isEmpty

/-- `v or w` -/
def or (v w : PyVal) : PyVal := if v.truthy then v else w

/-- `isinstance(v, (int, float))`; a `bool` is an `int`. -/
def isNumber : PyVal → Bool
  | bool _ | int _ | float _ => true
  | _ => false

def isNone : PyVal → Bool
  | none => true
  | _ => false

end PyVal

/-- From here on an `int` is nearer to `2 ** 1024` than to the largest float. -/
def floatIntLimit : ℤ := 2 ^ 1024 - 2 ^ 970

/-- `float(n)` -/
def floatOfInt (n : ℤ) : Except PyExc PyFloat :=
  if floatIntLimit ≤ |n| then .error .overflowError else .ok (.fin (Binary64.round n))

/-- `float(v)` of a number. -/
def PyVal.numberToFloat : PyVal → Except PyExc PyFloat
  | bool b => .ok (.fin (if b then 1 else 0))
  | int n => floatOfInt n
  | float f => .ok f
  | _ => .error .typeError

/-- Rounding toward zero. -/
def truncate (q : ℚ) : ℤ := if q < 0 then ⌈q⌉ else ⌊q⌋

/-- `int(f)` -/
def PyFloat.toInt : PyFloat → Except PyExc ℤ
  | nan => .error .valueError
  | inf _ => .error .overflowError
  | fin q => .ok (truncate q)

/-- `int(v)` of a number. -/
def PyVal.numberToInt : PyVal → Except PyExc ℤ
  | bool b => .ok (if b then 1 else 0)
  | int n => .ok n
  | float f => f.toInt
  | _ => .error .typeError

/-- `round(q)`: halves go to the even neighbour. -/
abbrev roundHalfEven (q : ℚ) : ℤ := Binary64.halfEven q

/-- `_opt_float` of the handlers and of the bridge. -/
def optFloat (v : PyVal) : Except PyExc (Option PyFloat) :=
  if v.isNumber then v.numberToFloat.map some else .ok .none

/-- `_opt_int` of the location report. -/
def optInt : PyVal → Option ℤ
  | .bool b => some (if b then 1 else 0)
  | .int n => some n
  | _ => .none

/-- `float(v)` of a number does not overflow. -/
def PyVal.floatable : PyVal → Bool
  | .int n => decide (|n| < floatIntLimit)
  | _ => true

/-- `int(v)` of a number has a value. -/
def PyVal.intable : PyVal → Bool
  | .float .nan => false
  | .float (.inf _) => false
  | _ => true

theorem PyVal.numberToFloat_ok_iff {v : PyVal} (h : v.isNumber) :
    (∃ f, v.numberToFloat = .ok f) ↔ v.floatable = true := by
  cases v with
  | bool b => simp [numberToFloat, floatable]
  | float f => simp [numberToFloat, floatable]
  | int n =>
      by_cases hn : floatIntLimit ≤ |n|
      · simp [numberToFloat, floatOfInt, floatable, hn]
      · simp [numberToFloat, floatOfInt, floatable, hn, not_le.mp hn]
  | none => cases h
  | str s => cases h
  | list xs => cases h
  | dict kvs => cases h

theorem PyVal.numberToInt_ok_iff {v : PyVal} (h : v.isNumber) :
    (∃ n, v.numberToInt = .ok n) ↔ v.intable = true := by
  cases v with
  | bool b => simp [numberToInt, intable]
  | int n => simp [numberToInt, intable]
  | float f => cases f <;> simp [numberToInt, PyFloat.toInt, intable]
  | none => cases h
  | str s => cases h
  | list xs => cases h
  | dict kvs => cases h

theorem optFloat_ok_iff {v : PyVal} :
    (∃ f, optFloat v = .ok f) ↔ (v.isNumber → v.floatable = true) := by
  by_cases h : v.isNumber = true
  · rw [← PyVal.numberToFloat_ok_iff h]
    cases hv : v.numberToFloat <;> simp [optFloat, h, hv, Except.map]
  · simp [optFloat, h]

/-! ## Arithmetic on values -/

/-- `x - f` of a float `x` -/
def PyFloat.subFrom (x : ℚ) : PyFloat → PyFloat
  | nan => nan
  | inf negative => inf !negative
  | fin q => fin (x - q)

/-- `x - v` of a float `x` -/
def PyVal.subFrom (x : ℚ) (v : PyVal) : Except PyExc PyFloat :=
  v.numberToFloat.map (PyFloat.subFrom x)

/-- `lo <= v <= hi` of a number -/
def PyVal.between (lo hi : ℚ) : PyVal → Bool
  | bool b => decide (lo ≤ (if b then 1 else 0) ∧ (if b then 1 else 0) ≤ hi)
  | int n => decide (lo ≤ n ∧ n ≤ hi)
  | float (.fin q) => decide (lo ≤ q ∧ q ≤ hi)
  | _ => false

/-- `f < x` of a float `x` -/
def PyFloat.lt : PyFloat → ℚ → Bool
  | nan, _ => false
  | inf negative, _ => negative
  | fin q, x => decide (q < x)

/-- `int(round(f))` -/
def PyFloat.roundToInt : PyFloat → Except PyExc ℤ
  | nan => .error .valueError
  | inf _ => .error .overflowError
  | fin q => .ok (roundHalfEven q)

/-- `d.get(k)` of a dict with string keys. -/
def getKey (d : List (String × PyVal)) (k : String) : PyVal := (d.lookup k).getD .none

/-- `d[k]` -/
def item (d : List (String × PyVal)) (k : String) : Except PyExc PyVal :=
  match d.lookup k with
  | some v => .ok v
  | none => .error (.other "KeyError")

/-! ## Dates -/

/-- A UTC `datetime` in microseconds since the epoch, in the years 1 to 9999. -/
structure DateTime where
  us : ℤ
  year_ge : -62135596800000000 ≤ us
  year_le : us < 253402300800000000

namespace DateTime

def ofMicroseconds (us : ℤ) (err : PyExc) : Except PyExc DateTime :=
  if h : -62135596800000000 ≤ us ∧ us < 253402300800000000 then .ok ⟨us, h.1, h.2⟩
  else .error err

/-- `datetime.fromtimestamp(t, tz=timezone.utc)` of a rational `t`. -/
def ofSeconds (t : ℚ) : Except PyExc DateTime :=
  if 2 ^ 63 ≤ |t| then .error .overflowError
  else ofMicroseconds (roundHalfEven (t * 1000000)) .valueError

/-- Year, month and day of a day counted from the epoch. -/
def civil (day : ℤ) : ℤ × ℤ × ℤ :=
  let z := day + 719468
  let era := z / 146097
  let doe := z % 146097
  let yoe := (doe - doe / 1460 + doe / 36524 - doe / 146096) / 365
  let doy := doe - (365 * yoe + yoe / 4 - yoe / 100)
  let mp := (5 * doy + 2) / 153
  let month := if mp < 10 then mp + 3 else mp - 9
  (yoe + era * 400 + (if month ≤ 2 then 1 else 0), month, doy - (153 * mp + 2) / 5 + 1)

def padded (width : ℕ) (n : ℤ) : String :=
  let digits := (toString n).toList
  String.ofList (List.replicate (width - digits.length) '0' ++ digits)

/-- `d.isoformat(timespec="seconds").replace("+00:00", "Z")` -/
def isoSeconds (d : DateTime) : String :=
  let seconds := d.us / 1000000
  let (year, month, day) := civil (seconds / 86400)
  let s := seconds % 86400
  padded 4 year ++ "-" ++ padded 2 month ++ "-" ++ padded 2 day ++ "T" ++
    padded 2 (s / 3600) ++ ":" ++ padded 2 (s / 60 % 60) ++ ":" ++ padded 2 (s % 60) ++ "Z"

/-- `datetime.fromtimestamp(v, tz=timezone.utc)` -/
def fromTimestamp : PyVal → Except PyExc DateTime
  | .bool b => ofSeconds (if b then 1 else 0)
  | .int n => ofSeconds n
  | .float (.fin q) => ofSeconds q
  | .float .nan => .error .valueError
  | .float (.inf _) => .error .overflowError
  | _ => .error .typeError

/-- `d + timedelta(seconds=s)` -/
def addSeconds (d : DateTime) (s : ℤ) : Except PyExc DateTime :=
  ofMicroseconds (d.us + s * 1000000) .overflowError

end DateTime

/-! ## Text and numbers

How text is read as a number and a number written as text, by SQLite and by
Python: a parameter of the model. -/

structure Numerals where
  /-- `str(v)` of a value that is no string. -/
  pythonStr : PyVal → String
  /-- The number a column with numeric affinity makes of a text, if any. -/
  sqliteNumber : String → Option PyFloat
  /-- What a text column makes of a `REAL`. -/
  sqliteText : PyFloat → String
  /-- `float(s)` of a string. -/
  pythonFloat : String → Option PyFloat

/-- Texts none of which is a number. -/
def Numerals.plain : Numerals := ⟨fun _ ↦ "", fun _ ↦ none, fun _ ↦ "", fun _ ↦ none⟩

/-- `str(v)` -/
def PyVal.toStr (num : Numerals) : PyVal → String
  | str s => s
  | v => num.pythonStr v

/-- `float(v)` -/
def PyVal.toFloat (num : Numerals) : PyVal → Except PyExc PyFloat
  | str s =>
    match num.pythonFloat s with
    | some f => .ok f
    | .none => .error .valueError
  | v => v.numberToFloat

end MeshcoreRpc
