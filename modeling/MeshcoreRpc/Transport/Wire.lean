import MeshcoreRpc.Lib.JsonRoundTrip
import MeshcoreRpc.Transport.Adapter

/-!
# Payloads on the wire

What stands in the bytes of an MQTT payload: UTF-8 and JSON text.  How a float
is written and read is a parameter; the reader of integers refuses more than
4300 digits.
-/

namespace MeshcoreRpc

namespace Transport

/-! ## UTF-8 -/

/-- `s.encode("utf-8")` -/
def encode (s : String) : List UInt8 := s.toList.flatMap String.utf8EncodeChar

theorem decodeFrom_within {more bits lo hi : ℕ} {b : UInt8} (hb : lo ≤ b.toNat ∧ b.toNat ≤ hi)
    (rest : List UInt8) :
    decodeFrom (.within more bits lo hi) (b :: rest) =
      if more = 1 then Char.ofNat (bits * 64 + (b.toNat - 0x80)) :: decodeFrom .start rest
      else decodeFrom (.within (more - 1) (bits * 64 + (b.toNat - 0x80)) 0x80 0xBF) rest := by
  rw [decodeFrom, if_pos hb]

theorem toNat_ofNat_lt {n : ℕ} (h : n < 256) : (UInt8.ofNat n).toNat = n := by
  simp [UInt8.toNat_ofNat', Nat.mod_eq_of_lt h]

/-- A first byte that announces continuation bytes. -/
theorem decodeFrom_first {b : UInt8} {p : Pending} (hb : firstByte b.toNat = ([], p))
    (rest : List UInt8) : decodeFrom .start (b :: rest) = decodeFrom p rest := by
  rw [decodeFrom, hb, List.nil_append]

/-- The decoder undoes the encoding of one character. -/
theorem decodeFrom_char (c : Char) (rest : List UInt8) :
    decodeFrom .start (String.utf8EncodeChar c ++ rest) = c :: decodeFrom .start rest := by
  have hvalid : c.val.toNat < 0xD800 ∨ 0xDFFF < c.val.toNat ∧ c.val.toNat < 0x110000 := c.valid
  have hback : Char.ofNat c.val.toNat = c := Char.ofNat_toNat c
  unfold String.utf8EncodeChar
  generalize c.val.toNat = v at hvalid hback ⊢
  dsimp only
  split_ifs with h1 h2 h3
  · have hv : (UInt8.ofNat v).toNat = v := toNat_ofNat_lt (by omega)
    have hfirst : firstByte v = ([c], .start) := by
      rw [firstByte, if_pos (by omega), hback]
    rw [List.singleton_append, decodeFrom, hv, hfirst, List.singleton_append]
  · have hv0 : (UInt8.ofNat (v / 64 % 32 + 192)).toNat = v / 64 % 32 + 192 :=
      toNat_ofNat_lt (by omega)
    have hv1 : (UInt8.ofNat (v % 64 + 128)).toNat = v % 64 + 128 := toNat_ofNat_lt (by omega)
    have hfirst : firstByte (UInt8.ofNat (v / 64 % 32 + 192)).toNat =
        ([], .within 1 (v / 64 % 32) 0x80 0xBF) := by
      rw [hv0, firstByte, if_neg (by omega), if_neg (by omega), if_pos (by omega)]
      rw [Nat.add_sub_cancel]
    have hjoin : v / 64 % 32 * 64 + (v % 64 + 128 - 0x80) = v := by omega
    rw [List.cons_append, List.singleton_append, decodeFrom_first hfirst,
      decodeFrom_within (by rw [hv1]; omega), if_pos rfl, hv1, hjoin, hback]
  · have hv0 : (UInt8.ofNat (v / 4096 % 16 + 224)).toNat = v / 4096 % 16 + 224 :=
      toNat_ofNat_lt (by omega)
    have hv1 : (UInt8.ofNat (v / 64 % 64 + 128)).toNat = v / 64 % 64 + 128 :=
      toNat_ofNat_lt (by omega)
    have hv2 : (UInt8.ofNat (v % 64 + 128)).toNat = v % 64 + 128 := toNat_ofNat_lt (by omega)
    have hfirst : firstByte (UInt8.ofNat (v / 4096 % 16 + 224)).toNat =
        ([], .within 2 (v / 4096 % 16)
          (if v / 4096 % 16 + 224 = 0xE0 then 0xA0 else 0x80)
          (if v / 4096 % 16 + 224 = 0xED then 0x9F else 0xBF)) := by
      rw [hv0, firstByte, if_neg (by omega), if_neg (by omega), if_neg (by omega),
        if_pos (by omega)]
      rw [Nat.add_sub_cancel]
    have hbounds : (if v / 4096 % 16 + 224 = 0xE0 then 0xA0 else 0x80) ≤ v / 64 % 64 + 128 ∧
        v / 64 % 64 + 128 ≤ (if v / 4096 % 16 + 224 = 0xED then 0x9F else 0xBF) := by
      split_ifs <;> omega
    have hjoin : (v / 4096 % 16 * 64 + (v / 64 % 64 + 128 - 0x80)) * 64 + (v % 64 + 128 - 0x80) =
        v := by
      omega
    rw [List.cons_append, List.cons_append, List.singleton_append, decodeFrom_first hfirst,
      decodeFrom_within (by rw [hv1]; exact hbounds), if_neg (by omega),
      decodeFrom_within (by rw [hv2]; omega), if_pos (by omega), hv1, hv2, hjoin, hback]
  · have hv0 : (UInt8.ofNat (v / 262144 % 8 + 240)).toNat = v / 262144 % 8 + 240 :=
      toNat_ofNat_lt (by omega)
    have hv1 : (UInt8.ofNat (v / 4096 % 64 + 128)).toNat = v / 4096 % 64 + 128 :=
      toNat_ofNat_lt (by omega)
    have hv2 : (UInt8.ofNat (v / 64 % 64 + 128)).toNat = v / 64 % 64 + 128 :=
      toNat_ofNat_lt (by omega)
    have hv3 : (UInt8.ofNat (v % 64 + 128)).toNat = v % 64 + 128 := toNat_ofNat_lt (by omega)
    have hfirst : firstByte (UInt8.ofNat (v / 262144 % 8 + 240)).toNat =
        ([], .within 3 (v / 262144 % 8)
          (if v / 262144 % 8 + 240 = 0xF0 then 0x90 else 0x80)
          (if v / 262144 % 8 + 240 = 0xF4 then 0x8F else 0xBF)) := by
      rw [hv0, firstByte, if_neg (by omega), if_neg (by omega), if_neg (by omega),
        if_neg (by omega), if_pos (by omega)]
      rw [Nat.add_sub_cancel]
    have hbounds : (if v / 262144 % 8 + 240 = 0xF0 then 0x90 else 0x80) ≤ v / 4096 % 64 + 128 ∧
        v / 4096 % 64 + 128 ≤ (if v / 262144 % 8 + 240 = 0xF4 then 0x8F else 0xBF) := by
      split_ifs <;> omega
    have hjoin : ((v / 262144 % 8 * 64 + (v / 4096 % 64 + 128 - 0x80)) * 64 +
        (v / 64 % 64 + 128 - 0x80)) * 64 + (v % 64 + 128 - 0x80) = v := by
      omega
    rw [List.cons_append, List.cons_append, List.cons_append, List.singleton_append,
      decodeFrom_first hfirst, decodeFrom_within (by rw [hv1]; exact hbounds), if_neg (by omega),
      decodeFrom_within (by rw [hv2]; omega), if_neg (by omega),
      decodeFrom_within (by rw [hv3]; omega), if_pos (by omega), hv1, hv2, hv3, hjoin, hback]

theorem decode_encode (s : String) : decode (.bytes (encode s)) = s := by
  have hchars (cs : List Char) :
      decodeFrom .start (cs.flatMap String.utf8EncodeChar) = cs := by
    induction cs with
    | nil => rfl
    | cons c cs ih => rw [List.flatMap_cons, decodeFrom_char, ih]
  rw [decode, encode, hchars, String.ofList_toList]

/-- The byte of a line feed occurs in the encoding of a line feed only. -/
theorem newline_of_mem_encode {s : String} (h : (10 : UInt8) ∈ encode s) : '\n' ∈ s.toList := by
  obtain ⟨c, hc, hbyte⟩ := List.mem_flatMap.mp h
  have hvalid : c.val.toNat < 0xD800 ∨ 0xDFFF < c.val.toNat ∧ c.val.toNat < 0x110000 := c.valid
  have hten (n : ℕ) (hn : n < 256) (heq : (10 : UInt8) = UInt8.ofNat n) : n = 10 := by
    have hnat := congrArg UInt8.toNat heq
    rw [toNat_ofNat_lt hn] at hnat
    exact hnat.symm
  have hfeed : c.val.toNat = 10 := by
    unfold String.utf8EncodeChar at hbyte
    generalize c.val.toNat = v at hvalid hbyte
    dsimp only at hbyte
    split_ifs at hbyte with h1 h2 h3 <;>
      simp only [List.mem_cons, List.not_mem_nil, or_false] at hbyte
    · exact hten v (by omega) hbyte
    · rcases hbyte with hb | hb
      · have := hten _ (by omega) hb
        omega
      · have := hten _ (by omega) hb
        omega
    · rcases hbyte with hb | hb | hb
      · have := hten _ (by omega) hb
        omega
      · have := hten _ (by omega) hb
        omega
      · have := hten _ (by omega) hb
        omega
    · rcases hbyte with hb | hb | hb | hb
      · have := hten _ (by omega) hb
        omega
      · have := hten _ (by omega) hb
        omega
      · have := hten _ (by omega) hb
        omega
      · have := hten _ (by omega) hb
        omega
  have heq : c = '\n' := by
    rw [← Char.ofNat_toNat c]
    exact congrArg Char.ofNat hfeed
  rwa [heq] at hc

/-- `bs.decode("utf-8")`: bytes that encode no string are an error. -/
def decodeStrict (bs : List UInt8) : Except PyExc String :=
  if encode (decode (.bytes bs)) = bs then .ok (decode (.bytes bs)) else .error .unicodeDecodeError

theorem decodeStrict_encode (s : String) : decodeStrict (encode s) = .ok s := by
  rw [decodeStrict, decode_encode, if_pos rfl]

/-! ## JSON -/

inductive PyNum where
  | int (n : ℤ)
  | float (f : PyFloat)

/-- How Python writes a finite float and what it reads from a literal with a
fraction or an exponent. -/
structure FloatText where
  repr : ℚ → List Char × List Char × List Char
  read : List Char → List Char → List Char → PyFloat

/-- `repr` of the float is a literal that is no integer's and reads back. -/
structure FloatText.Exact (ft : FloatText) (q : ℚ) : Prop where
  whole : JsonText.IsWhole (ft.repr q).1
  fraction : JsonText.IsFraction (ft.repr q).2.1
  exponent : JsonText.IsExponent (ft.repr q).2.2
  float : (ft.repr q).2.1 ≠ [] ∨ (ft.repr q).2.2 ≠ []
  reads : ft.read (ft.repr q).1 (ft.repr q).2.1 (ft.repr q).2.2 = .fin q

/-- `str(n)` of an integer. -/
def intText (n : ℤ) : List Char :=
  if n < 0 then '-' :: Nat.toDigits 10 n.natAbs else Nat.toDigits 10 n.natAbs

/-- The integer that a sign and digits stand for. -/
def intValue : List Char → ℤ
  | [] => 0
  | c :: ds =>
    if c = '-' then -(Nat.ofDigitChars 10 ds 0 : ℕ) else (Nat.ofDigitChars 10 (c :: ds) 0 : ℕ)

/-- The text without its sign. -/
def unsigned : List Char → List Char
  | [] => []
  | c :: ds => if c = '-' then ds else c :: ds

/-- `int(s)`, of at most 4300 digits. -/
def intOfText (cs : List Char) : Except PyExc ℤ :=
  if unsigned cs ≠ [] ∧ (unsigned cs).all Char.isDigit ∧ (unsigned cs).length ≤ 4300 then
    .ok (intValue cs)
  else .error .valueError

namespace PyNum

variable (ft : FloatText)

def write : PyNum → JsonText.Numeral
  | int n => .literal (intText n) [] []
  | float (.fin q) => .literal (ft.repr q).1 (ft.repr q).2.1 (ft.repr q).2.2
  | float .nan => .nan
  | float (.inf negative) => .infinity negative

def read : JsonText.Numeral → Except PyExc PyNum
  | .literal whole fraction exponent =>
    if fraction = [] ∧ exponent = [] then (intOfText whole).map int
    else .ok (float (ft.read whole fraction exponent))
  | .nan => .ok (float .nan)
  | .infinity negative => .ok (float (.inf negative))

/-- The numbers of Python's `json`. -/
def format : JsonText.NumberFormat PyNum PyExc := ⟨write ft, read ft⟩

/-- The integer has at most 4300 digits, and the float is one that Python has. -/
def Writable : PyNum → Prop
  | int n => (Nat.toDigits 10 n.natAbs).length ≤ 4300
  | float (.fin q) => ft.Exact q
  | float _ => True

end PyNum

mutual

def toJson : PyVal → JsonText.Value PyNum
  | .none => .null
  | .bool b => .bool b
  | .int n => .num (.int n)
  | .float f => .num (.float f)
  | .str s => .str s
  | .list xs => .arr (toJsons xs)
  | .dict kvs => .obj (toPairs kvs)

def toJsons : List PyVal → List (JsonText.Value PyNum)
  | [] => []
  | x :: xs => toJson x :: toJsons xs

def toPairs : List (String × PyVal) → List (String × JsonText.Value PyNum)
  | [] => []
  | (k, v) :: kvs => (k, toJson v) :: toPairs kvs

end

mutual

def ofJson : JsonText.Value PyNum → PyVal
  | .null => .none
  | .bool b => .bool b
  | .num (.int n) => .int n
  | .num (.float f) => .float f
  | .str s => .str s
  | .arr xs => .list (ofJsons xs)
  | .obj kvs => .dict (ofPairs kvs)

def ofJsons : List (JsonText.Value PyNum) → List PyVal
  | [] => []
  | x :: xs => ofJson x :: ofJsons xs

def ofPairs : List (String × JsonText.Value PyNum) → List (String × PyVal)
  | [] => []
  | (k, v) :: kvs => (k, ofJson v) :: ofPairs kvs

end

mutual

theorem ofJson_toJson (v : PyVal) : ofJson (toJson v) = v := by
  cases v with
  | list xs => rw [toJson, ofJson, ofJsons_toJsons]
  | dict kvs => rw [toJson, ofJson, ofPairs_toPairs]
  | none | bool | int | float | str => simp only [toJson, ofJson]

theorem ofJsons_toJsons (xs : List PyVal) : ofJsons (toJsons xs) = xs := by
  cases xs with
  | nil => rfl
  | cons x xs => rw [toJsons, ofJsons, ofJson_toJson x, ofJsons_toJsons xs]

theorem ofPairs_toPairs (kvs : List (String × PyVal)) : ofPairs (toPairs kvs) = kvs := by
  cases kvs with
  | nil => rfl
  | cons kv kvs =>
      obtain ⟨k, v⟩ := kv
      rw [toPairs, ofPairs, ofJson_toJson v, ofPairs_toPairs kvs]

end

theorem mem_toJsons {xs : List PyVal} {w : JsonText.Value PyNum} :
    w ∈ toJsons xs ↔ ∃ x ∈ xs, toJson x = w := by
  induction xs with
  | nil => simp [toJsons]
  | cons x xs ih => simp [toJsons, ih, eq_comm]

theorem mem_toPairs {kvs : List (String × PyVal)} {p : String × JsonText.Value PyNum} :
    p ∈ toPairs kvs ↔ ∃ kv ∈ kvs, (kv.1, toJson kv.2) = p := by
  induction kvs with
  | nil => simp [toPairs]
  | cons kv kvs ih => simp [toPairs, ih, eq_comm]

theorem keys_toPairs (kvs : List (String × PyVal)) :
    (toPairs kvs).map Prod.fst = kvs.map Prod.fst := by
  induction kvs with
  | nil => rfl
  | cons kv kvs ih => simp [toPairs, ih]

/-! ## Reading back -/

theorem toDigits_head {n : ℕ} (h : n ≠ 0) :
    ∃ c ds, Nat.toDigits 10 n = c :: ds ∧ c ≠ '0' := by
  induction n using Nat.strongRecOn with
  | ind n ih =>
      by_cases hsmall : n < 10
      · rw [Nat.toDigits_of_lt_base hsmall]
        have hdigit : ∀ k < 10, k ≠ 0 → k.digitChar ≠ '0' := by decide
        exact ⟨_, _, rfl, hdigit n hsmall h⟩
      · rw [Nat.toDigits_of_base_le (by omega) (by omega)]
        obtain ⟨c, ds, hds, hc⟩ := ih (n / 10) (by omega) (by omega)
        exact ⟨c, ds ++ [(n % 10).digitChar], by rw [hds, List.cons_append], hc⟩

theorem allDigits_toDigits (n : ℕ) : JsonText.AllDigits (Nat.toDigits 10 n) :=
  fun _ hc ↦ Nat.isDigit_of_mem_toDigits (by omega) (by omega) hc

theorem isNatural_toDigits (n : ℕ) : JsonText.IsNatural (Nat.toDigits 10 n) := by
  by_cases hn : n = 0
  · left
    rw [hn, Nat.toDigits_zero]
  · obtain ⟨c, ds, hds, hc⟩ := toDigits_head hn
    have hall := allDigits_toDigits n
    rw [hds] at hall ⊢
    obtain ⟨hdigit, hrest⟩ := List.forall_mem_cons.mp hall
    exact .inr ⟨c, ds, rfl, hc, hdigit, hrest⟩

theorem isWhole_intText (n : ℤ) : JsonText.IsWhole (intText n) := by
  refine ⟨Nat.toDigits 10 n.natAbs, isNatural_toDigits _, ?_⟩
  rw [intText]
  split_ifs
  · exact .inr rfl
  · exact .inl rfl

theorem intValue_intText (n : ℤ) : intValue (intText n) = n := by
  rw [intText]
  split_ifs with hneg
  · have hvalue : -((n.natAbs : ℕ) : ℤ) = n := by omega
    simp only [intValue, if_true, Nat.ofDigitChars_ten_toDigits, hvalue]
  · obtain ⟨c, ds, hds, hc⟩ := (isNatural_toDigits n.natAbs).head
    have hminus : c ≠ '-' := by
      rintro rfl
      simp at hc
    have hback : Nat.ofDigitChars 10 (c :: ds) 0 = n.natAbs := by
      rw [← hds, Nat.ofDigitChars_ten_toDigits]
    have hvalue : ((n.natAbs : ℕ) : ℤ) = n := by omega
    rw [hds]
    simp only [intValue, if_neg hminus, hback, hvalue]

theorem unsigned_intText (n : ℤ) : unsigned (intText n) = Nat.toDigits 10 n.natAbs := by
  rw [intText]
  split_ifs
  · rfl
  · obtain ⟨c, ds, hds, hc⟩ := (isNatural_toDigits n.natAbs).head
    have hminus : c ≠ '-' := by
      rintro rfl
      simp at hc
    rw [hds, unsigned, if_neg hminus]

theorem intOfText_intText {n : ℤ} (h : (Nat.toDigits 10 n.natAbs).length ≤ 4300) :
    intOfText (intText n) = .ok n := by
  have hall : (Nat.toDigits 10 n.natAbs).all Char.isDigit = true :=
    List.all_eq_true.mpr (allDigits_toDigits _)
  rw [intOfText, unsigned_intText, if_pos ⟨Nat.toDigits_ne_nil, hall, h⟩, intValue_intText]

theorem ofDigitChars_lt {ds : List Char} (h : JsonText.AllDigits ds) (init : ℕ) :
    Nat.ofDigitChars 10 ds init < 10 ^ ds.length * (init + 1) := by
  induction ds generalizing init with
  | nil => simp
  | cons d ds ih =>
      obtain ⟨hd, hds⟩ := List.forall_mem_cons.mp h
      have hdigit : d.toNat - '0'.toNat ≤ 9 := by
        have hle : d.val ≤ 57 := by
          simp only [Char.isDigit, ge_iff_le, Bool.and_eq_true, decide_eq_true_eq] at hd
          exact hd.2
        have hnat : d.toNat ≤ 57 := hle
        have hzero : '0'.toNat = 48 := by decide
        omega
      have hrest := ih hds (10 * init + (d.toNat - '0'.toNat))
      have hbound : 10 ^ ds.length * (10 * init + (d.toNat - '0'.toNat) + 1) ≤
          10 ^ ds.length * (10 * (init + 1)) := Nat.mul_le_mul_left _ (by omega)
      rw [Nat.ofDigitChars_cons, List.length_cons, pow_succ, mul_assoc]
      exact lt_of_lt_of_le hrest hbound

theorem length_toDigits_ofDigitChars {ds : List Char} (h : JsonText.AllDigits ds) (hne : ds ≠ []) :
    (Nat.toDigits 10 (Nat.ofDigitChars 10 ds 0)).length ≤ ds.length := by
  rw [Nat.length_toDigits_le_iff (by omega) (List.length_pos_iff.mpr hne)]
  have hlt := ofDigitChars_lt h 0
  rwa [Nat.zero_add, Nat.mul_one] at hlt

/-- What is read from at most 4300 digits is written with at most 4300 digits. -/
theorem length_of_intOfText {cs : List Char} {n : ℤ} (h : intOfText cs = .ok n) :
    (Nat.toDigits 10 n.natAbs).length ≤ 4300 := by
  rw [intOfText] at h
  split_ifs at h with hdigits
  obtain ⟨hne, hall, hlength⟩ := hdigits
  obtain rfl : intValue cs = n := Except.ok.inj h
  have hvalue : (intValue cs).natAbs = Nat.ofDigitChars 10 (unsigned cs) 0 := by
    cases cs with
    | nil => rfl
    | cons c ds => by_cases hc : c = '-' <;> simp [intValue, unsigned, hc]
  rw [hvalue]
  exact (length_toDigits_ofDigitChars (List.all_eq_true.mp hall) hne).trans hlength

/-- Floats without a fraction, as far as Python writes them without an exponent. -/
def wholeFloats : FloatText where
  repr q := (intText q.num, ['.', '0'], [])
  read whole _ _ := .fin (intValue whole)

theorem wholeFloats_exact (n : ℤ) : wholeFloats.Exact n where
  whole := isWhole_intText _
  fraction := .inr ⟨['0'], by simp, by simp [JsonText.AllDigits], rfl⟩
  exponent := .inl rfl
  float := .inl (by simp [wholeFloats])
  reads := by simp [wholeFloats, intValue_intText]

section Text

variable (ft : FloatText)

theorem reads_of_writable {n : PyNum} (h : n.Writable ft) : (PyNum.format ft).Reads n := by
  cases n with
  | int n =>
      refine ⟨⟨isWhole_intText n, .inl rfl, .inl rfl⟩, ?_⟩
      have hread := intOfText_intText h
      simp only [PyNum.format, PyNum.write, PyNum.read, and_self, if_true, hread, Except.map]
  | float f =>
      cases f with
      | nan => exact ⟨trivial, rfl⟩
      | inf negative => exact ⟨trivial, rfl⟩
      | fin q =>
          have hexact : ft.Exact q := h
          have hnot : ¬ ((ft.repr q).2.1 = [] ∧ (ft.repr q).2.2 = []) := by
            rintro ⟨hf, he⟩
            exact hexact.float.elim (fun hne ↦ hne hf) fun hne ↦ hne he
          refine ⟨⟨hexact.whole, hexact.fraction, hexact.exponent⟩, ?_⟩
          simp only [PyNum.format, PyNum.write, PyNum.read, if_neg hnot, hexact.reads]

/-- What `json.dumps` writes so that `json.loads` reads it back: no nesting below
`depth`, no key twice, no integer of more than 4300 digits. -/
def Dumpable : ℕ → PyVal → Prop
  | _, .none => True
  | _, .bool _ => True
  | _, .str _ => True
  | _, .int n => (Nat.toDigits 10 n.natAbs).length ≤ 4300
  | _, .float f => PyNum.Writable ft (.float f)
  | 0, .list _ => False
  | 0, .dict _ => False
  | depth + 1, .list xs => ∀ x ∈ xs, Dumpable depth x
  | depth + 1, .dict kvs => (kvs.map Prod.fst).Nodup ∧ ∀ kv ∈ kvs, Dumpable depth kv.2

variable {ft}

theorem Dumpable.mono {depth depth' : ℕ} {v : PyVal} (h : Dumpable ft depth v)
    (hle : depth ≤ depth') : Dumpable ft depth' v := by
  induction depth' generalizing depth v with
  | zero =>
      obtain rfl : depth = 0 := by omega
      exact h
  | succ depth' ih =>
      cases v with
      | none | bool | str => trivial
      | int n => cases depth <;> exact h
      | float f => cases depth <;> exact h
      | list xs =>
          cases depth with
          | zero => exact h.elim
          | succ depth => exact fun x hx ↦ ih (h x hx) (by omega)
      | dict kvs =>
          cases depth with
          | zero => exact h.elim
          | succ depth => exact ⟨h.1, fun kv hkv ↦ ih (h.2 kv hkv) (by omega)⟩

theorem Dumpable.fits {depth : ℕ} {v : PyVal} (h : Dumpable ft depth v) :
    (toJson v).Fits (PyNum.format ft) depth := by
  induction depth generalizing v with
  | zero =>
      cases v with
      | none | bool | str => trivial
      | int n => exact reads_of_writable (n := .int n) ft h
      | float f => exact reads_of_writable (n := .float f) ft h
      | list xs => exact h.elim
      | dict kvs => exact h.elim
  | succ depth ih =>
      cases v with
      | none | bool | str => trivial
      | int n => exact reads_of_writable (n := .int n) ft h
      | float f => exact reads_of_writable (n := .float f) ft h
      | list xs =>
          intro w hw
          obtain ⟨x, hx, rfl⟩ := mem_toJsons.mp hw
          exact ih (h x hx)
      | dict kvs =>
          refine ⟨by rw [keys_toPairs]; exact h.1, fun p hp ↦ ?_⟩
          obtain ⟨kv, hkv, rfl⟩ := mem_toPairs.mp hp
          exact ih (h.2 kv hkv)

variable (ft)

/-- `json.dumps` -/
def dumps (sep : JsonText.Separators) (v : PyVal) : String :=
  JsonText.dumps (PyNum.format ft) sep (toJson v)

/-- `json.loads`, of texts whose strings a `String` can hold. -/
def loads (limit : ℕ) (text : String) : Except PyExc PyVal :=
  match JsonText.loads (PyNum.format ft) limit text with
  | .ok v => .ok (ofJson v)
  | .error .syntaxError => .error .jsonDecodeError
  | .error (.number err) => .error err
  | .error .recursion => .error (.other "RecursionError")
  | .error .surrogate => .error (.other "UnicodeEncodeError")

variable {ft}

theorem loads_dumps {limit : ℕ} {sep : JsonText.Separators} {v : PyVal}
    (h : Dumpable ft limit v) : loads ft limit (dumps ft sep v) = .ok v := by
  rw [loads, dumps, JsonText.loads_dumps h.fits]
  simp only [ofJson_toJson]

/-- Every float that is read is written so that it reads back. -/
def FloatText.Faithful (ft : FloatText) : Prop :=
  ∀ whole fraction exponent q, ft.read whole fraction exponent = .fin q → ft.Exact q

theorem reads_of_read (hft : ft.Faithful) {m : JsonText.Numeral} {n : PyNum}
    (h : (PyNum.format ft).read m = .ok n) : (PyNum.format ft).Reads n := by
  refine reads_of_writable ft ?_
  cases m with
  | literal whole fraction exponent =>
      simp only [PyNum.format, PyNum.read] at h
      split_ifs at h with hwhole
      · cases hint : intOfText whole with
        | error err =>
            rw [hint] at h
            cases h
        | ok k =>
            rw [hint] at h
            obtain rfl : PyNum.int k = n := Except.ok.inj h
            exact length_of_intOfText hint
      · obtain rfl : PyNum.float (ft.read whole fraction exponent) = n := Except.ok.inj h
        cases hread : ft.read whole fraction exponent with
        | fin q => exact hft _ _ _ _ hread
        | nan | inf => trivial
  | nan =>
      obtain rfl : PyNum.float .nan = n := Except.ok.inj h
      trivial
  | infinity negative =>
      obtain rfl : PyNum.float (.inf negative) = n := Except.ok.inj h
      trivial

theorem writable_of_reads {n : PyNum} (h : (PyNum.format ft).Reads n) : n.Writable ft := by
  obtain ⟨hproper, hread⟩ := h
  cases n with
  | int n =>
      simp only [PyNum.format, PyNum.write, PyNum.read, and_self, if_true] at hread
      cases hint : intOfText (intText n) with
      | error err =>
          rw [hint] at hread
          cases hread
      | ok k =>
          rw [hint] at hread
          obtain rfl : k = n := PyNum.int.inj (Except.ok.inj hread)
          exact length_of_intOfText hint
  | float f =>
      cases f with
      | nan | inf => trivial
      | fin q =>
          obtain ⟨hwhole, hfraction, hexponent⟩ := hproper
          simp only [PyNum.format, PyNum.write, PyNum.read] at hread
          split_ifs at hread with hnone
          · cases hint : intOfText (ft.repr q).1 with
            | error err =>
                rw [hint] at hread
                cases hread
            | ok k =>
                rw [hint] at hread
                cases hread
          · exact ⟨hwhole, hfraction, hexponent, not_and_or.mp hnone,
              PyNum.float.inj (Except.ok.inj hread)⟩

theorem mem_ofJsons {ws : List (JsonText.Value PyNum)} {v : PyVal} :
    v ∈ ofJsons ws ↔ ∃ w ∈ ws, ofJson w = v := by
  induction ws with
  | nil => simp [ofJsons]
  | cons w ws ih => simp [ofJsons, ih, eq_comm]

theorem mem_ofPairs {ps : List (String × JsonText.Value PyNum)} {kv : String × PyVal} :
    kv ∈ ofPairs ps ↔ ∃ p ∈ ps, (p.1, ofJson p.2) = kv := by
  induction ps with
  | nil => simp [ofPairs]
  | cons p ps ih => simp [ofPairs, ih, eq_comm]

theorem keys_ofPairs (ps : List (String × JsonText.Value PyNum)) :
    (ofPairs ps).map Prod.fst = ps.map Prod.fst := by
  induction ps with
  | nil => rfl
  | cons p ps ih => simp [ofPairs, ih]

theorem dumpable_of_fits {depth : ℕ} {w : JsonText.Value PyNum}
    (h : w.Fits (PyNum.format ft) depth) : Dumpable ft depth (ofJson w) := by
  induction depth generalizing w with
  | zero =>
      cases w with
      | num n => cases n <;> exact writable_of_reads h
      | null | bool | str => trivial
      | arr xs => exact h.elim
      | obj kvs => exact h.elim
  | succ depth ih =>
      cases w with
      | num n => cases n <;> exact writable_of_reads h
      | null | bool | str => trivial
      | arr xs =>
          intro v hv
          obtain ⟨x, hx, rfl⟩ := mem_ofJsons.mp hv
          exact ih (h x hx)
      | obj kvs =>
          refine ⟨by rw [keys_ofPairs]; exact h.1, fun kv hkv ↦ ?_⟩
          obtain ⟨p, hp, rfl⟩ := mem_ofPairs.mp hkv
          exact ih (h.2 p hp)

/-- What `json.loads` returns can be written again. -/
theorem dumpable_of_loads (hft : ft.Faithful) {limit : ℕ} {text : String} {v : PyVal}
    (h : loads ft limit text = .ok v) : Dumpable ft limit v := by
  rw [loads] at h
  split at h
  · next w hw =>
      obtain rfl := Except.ok.inj h
      exact dumpable_of_fits (JsonText.loads_fits (fun m n ↦ reads_of_read hft) hw)
  all_goals cases h

end Text

end Transport

end MeshcoreRpc
