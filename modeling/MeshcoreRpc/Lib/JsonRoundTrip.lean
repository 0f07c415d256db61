import MeshcoreRpc.Lib.JsonText
import MeshcoreRpc.Lib.Scanning

/-!
# Reading back what was written

`loads` after `dumps` gives the value back, for every value whose numbers read
back and whose objects have no repeated key.
-/

namespace JsonText

open Tables Scanning

/-! ## Numerals -/

def AllDigits (cs : List Char) : Prop := ∀ c ∈ cs, c.isDigit = true

theorem spanDigits_append {ds rest : List Char} (h : AllDigits ds)
    (hrest : Stops Char.isDigit rest) : spanDigits (ds ++ rest) = (ds, rest) := by
  rw [spanDigits, takeWhile_stops h hrest, dropWhile_stops h hrest]

def IsNatural (cs : List Char) : Prop :=
  cs = ['0'] ∨ ∃ c ds, cs = c :: ds ∧ c ≠ '0' ∧ c.isDigit = true ∧ AllDigits ds

def IsWhole (cs : List Char) : Prop := ∃ ds, IsNatural ds ∧ (cs = ds ∨ cs = '-' :: ds)

def IsFraction (cs : List Char) : Prop :=
  cs = [] ∨ ∃ ds, ds ≠ [] ∧ AllDigits ds ∧ cs = '.' :: ds

def IsSign (cs : List Char) : Prop := cs = [] ∨ cs = ['-'] ∨ cs = ['+']

def IsExponent (cs : List Char) : Prop :=
  cs = [] ∨ ∃ e sign ds, (e = 'e' ∨ e = 'E') ∧ IsSign sign ∧ ds ≠ [] ∧ AllDigits ds ∧
    cs = e :: (sign ++ ds)

/-- The numeral has the form the reader looks for. -/
def Numeral.Proper : Numeral → Prop
  | literal whole fraction exponent =>
    IsWhole whole ∧ IsFraction fraction ∧ IsExponent exponent
  | _ => True

/-- The characters a number may go on with. -/
def continues (c : Char) : Bool := c.isDigit || c = '.' || c = 'e' || c = 'E'

/-- No number goes on at the front of the text. -/
abbrev Ends (cs : List Char) : Prop := Stops continues cs

theorem Ends.digit {cs : List Char} (h : Ends cs) : Stops Char.isDigit cs :=
  h.mono fun c hc ↦ by simp [continues, hc]

theorem IsNatural.head {cs : List Char} (h : IsNatural cs) :
    ∃ c ds, cs = c :: ds ∧ c.isDigit = true := by
  rcases h with rfl | ⟨c, ds, rfl, -, hc, -⟩
  · exact ⟨'0', [], rfl, by decide⟩
  · exact ⟨c, ds, rfl, hc⟩

theorem scanNatural_append {ds rest : List Char} (h : IsNatural ds)
    (hrest : Stops Char.isDigit rest) : scanNatural (ds ++ rest) = some (ds, rest) := by
  rcases h with rfl | ⟨c, ds, rfl, hc0, hc, hds⟩
  · rfl
  · simp [scanNatural, hc0, hc, spanDigits_append hds hrest]

theorem scanWhole_append {ds rest : List Char} (h : IsWhole ds)
    (hrest : Stops Char.isDigit rest) : scanWhole (ds ++ rest) = some (ds, rest) := by
  obtain ⟨ns, hns, rfl | rfl⟩ := h
  · obtain ⟨c, cs, rfl, hc⟩ := hns.head
    have hminus : c ≠ '-' := by
      rintro rfl
      simp at hc
    have hscan := scanNatural_append hns hrest
    simpa [scanWhole, hminus] using hscan
  · simp [scanWhole, scanNatural_append hns hrest]

theorem scanFraction_append {ds rest : List Char} (h : IsFraction ds)
    (hrest : Stops (fun c ↦ c.isDigit || c = '.') rest) :
    scanFraction (ds ++ rest) = (ds, rest) := by
  rcases h with rfl | ⟨ns, hne, hns, rfl⟩
  · cases rest with
    | nil => rfl
    | cons c rest =>
        have hc := stops_cons.mp hrest
        have hdot : c ≠ '.' := by
          rintro rfl
          simp at hc
        simp [scanFraction, hdot]
  · have hdigit : Stops Char.isDigit rest := hrest.mono fun c hc ↦ by simp [hc]
    simp [scanFraction, spanDigits_append hns hdigit, hne]

theorem scanSign_append {sign rest : List Char} (h : IsSign sign)
    (hrest : Stops (fun c ↦ c = '-' || c = '+') rest) : scanSign (sign ++ rest) = (sign, rest) := by
  rcases h with rfl | rfl | rfl
  · cases rest with
    | nil => rfl
    | cons c rest =>
        have hc := stops_cons.mp hrest
        simp only [Bool.or_eq_false_iff, decide_eq_false_iff_not] at hc
        simp [scanSign, hc.1, hc.2]
  · rfl
  · rfl

theorem scanExponent_append {ds rest : List Char} (h : IsExponent ds) (hrest : Ends rest) :
    scanExponent (ds ++ rest) = (ds, rest) := by
  rcases h with rfl | ⟨e, sign, ns, he, hsign, hne, hns, rfl⟩
  · cases rest with
    | nil => rfl
    | cons c rest =>
        have hc := stops_cons.mp hrest
        simp only [continues, Bool.or_eq_false_iff, decide_eq_false_iff_not] at hc
        simp [scanExponent, hc.1.2, hc.2]
  · have hstop : Stops (fun c ↦ c = '-' || c = '+') (ns ++ rest) := by
      obtain ⟨d, ns, rfl⟩ := List.exists_cons_of_ne_nil hne
      refine stops_cons.mpr ?_
      have hd := hns d List.mem_cons_self
      simp only [Bool.or_eq_false_iff, decide_eq_false_iff_not]
      constructor
      · rintro rfl
        simp at hd
      · rintro rfl
        simp at hd
    simp [scanExponent, scanSign_append hsign hstop, spanDigits_append hns hrest.digit, he, hne]

theorem IsExponent.stops {ds rest : List Char} (h : IsExponent ds) (hrest : Ends rest) :
    Stops (fun c ↦ c.isDigit || c = '.') (ds ++ rest) := by
  rcases h with rfl | ⟨e, sign, ns, rfl | rfl, -, -, -, rfl⟩
  · exact Stops.mono hrest fun c hc ↦ by simp only [continues, hc, Bool.true_or]
  · exact stops_cons.mpr (by decide)
  · exact stops_cons.mpr (by decide)

theorem IsFraction.stops {ds rest : List Char} (h : IsFraction ds)
    (hrest : Stops Char.isDigit rest) : Stops Char.isDigit (ds ++ rest) := by
  rcases h with rfl | ⟨ns, -, -, rfl⟩
  · exact hrest
  · exact stops_cons.mpr (by decide)

theorem Numeral.text_literal {whole fraction exponent : List Char} :
    (literal whole fraction exponent).text = whole ++ (fraction ++ exponent) := rfl

/-- A numeral is read as far as it goes. -/
theorem scanNumeral_text {m : Numeral} (h : m.Proper) {rest : List Char} (hrest : Ends rest) :
    scanNumeral (m.text ++ rest) = some (m, rest) := by
  cases m with
  | literal whole fraction exponent =>
      obtain ⟨hwhole, hfraction, hexponent⟩ := h
      have hstops := hexponent.stops hrest
      have hdigit : Stops Char.isDigit (exponent ++ rest) := hstops.mono fun c hc ↦ by simp [hc]
      have hscan : scanLiteral ((Numeral.literal whole fraction exponent).text ++ rest) =
          some (.literal whole fraction exponent, rest) := by
        have htext : (Numeral.literal whole fraction exponent).text ++ rest =
            whole ++ (fraction ++ (exponent ++ rest)) := by
          rw [Numeral.text_literal, List.append_assoc, List.append_assoc]
        have hwhole' := scanWhole_append hwhole (hfraction.stops hdigit)
        have hfraction' := scanFraction_append hfraction hstops
        have hexponent' := scanExponent_append hexponent hrest
        rw [htext, scanLiteral, hwhole', Option.map_some]
        dsimp only
        rw [hfraction']
        dsimp only
        rw [hexponent']
      rw [scanNumeral, hscan, Option.some_or]
  | nan => rfl
  | infinity negative => cases negative <;> rfl

/-! ## Strings -/

theorem hexValue_hexDigit : ∀ n < 16, hexValue (hexDigit n) = some n := by decide

theorem hexUnit_digits {n : ℕ} (h : n < 0x10000) :
    hexUnit (hexDigit (n / 4096 % 16)) (hexDigit (n / 256 % 16)) (hexDigit (n / 16 % 16))
      (hexDigit (n % 16)) = some n := by
  have hdigit (k : ℕ) : hexValue (hexDigit (k % 16)) = some (k % 16) :=
    hexValue_hexDigit _ (Nat.mod_lt _ (by omega))
  have hvalue : n / 4096 % 16 * 4096 + n / 256 % 16 * 256 + n / 16 % 16 * 16 + n % 16 = n := by
    omega
  simp [hexUnit, hdigit, hvalue]

variable {E : Type}

theorem scanChars_quote (rest : List Char) :
    scanChars (E := E) none ('"' :: rest) = .ok ([], rest) := by
  rw [scanChars.eq_def]
  simp

/-- An escape by a letter. -/
theorem scanChars_letter {e c : Char} (hu : e ≠ 'u') (h : unescape e = some c)
    (rest : List Char) :
    scanChars (E := E) none ('\\' :: e :: rest) =
      (scanChars none rest).map fun p ↦ (c :: p.1, p.2) := by
  rw [scanChars.eq_def]
  simp [hu, h]

/-- A unit that is no surrogate stands for itself. -/
theorem scanChars_unit {c : Char} (h : c.toNat < 0x10000) (rest : List Char) :
    scanChars (E := E) none (escapeUnit c.toNat ++ rest) =
      (scanChars none rest).map fun p ↦ (c :: p.1, p.2) := by
  have hvalid : c.toNat < 0xD800 ∨ 0xDFFF < c.toNat := by
    rcases c.valid with h | h
    · exact .inl h
    · exact .inr h.1
  have hhigh : ¬ isHigh c.toNat := by
    rintro ⟨hlo, hhi⟩
    omega
  have hlow : ¬ isLow c.toNat := by
    rintro ⟨hlo, hhi⟩
    omega
  simp [escapeUnit, scanChars, hexUnit_digits h, hhigh, hlow]

/-- A high surrogate and a low one stand for one character. -/
theorem scanChars_pair {high low : ℕ} (hhigh : isHigh high) (hlow : isLow low)
    (rest : List Char) :
    scanChars (E := E) none (escapeUnit high ++ (escapeUnit low ++ rest)) =
      (scanChars none rest).map fun p ↦
        (Char.ofNat (0x10000 + (high - 0xD800) * 0x400 + (low - 0xDC00)) :: p.1, p.2) := by
  have hhigh' : high < 0x10000 := lt_of_le_of_lt hhigh.2 (by omega)
  have hlow' : low < 0x10000 := lt_of_le_of_lt hlow.2 (by omega)
  simp [escapeUnit, scanChars, lowUnit, hexUnit_digits hhigh', hexUnit_digits hlow', hhigh, hlow,
    Option.filter_some]

theorem scanChars_escape (c : Char) (rest : List Char) :
    scanChars (E := E) none (escapeChar c ++ rest) =
      (scanChars none rest).map fun p ↦ (c :: p.1, p.2) := by
  by_cases hshort : c ∈ ['"', '\\', '\n', '\r', '\t', '\x0c', '\x08']
  · simp only [List.mem_cons, List.not_mem_nil, or_false] at hshort
    rcases hshort with rfl | rfl | rfl | rfl | rfl | rfl | rfl <;>
      exact scanChars_letter (by decide) (by decide) rest
  simp only [List.mem_cons, List.not_mem_nil, or_false, not_or] at hshort
  obtain ⟨hquote, hslash, hn, hr, ht, hf, hb⟩ := hshort
  rw [escapeChar, if_neg hquote, if_neg hslash, if_neg hn, if_neg hr, if_neg ht, if_neg hf,
    if_neg hb]
  by_cases hplain : ' ' ≤ c ∧ c ≤ '~'
  · have hnot : ¬ c < ' ' := Char.not_lt.mpr hplain.1
    rw [if_pos hplain, List.singleton_append, scanChars.eq_def]
    simp [hquote, hslash, hnot]
  rw [if_neg hplain]
  by_cases hsmall : c.toNat < 0x10000
  · rw [if_pos hsmall, scanChars_unit hsmall]
  · -- the pair of surrogates carries the twenty bits above U+10000
    have hbound : c.toNat < 0x110000 := by
      rcases c.valid with h | h
      · exact lt_of_lt_of_le h (by omega)
      · exact h.2
    have hhigh : isHigh (0xD800 + (c.toNat - 0x10000) / 0x400) := ⟨by omega, by omega⟩
    have hlow : isLow (0xDC00 + (c.toNat - 0x10000) % 0x400) := ⟨by omega, by omega⟩
    have hjoin : 0x10000 + (0xD800 + (c.toNat - 0x10000) / 0x400 - 0xD800) * 0x400 +
        (0xDC00 + (c.toNat - 0x10000) % 0x400 - 0xDC00) = c.toNat := by
      omega
    rw [if_neg hsmall, List.append_assoc, scanChars_pair hhigh hlow, hjoin, Char.ofNat_toNat]

theorem scanChars_escaped (s rest : List Char) :
    scanChars (E := E) none (s.flatMap escapeChar ++ '"' :: rest) = .ok (s, rest) := by
  induction s with
  | nil => exact scanChars_quote rest
  | cons c s ih => rw [List.flatMap_cons, List.append_assoc, scanChars_escape, ih, Except.map]

theorem scanString_quote (s : String) (rest : List Char) :
    scanString (E := E) (s.toList.flatMap escapeChar ++ ['"'] ++ rest) = .ok (s, rest) := by
  have htext : s.toList.flatMap escapeChar ++ ['"'] ++ rest =
      s.toList.flatMap escapeChar ++ '"' :: rest := by simp
  rw [htext, scanString, scanChars_escaped, Except.map, String.ofList_toList]

/-! ## Values -/

variable {N : Type} {fmt : NumberFormat N E} {sep : Separators}

/-- What is written for the number is read as the number. -/
def NumberFormat.Reads (fmt : NumberFormat N E) (n : N) : Prop :=
  (fmt.write n).Proper ∧ fmt.read (fmt.write n) = .ok n

/-- The value nests no deeper than `depth`, repeats no key in an object and
holds numbers that read back. -/
def Value.Fits (fmt : NumberFormat N E) : ℕ → Value N → Prop
  | _, .null => True
  | _, .bool _ => True
  | _, .str _ => True
  | _, .num n => fmt.Reads n
  | 0, .arr _ => False
  | 0, .obj _ => False
  | depth + 1, .arr xs => ∀ x ∈ xs, x.Fits fmt depth
  | depth + 1, .obj kvs => (kvs.map Prod.fst).Nodup ∧ ∀ kv ∈ kvs, kv.2.Fits fmt depth

theorem Numeral.Proper.head {m : Numeral} (h : m.Proper) :
    ∃ c cs, m.text = c :: cs ∧ (c.isDigit = true ∨ c ∈ ['-', 'N', 'I']) := by
  cases m with
  | literal whole fraction exponent =>
      obtain ⟨ds, hds, hwhole⟩ := h.1
      obtain ⟨c, cs, rfl, hc⟩ := hds.head
      rcases hwhole with rfl | rfl
      · exact ⟨c, cs ++ (fraction ++ exponent), rfl, .inl hc⟩
      · exact ⟨'-', c :: cs ++ (fraction ++ exponent), rfl, .inr (by decide)⟩
  | nan => exact ⟨'N', ['a', 'N'], rfl, .inr (by decide)⟩
  | infinity negative =>
      cases negative with
      | false => exact ⟨'I', _, rfl, .inr (by decide)⟩
      | true => exact ⟨'-', _, rfl, .inr (by decide)⟩

theorem strip_ne {k c : Char} (word cs : List Char) (h : c ≠ k) :
    strip (k :: word) (c :: cs) = none := by
  simp [strip, Ne.symm h]

/-- No value begins with a blank or with what ends an array or an object. -/
def opens (c : Char) : Bool := !isBlank c && c != ']' && c != '\x7d'

theorem opens_digit {c : Char} (h : c.isDigit = true ∨ c ∈ ['-', 'N', 'I']) :
    opens c = true ∧ c ∉ ['"', '\x7b', '[', 'n', 't', 'f'] := by
  rcases h with hd | hc
  · simp only [opens, isBlank, Bool.and_eq_true, Bool.not_eq_true', Bool.or_eq_false_iff,
      decide_eq_false_iff_not, bne_iff_ne, List.mem_cons, List.not_mem_nil, or_false, not_or]
    refine ⟨⟨⟨⟨⟨⟨?_, ?_⟩, ?_⟩, ?_⟩, ?_⟩, ?_⟩, ?_, ?_, ?_, ?_, ?_, ?_⟩ <;>
      (rintro rfl; exact absurd hd (by decide))
  · simp only [List.mem_cons, List.not_mem_nil, or_false] at hc
    rcases hc with rfl | rfl | rfl <;> decide

theorem Value.Fits.reads {depth : ℕ} {n : N} (h : (Value.num n).Fits fmt depth) :
    fmt.Reads n := by
  cases depth <;> exact h

theorem Value.Fits.text_head (sep : Separators) {depth : ℕ} {v : Value N} (h : v.Fits fmt depth) :
    ∃ c cs, v.text fmt sep = c :: cs ∧ opens c = true := by
  cases v with
  | null => exact ⟨'n', _, rfl, by decide⟩
  | bool b => cases b <;> exact ⟨_, _, rfl, by decide⟩
  | str s => exact ⟨'"', _, rfl, by decide⟩
  | num n =>
      obtain ⟨c, cs, htext, hc⟩ := h.reads.1.head
      exact ⟨c, cs, htext, (opens_digit hc).1⟩
  | arr xs => cases xs <;> exact ⟨'[', _, rfl, by decide⟩
  | obj kvs => cases kvs <;> exact ⟨'\x7b', _, rfl, by decide⟩

theorem skip_opens {c : Char} {cs : List Char} (h : opens c = true) : skip (c :: cs) = c :: cs := by
  simp only [opens, Bool.and_eq_true, Bool.not_eq_true'] at h
  simp [skip, h.1.1]

theorem skip_blanks {cs rest : List Char} (h : ∀ c ∈ cs, isBlank c = true) :
    skip (cs ++ rest) = skip rest := by
  rw [skip, List.dropWhile_append_of_pos h, skip]

theorem skip_text (sep : Separators) {depth : ℕ} {v : Value N} (h : v.Fits fmt depth)
    (rest : List Char) :
    skip (v.text fmt sep ++ rest) = v.text fmt sep ++ rest := by
  obtain ⟨c, cs, htext, hc⟩ := h.text_head sep
  rw [htext, List.cons_append, skip_opens hc]

/-! ## The round trip -/

/-- The reader finds the value in front of every text that does not prolong it. -/
def ReadsBack (sep : Separators) (fmt : NumberFormat N E) (scan : Scanner E (Value N))
    (v : Value N) : Prop :=
  ∀ rest, Ends rest → scan (v.text fmt sep ++ rest) = .ok (v, rest)

theorem ends_itemsText (fmt : NumberFormat N E) (sep : Separators) (xs : List (Value N))
    (rest : List Char) :
    Ends (Value.itemsText fmt sep xs ++ rest) := by
  cases xs <;> exact stops_cons.mpr (by decide)

theorem ends_pairsText (fmt : NumberFormat N E) (sep : Separators) (kvs : List (String × Value N))
    (rest : List Char) :
    Ends (Value.pairsText fmt sep kvs ++ rest) := by
  cases kvs <;> exact stops_cons.mpr (by decide)

theorem skip_comma (cs : List Char) : skip (',' :: cs) = ',' :: cs := rfl

theorem scanItems_text {scan : Scanner E (Value N)} {depth : ℕ} {xs : List (Value N)} {x : Value N}
    (hfit : ∀ y ∈ x :: xs, y.Fits fmt depth) (hscan : ∀ y ∈ x :: xs, ReadsBack sep fmt scan y)
    {n : ℕ} (hn : xs.length < n) (rest : List Char) :
    scanItems scan n (x.text fmt sep ++ (Value.itemsText fmt sep xs ++ rest)) =
      .ok (x :: xs, rest) := by
  induction xs generalizing x n with
  | nil =>
      obtain ⟨n, rfl⟩ := Nat.exists_eq_succ_of_ne_zero (by omega : n ≠ 0)
      have hread := hscan x List.mem_cons_self _ (ends_itemsText fmt sep [] rest)
      rw [scanItems, hread]
      simp [Value.itemsText, skip, isBlank, bind, Except.bind]
  | cons y ys ih =>
      obtain ⟨n, rfl⟩ := Nat.exists_eq_succ_of_ne_zero (by omega : n ≠ 0)
      have hread := hscan x List.mem_cons_self _
        (ends_itemsText fmt sep (y :: ys) rest)
      have hnext := ih (fun z hz ↦ hfit z (List.mem_cons_of_mem x hz))
        (fun z hz ↦ hscan z (List.mem_cons_of_mem x hz)) (by simpa using hn : ys.length < n)
      have hskip : skip (sep.comma ++ (y.text fmt sep ++ (Value.itemsText fmt sep ys ++ rest))) =
          y.text fmt sep ++ (Value.itemsText fmt sep ys ++ rest) := by
        rw [skip_blanks sep.comma_blank, skip_text sep (hfit y (by simp))]
      rw [scanItems, hread]
      simp only [bind, Except.bind, Value.itemsText, List.cons_append, List.append_assoc,
        skip_comma, if_true, hskip, hnext, Except.map]

theorem scanPair_text {scan : Scanner E (Value N)} {depth : ℕ} {k : String} {v : Value N}
    (hfit : v.Fits fmt depth) (hscan : ReadsBack sep fmt scan v) {rest : List Char}
    (hrest : Ends rest) :
    scanPair scan (quote k ++ ':' :: (sep.colon ++ v.text fmt sep) ++ rest) =
      .ok ((k, v), rest) := by
  have hquote : quote k ++ ':' :: (sep.colon ++ v.text fmt sep) ++ rest =
      '"' :: (k.toList.flatMap escapeChar ++ ['"'] ++
        ':' :: (sep.colon ++ (v.text fmt sep ++ rest))) := by
    simp [quote]
  have hskip : skip (sep.colon ++ (v.text fmt sep ++ rest)) = v.text fmt sep ++ rest := by
    rw [skip_blanks sep.colon_blank, skip_text sep hfit]
  have hcolon (cs : List Char) : skip (':' :: cs) = ':' :: cs := rfl
  rw [hquote, scanPair, if_pos rfl, scanString_quote]
  simp only [bind, Except.bind, hcolon, if_true, hskip, hscan rest hrest, Except.map]

theorem scanPairs_text {scan : Scanner E (Value N)} {depth : ℕ} {kvs : List (String × Value N)}
    {kv : String × Value N} (hfit : ∀ p ∈ kv :: kvs, p.2.Fits fmt depth)
    (hscan : ∀ p ∈ kv :: kvs, ReadsBack sep fmt scan p.2) {n : ℕ} (hn : kvs.length < n)
    (rest : List Char) :
    scanPairs scan n (quote kv.1 ++ ':' :: (sep.colon ++ kv.2.text fmt sep) ++
      (Value.pairsText fmt sep kvs ++ rest)) = .ok (kv :: kvs, rest) := by
  induction kvs generalizing kv n with
  | nil =>
      obtain ⟨n, rfl⟩ := Nat.exists_eq_succ_of_ne_zero (by omega : n ≠ 0)
      have hread := scanPair_text (k := kv.1) (hfit kv List.mem_cons_self)
        (hscan kv List.mem_cons_self) (ends_pairsText fmt sep [] rest)
      rw [scanPairs, hread]
      simp [Value.pairsText, skip, isBlank, bind, Except.bind]
  | cons kv' kvs ih =>
      obtain ⟨n, rfl⟩ := Nat.exists_eq_succ_of_ne_zero (by omega : n ≠ 0)
      have hread := scanPair_text (k := kv.1) (hfit kv List.mem_cons_self)
        (hscan kv List.mem_cons_self) (ends_pairsText fmt sep (kv' :: kvs) rest)
      have hnext := ih (fun p hp ↦ hfit p (List.mem_cons_of_mem kv hp))
        (fun p hp ↦ hscan p (List.mem_cons_of_mem kv hp)) (by simpa using hn : kvs.length < n)
      have hskip (cs : List Char) : skip (sep.comma ++ (quote kv'.1 ++ cs)) = quote kv'.1 ++
          cs := by
        rw [skip_blanks sep.comma_blank]
        exact skip_opens (by decide)
      rw [scanPairs, hread]
      simp only [bind, Except.bind, Value.pairsText, List.cons_append, List.append_assoc,
        skip_comma, if_true, hskip, Except.map] at hnext ⊢
      rw [hnext]

/-- The text of a tail is at least as long as the tail. -/
theorem length_itemsText (fmt : NumberFormat N E) (sep : Separators) (xs : List (Value N)) :
    xs.length < (Value.itemsText fmt sep xs).length := by
  induction xs with
  | nil => simp [Value.itemsText]
  | cons x xs ih =>
      simp only [Value.itemsText, List.length_cons, List.length_append]
      omega

theorem length_pairsText (fmt : NumberFormat N E) (sep : Separators)
    (kvs : List (String × Value N)) :
    kvs.length < (Value.pairsText fmt sep kvs).length := by
  induction kvs with
  | nil => simp [Value.pairsText]
  | cons kv kvs ih =>
      simp only [Value.pairsText, List.length_cons, List.length_append]
      omega

theorem scanArray_text {scan : Scanner E (Value N)} {depth : ℕ} {xs : List (Value N)}
    (hfit : ∀ y ∈ xs, y.Fits fmt depth) (hscan : ∀ y ∈ xs, ReadsBack sep fmt scan y)
    (rest : List Char) {cs : List Char} (hcs : (Value.arr xs).text fmt sep ++ rest = '[' :: cs) :
    scanArray scan cs = .ok (.arr xs, rest) := by
  cases xs with
  | nil =>
      obtain rfl : ']' :: rest = cs := (List.cons.inj hcs).2
      rfl
  | cons x xs =>
      have hbody : x.text fmt sep ++ (Value.itemsText fmt sep xs ++ rest) = cs :=
        (List.append_assoc ..).symm.trans (List.cons.inj hcs).2
      obtain ⟨c, tail, htext, hc⟩ := (hfit x List.mem_cons_self).text_head sep
      have hclose : c ≠ ']' := by
        rintro rfl
        exact absurd hc (by decide)
      have hlength : xs.length < cs.length + 1 := by
        have htail := length_itemsText fmt sep xs
        rw [← hbody]
        simp only [List.length_append]
        omega
      have hitems := scanItems_text hfit hscan hlength rest
      rw [← hbody, htext] at hitems ⊢
      rw [scanArray, List.cons_append, skip_opens hc]
      simp only [hclose, if_false]
      rw [← List.cons_append, hitems]
      rfl

theorem scanObject_text {scan : Scanner E (Value N)} {depth : ℕ} {kvs : List (String × Value N)}
    (hnodup : (kvs.map Prod.fst).Nodup) (hfit : ∀ p ∈ kvs, p.2.Fits fmt depth)
    (hscan : ∀ p ∈ kvs, ReadsBack sep fmt scan p.2) (rest : List Char) {cs : List Char}
    (hcs : (Value.obj kvs).text fmt sep ++ rest = '\x7b' :: cs) :
    scanObject scan cs = .ok (.obj kvs, rest) := by
  cases kvs with
  | nil =>
      obtain rfl : '\x7d' :: rest = cs := (List.cons.inj hcs).2
      rfl
  | cons kv kvs =>
      have hbody : quote kv.1 ++ ':' :: (sep.colon ++ kv.2.text fmt sep) ++
          (Value.pairsText fmt sep kvs ++ rest) = cs :=
        (List.append_assoc ..).symm.trans (List.cons.inj hcs).2
      have hlength : kvs.length < cs.length + 1 := by
        have htail := length_pairsText fmt sep kvs
        rw [← hbody]
        simp only [List.length_append]
        omega
      have hpairs := scanPairs_text hfit hscan hlength rest
      have hrows : (Dict.update Table.empty (kv :: kvs)).rows = kv :: kvs := by
        rw [Dict.rows_update_new (fun _ _ ↦ by simp [Dict.keys, Table.empty]) hnodup]
        rfl
      have hskip : skip cs = cs := by
        rw [← hbody]
        exact skip_opens (by decide)
      rw [scanObject, hskip]
      rw [hbody] at hpairs
      cases cs with
      | nil => simp [quote] at hbody
      | cons c tail =>
          have hc : c = '"' := by
            rw [quote] at hbody
            exact ((List.cons.inj hbody).1).symm
          have hclose : c ≠ '\x7d' := by
            rw [hc]
            decide
          simp only [hclose, if_false, hpairs, Except.map, hrows]

/-- A keyword or a number is read back in front of what does not prolong it. -/
theorem scanScalar_num {n : N} (h : fmt.Reads n) {rest : List Char} (hrest : Ends rest) :
    scanScalar fmt ((fmt.write n).text ++ rest) = .ok (.num n, rest) := by
  obtain ⟨c, cs, htext, hc⟩ := h.1.head
  have hother := (opens_digit hc).2
  simp only [List.mem_cons, List.not_mem_nil, or_false, not_or] at hother
  obtain ⟨-, -, -, hn, ht, hf⟩ := hother
  have hscan := scanNumeral_text h.1 hrest
  rw [scanScalar, hscan, htext, List.cons_append, strip_ne _ _ hn, strip_ne _ _ ht,
    strip_ne _ _ hf]
  simp only [h.2]

theorem scanAny_text {nested : Option (Scanner E (Value N))} {depth : ℕ} {v : Value N}
    (hfit : v.Fits fmt depth)
    (hnested : ∀ d, depth = d + 1 → ∃ scan, nested = some scan ∧
      ∀ w : Value N, w.Fits fmt d → ReadsBack sep fmt scan w) :
    ReadsBack sep fmt (scanAny fmt nested) v := by
  intro rest hrest
  cases v with
  | null => rfl
  | bool b => cases b <;> rfl
  | str s =>
      have hcs : (Value.str s : Value N).text fmt sep ++ rest =
          '"' :: (s.toList.flatMap escapeChar ++ ['"'] ++ rest) := rfl
      rw [hcs, scanAny.eq_def]
      simp only [if_true, scanString_quote, Except.map]
  | num n =>
      obtain ⟨c, cs, htext, hc⟩ := hfit.reads.1.head
      have hother := (opens_digit hc).2
      simp only [List.mem_cons, List.not_mem_nil, or_false, not_or] at hother
      have hscalar := scanScalar_num hfit.reads hrest
      rw [Value.text]
      rw [htext, List.cons_append] at hscalar ⊢
      rw [scanAny.eq_def]
      simp only [if_neg hother.1, if_neg hother.2.1, if_neg hother.2.2.1, hscalar]
  | arr xs =>
      cases depth with
      | zero => exact hfit.elim
      | succ d =>
          obtain ⟨scan, rfl, hscan⟩ := hnested d rfl
          obtain ⟨cs, hcs⟩ : ∃ cs, (Value.arr xs).text fmt sep ++ rest = '[' :: cs := by
            cases xs <;> exact ⟨_, rfl⟩
          rw [hcs, scanAny, if_neg (by decide), if_neg (by decide), if_pos rfl]
          exact scanArray_text hfit (fun y hy ↦ hscan y (hfit y hy)) rest hcs
  | obj kvs =>
      cases depth with
      | zero => exact hfit.elim
      | succ d =>
          obtain ⟨scan, rfl, hscan⟩ := hnested d rfl
          obtain ⟨cs, hcs⟩ : ∃ cs, (Value.obj kvs).text fmt sep ++ rest = '\x7b' :: cs := by
            cases kvs <;> exact ⟨_, rfl⟩
          rw [hcs, scanAny, if_neg (by decide), if_pos rfl]
          exact scanObject_text hfit.1 hfit.2 (fun p hp ↦ hscan p.2 (hfit.2 p hp)) rest hcs

/-- The reader is right about every value that fits its depth. -/
theorem scanOnce_text (sep : Separators) (depth : ℕ) (v : Value N) (h : v.Fits fmt depth) :
    ReadsBack sep fmt (scanOnce fmt depth) v := by
  induction depth generalizing v with
  | zero => exact scanAny_text h fun d hd ↦ absurd hd (by omega)
  | succ depth ih =>
      refine scanAny_text h fun d hd ↦ ⟨scanOnce fmt depth, rfl, fun w hw ↦ ?_⟩
      obtain rfl : depth = d := by omega
      exact ih w hw

/-! ## The written text is ASCII -/

def Ascii (cs : List Char) : Prop := ∀ c ∈ cs, c.toNat < 0x80

theorem Ascii.append {cs ds : List Char} (hc : Ascii cs) (hd : Ascii ds) : Ascii (cs ++ ds) := by
  intro c h
  rcases List.mem_append.mp h with h | h
  · exact hc c h
  · exact hd c h

theorem Ascii.cons {c : Char} {cs : List Char} (hc : c.toNat < 0x80) (hcs : Ascii cs) :
    Ascii (c :: cs) := by
  intro d h
  rcases List.mem_cons.mp h with rfl | h
  · exact hc
  · exact hcs d h

theorem ascii_nil : Ascii [] := by simp [Ascii]

theorem toNat_of_isDigit {c : Char} (h : c.isDigit = true) : c.toNat < 0x80 := by
  have hle : c.val ≤ 57 := by
    simp only [Char.isDigit, ge_iff_le, Bool.and_eq_true, decide_eq_true_eq] at h
    exact h.2
  have hnat : c.toNat ≤ 57 := hle
  omega

theorem AllDigits.ascii {ds : List Char} (h : AllDigits ds) : Ascii ds :=
  fun c hc ↦ toNat_of_isDigit (h c hc)

theorem toNat_hexDigit : ∀ n < 16, (hexDigit n).toNat < 0x80 := by decide

theorem ascii_escapeUnit (n : ℕ) : Ascii (escapeUnit n) := by
  have hdigit (k : ℕ) : (hexDigit (k % 16)).toNat < 0x80 :=
    toNat_hexDigit _ (Nat.mod_lt _ (by omega))
  exact .cons (by decide) (.cons (by decide) (.cons (hdigit _) (.cons (hdigit _)
    (.cons (hdigit _) (.cons (hdigit _) ascii_nil)))))

theorem ascii_escapeChar (c : Char) : Ascii (escapeChar c) := by
  have htwo : ∀ d ∈ ['"', '\\', 'n', 'r', 't', 'f', 'b'], Ascii ['\\', d] := by
    intro d hd
    refine .cons (by decide) (.cons ?_ ascii_nil)
    simp only [List.mem_cons, List.not_mem_nil, or_false] at hd
    rcases hd with rfl | rfl | rfl | rfl | rfl | rfl | rfl <;> decide
  unfold escapeChar
  split_ifs with _ _ _ _ _ _ _ hplain
  · exact htwo _ (by simp)
  · exact htwo _ (by simp)
  · exact htwo _ (by simp)
  · exact htwo _ (by simp)
  · exact htwo _ (by simp)
  · exact htwo _ (by simp)
  · exact htwo _ (by simp)
  · have hle : c.toNat ≤ 126 := hplain.2
    exact .cons (by omega) ascii_nil
  · exact ascii_escapeUnit _
  · exact (ascii_escapeUnit _).append (ascii_escapeUnit _)

theorem ascii_quote (s : String) : Ascii (quote s) := by
  refine .cons (by decide) (.append (fun c hc ↦ ?_) (.cons (by decide) ascii_nil))
  obtain ⟨d, -, hd⟩ := List.mem_flatMap.mp hc
  exact ascii_escapeChar d c hd

theorem ascii_blank {cs : List Char} (h : ∀ c ∈ cs, isBlank c = true) : Ascii cs := by
  intro c hc
  have hblank := h c hc
  simp only [isBlank, Bool.or_eq_true, decide_eq_true_eq] at hblank
  rcases hblank with ((rfl | rfl) | rfl) | rfl <;> decide

theorem IsNatural.digits {ds : List Char} (h : IsNatural ds) : AllDigits ds := by
  rcases h with rfl | ⟨c, ds, rfl, -, hc, hds⟩
  · simp [AllDigits]
  · exact List.forall_mem_cons.mpr ⟨hc, hds⟩

theorem Numeral.Proper.ascii {m : Numeral} (h : m.Proper) : Ascii m.text := by
  cases m with
  | literal whole fraction exponent =>
      obtain ⟨⟨ds, hds, hwhole⟩, hfraction, hexponent⟩ := h
      refine .append ?_ (.append ?_ ?_)
      · rcases hwhole with rfl | rfl
        · exact hds.digits.ascii
        · exact .cons (by decide) hds.digits.ascii
      · rcases hfraction with rfl | ⟨ns, -, hns, rfl⟩
        · exact ascii_nil
        · exact .cons (by decide) hns.ascii
      · rcases hexponent with rfl | ⟨e, sign, ns, he, hsign, -, hns, rfl⟩
        · exact ascii_nil
        · refine .cons ?_ (.append ?_ hns.ascii)
          · rcases he with rfl | rfl <;> decide
          · rcases hsign with rfl | rfl | rfl
            · exact ascii_nil
            · exact .cons (by decide) ascii_nil
            · exact .cons (by decide) ascii_nil
  | nan => simp [Ascii, Numeral.text]
  | infinity negative => cases negative <;> simp [Ascii, Numeral.text]

theorem ascii_itemsText {xs : List (Value N)} (h : ∀ x ∈ xs, Ascii (x.text fmt sep)) :
    Ascii (Value.itemsText fmt sep xs) := by
  induction xs with
  | nil => exact .cons (by decide) ascii_nil
  | cons x xs ih =>
      obtain ⟨hx, hxs⟩ := List.forall_mem_cons.mp h
      exact .cons (by decide) (.append (.append (ascii_blank sep.comma_blank) hx) (ih hxs))

theorem ascii_pairText {k : String} {v : Value N} (h : Ascii (v.text fmt sep)) :
    Ascii (quote k ++ ':' :: (sep.colon ++ v.text fmt sep)) :=
  (ascii_quote k).append (.cons (by decide) (.append (ascii_blank sep.colon_blank) h))

theorem ascii_pairsText {kvs : List (String × Value N)}
    (h : ∀ kv ∈ kvs, Ascii (kv.2.text fmt sep)) : Ascii (Value.pairsText fmt sep kvs) := by
  induction kvs with
  | nil => exact .cons (by decide) ascii_nil
  | cons kv kvs ih =>
      obtain ⟨hkv, hkvs⟩ := List.forall_mem_cons.mp h
      exact .cons (by decide) (.append (.append (ascii_blank sep.comma_blank) (ascii_pairText hkv))
        (ih hkvs))

theorem Value.Fits.ascii (sep : Separators) {depth : ℕ} {v : Value N} (h : v.Fits fmt depth) :
    Ascii (v.text fmt sep) := by
  induction depth generalizing v with
  | zero =>
      cases v with
      | null => simp [Ascii, Value.text]
      | bool b => cases b <;> simp [Ascii, Value.text]
      | num n => exact h.reads.1.ascii
      | str s => exact ascii_quote s
      | arr xs => exact h.elim
      | obj kvs => exact h.elim
  | succ depth ih =>
      cases v with
      | null => simp [Ascii, Value.text]
      | bool b => cases b <;> simp [Ascii, Value.text]
      | num n => exact h.reads.1.ascii
      | str s => exact ascii_quote s
      | arr xs =>
          cases xs with
          | nil => simp [Ascii, Value.text]
          | cons x xs =>
              obtain ⟨hx, hxs⟩ := List.forall_mem_cons.mp h
              exact .cons (by decide) ((ih hx).append (ascii_itemsText fun y hy ↦ ih (hxs y hy)))
      | obj kvs =>
          cases kvs with
          | nil => simp [Ascii, Value.text]
          | cons kv kvs =>
              obtain ⟨hkv, hkvs⟩ := List.forall_mem_cons.mp h.2
              exact .cons (by decide) ((ascii_pairText (ih hkv)).append
                (ascii_pairsText fun p hp ↦ ih (hkvs p hp)))

/-- `json.loads` undoes `json.dumps`. -/
theorem loads_dumps {limit : ℕ} {v : Value N} (h : v.Fits fmt limit) :
    loads fmt limit (dumps fmt sep v) = .ok v := by
  have hscan := scanOnce_text sep limit v h [] stops_nil
  have hskip := skip_text sep h []
  rw [List.append_nil] at hscan hskip
  have hmark : (v.text fmt sep).head? ≠ some '\uFEFF' := by
    intro hhead
    exact absurd (h.ascii sep _ (List.mem_of_head? hhead)) (by decide)
  rw [loads, dumps, String.toList_ofList, if_neg hmark, hskip, hscan]
  rfl

/-! ## What is read is well formed -/

section Reading

variable {scan : Scanner E (Value N)} {P : Value N → Prop}

theorem except_map_eq_ok {α β : Type} {x : Except (Failure E) α} {f : α → β} {b : β}
    (h : x.map f = .ok b) : ∃ a, x = .ok a ∧ f a = b := by
  cases x with
  | error err => cases h
  | ok a => exact ⟨a, rfl, Except.ok.inj h⟩

theorem except_bind_eq_ok {α β : Type} {x : Except (Failure E) α}
    {f : α → Except (Failure E) β} {b : β} (h : x >>= f = .ok b) : ∃ a, x = .ok a ∧ f a =
    .ok b := by
  cases x with
  | error err => cases h
  | ok a => exact ⟨a, rfl, h⟩

/-- Every item an array is read with was read by `scan`. -/
theorem scanItems_all (hscan : ∀ cs v rest, scan cs = .ok (v, rest) → P v) {n : ℕ}
    {cs : List Char} {xs : List (Value N)} {rest : List Char}
    (h : scanItems scan n cs = .ok (xs, rest)) : ∀ x ∈ xs, P x := by
  induction n generalizing cs xs rest with
  | zero => cases h
  | succ n ih =>
      rw [scanItems] at h
      obtain ⟨⟨x, rest'⟩, hx, h⟩ := except_bind_eq_ok h
      dsimp only at h
      split at h
      · cases h
      · split_ifs at h with hcomma hclose
        · obtain ⟨⟨ys, rest''⟩, hys, heq⟩ := except_map_eq_ok h
          obtain ⟨rfl, rfl⟩ := Prod.mk.inj heq
          exact List.forall_mem_cons.mpr ⟨hscan _ _ _ hx, ih hys⟩
        · obtain ⟨rfl, rfl⟩ := Prod.mk.inj (Except.ok.inj h)
          exact List.forall_mem_singleton.mpr (hscan _ _ _ hx)

theorem scanPair_value (hscan : ∀ cs v rest, scan cs = .ok (v, rest) → P v) {cs : List Char}
    {kv : String × Value N} {rest : List Char} (h : scanPair scan cs = .ok (kv, rest)) :
    P kv.2 := by
  cases cs with
  | nil => cases h
  | cons q cs =>
      rw [scanPair] at h
      split_ifs at h with hquote
      obtain ⟨⟨k, rest'⟩, -, h⟩ := except_bind_eq_ok h
      dsimp only at h
      split at h
      · cases h
      · split_ifs at h with hcolon
        obtain ⟨⟨v, rest''⟩, hv, heq⟩ := except_map_eq_ok h
        obtain ⟨rfl, rfl⟩ := Prod.mk.inj heq
        exact hscan _ _ _ hv

theorem scanPairs_all (hscan : ∀ cs v rest, scan cs = .ok (v, rest) → P v) {n : ℕ}
    {cs : List Char} {kvs : List (String × Value N)} {rest : List Char}
    (h : scanPairs scan n cs = .ok (kvs, rest)) : ∀ kv ∈ kvs, P kv.2 := by
  induction n generalizing cs kvs rest with
  | zero => cases h
  | succ n ih =>
      rw [scanPairs] at h
      obtain ⟨⟨kv, rest'⟩, hkv, h⟩ := except_bind_eq_ok h
      dsimp only at h
      split at h
      · cases h
      · split_ifs at h with hcomma hclose
        · obtain ⟨⟨later, rest''⟩, hlater, heq⟩ := except_map_eq_ok h
          obtain ⟨rfl, rfl⟩ := Prod.mk.inj heq
          exact List.forall_mem_cons.mpr ⟨scanPair_value hscan hkv, ih hlater⟩
        · obtain ⟨rfl, rfl⟩ := Prod.mk.inj (Except.ok.inj h)
          exact List.forall_mem_singleton.mpr (scanPair_value hscan hkv)

theorem mem_rows_update {kvs : List (String × Value N)} {kv : String × Value N}
    (h : kv ∈ (Dict.update Table.empty kvs).rows) : kv ∈ kvs := by
  obtain ⟨k, v⟩ := kv
  have hget := Dict.get?_eq_some.mpr h
  rw [Dict.get?_update, Dict.get?_empty, Option.or_none, Option.map_eq_some_iff] at hget
  obtain ⟨⟨k', v'⟩, hlast, rfl⟩ := hget
  have hmem := List.mem_filter.mp (List.mem_of_getLast? hlast)
  obtain rfl : k' = k := by simpa using hmem.2
  exact hmem.1

/-- What is read at a depth fits it, given that every number that is read is
written so that it reads back. -/
theorem scanAny_fits {nested : Option (Scanner E (Value N))} {depth : ℕ}
    (hread : ∀ m n, fmt.read m = .ok n → fmt.Reads n)
    (hnested : ∀ scan, nested = some scan → ∃ d, depth = d + 1 ∧
      ∀ cs v rest, scan cs = .ok (v, rest) → v.Fits fmt d) {cs : List Char} {v : Value N}
    {rest : List Char} (h : scanAny fmt nested cs = .ok (v, rest)) : v.Fits fmt depth := by
  have hflat (w : Value N) (hw : w.Fits fmt 0) : w.Fits fmt depth := by
    cases w with
    | num n =>
        have hn : fmt.Reads n := hw
        cases depth <;> exact hn
    | null | bool | str => cases depth <;> trivial
    | arr xs => exact hw.elim
    | obj kvs => exact hw.elim
  cases cs with
  | nil => cases h
  | cons c cs =>
      rw [scanAny.eq_def] at h
      dsimp only at h
      split_ifs at h with hquote hbrace hbracket
      · obtain ⟨⟨s, rest'⟩, -, heq⟩ := except_map_eq_ok h
        obtain ⟨rfl, rfl⟩ := Prod.mk.inj heq
        exact hflat (.str s) trivial
      · cases nested with
        | none => cases h
        | some scan =>
            obtain ⟨d, rfl, hscan⟩ := hnested scan rfl
            dsimp only at h
            rw [scanObject] at h
            split at h
            · cases h
            · split_ifs at h with hclose
              · obtain ⟨rfl, rfl⟩ := Prod.mk.inj (Except.ok.inj h)
                exact ⟨List.nodup_nil, by simp⟩
              · obtain ⟨⟨kvs, rest'⟩, hkvs, heq⟩ := except_map_eq_ok h
                obtain ⟨rfl, rfl⟩ := Prod.mk.inj heq
                exact ⟨(Dict.update Table.empty kvs).nodup, fun kv hkv ↦
                  scanPairs_all hscan hkvs kv (mem_rows_update hkv)⟩
      · cases nested with
        | none => cases h
        | some scan =>
            obtain ⟨d, rfl, hscan⟩ := hnested scan rfl
            dsimp only at h
            rw [scanArray] at h
            split at h
            · cases h
            · split_ifs at h with hclose
              · obtain ⟨rfl, rfl⟩ := Prod.mk.inj (Except.ok.inj h)
                exact fun x hx ↦ absurd hx (by simp)
              · obtain ⟨⟨xs, rest'⟩, hxs, heq⟩ := except_map_eq_ok h
                obtain ⟨rfl, rfl⟩ := Prod.mk.inj heq
                exact scanItems_all hscan hxs
      · rw [scanScalar] at h
        split at h
        · obtain ⟨rfl, rfl⟩ := Prod.mk.inj (Except.ok.inj h)
          exact hflat .null trivial
        · obtain ⟨rfl, rfl⟩ := Prod.mk.inj (Except.ok.inj h)
          exact hflat (.bool true) trivial
        · obtain ⟨rfl, rfl⟩ := Prod.mk.inj (Except.ok.inj h)
          exact hflat (.bool false) trivial
        · split at h
          · split at h
            · next n hn =>
                obtain ⟨rfl, rfl⟩ := Prod.mk.inj (Except.ok.inj h)
                exact hflat (.num n) (hread _ _ hn)
            · cases h
          · cases h

theorem scanOnce_fits (hread : ∀ m n, fmt.read m = .ok n → fmt.Reads n) {depth : ℕ}
    {cs : List Char} {v : Value N} {rest : List Char}
    (h : scanOnce fmt depth cs = .ok (v, rest)) : v.Fits fmt depth := by
  induction depth generalizing cs v rest with
  | zero => exact scanAny_fits hread (by simp) h
  | succ depth ih =>
      refine scanAny_fits hread (fun scan hscan ↦ ⟨depth, rfl, fun cs v rest hv ↦ ?_⟩) h
      obtain rfl := Option.some.inj hscan
      exact ih hv

/-- What `json.loads` returns, `json.dumps` writes so that it reads back. -/
theorem loads_fits (hread : ∀ m n, fmt.read m = .ok n → fmt.Reads n) {limit : ℕ} {s : String}
    {v : Value N} (h : loads fmt limit s = .ok v) : v.Fits fmt limit := by
  rw [loads] at h
  split_ifs at h with hmark
  obtain ⟨⟨w, rest⟩, hw, h⟩ := except_bind_eq_ok h
  dsimp only at h
  split_ifs at h with hend
  obtain rfl : w = v := Except.ok.inj h
  exact scanOnce_fits hread hw

end Reading

end JsonText
