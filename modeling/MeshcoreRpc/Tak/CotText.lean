import MeshcoreRpc.Dates
import MeshcoreRpc.Lib.XmlRoundTrip
import MeshcoreRpc.Tak.Cot
import MeshcoreRpc.Transport.Wire

/-!
# The text of an event

`tak/cot.py` down to the bytes that are written, and what a reader of XML finds
in them.  `%Y` fills the year with zeros on some platforms only, so in how many
digits it is written at least is a parameter.
-/

namespace MeshcoreRpc.Tak

open XmlText

/-! ## Numbers and times -/

/-- `f"{f:.kf}"` -/
def fixedText (k : ℕ) : PyFloat → String
  | .nan => "nan"
  | .inf negative => if negative then "-inf" else "inf"
  | .fin q =>
    let digits := Decimal.fixed k (roundHalfEven (|q| * 10 ^ k)).toNat
    String.ofList (if q < 0 then '-' :: digits else digits)

/-- What `f"{f:.kf}"` leaves of a float, none for what is no number. -/
def rounded (k : ℕ) : PyFloat → Option ℚ
  | .fin q =>
    let size : ℚ := (roundHalfEven (|q| * 10 ^ k)).toNat / 10 ^ k
    some (if q < 0 then -size else size)
  | _ => none

/-- `_isoz` of a time in microseconds. -/
def isoz (yearWidth : ℕ) (us : ℤ) : String :=
  DateTime.secondsText yearWidth (us / 1000000) ++ "." ++
    DateTime.padded 3 (us % 1000000 / 1000) ++ "Z"

/-! ## The event -/

namespace Remark

def text : Remark → String
  | lastSeenAge s => "last_seen_age=" ++ toString s ++ "s"
  | battery percent => "battery=" ++ toString percent ++ "%"
  | rssi n => "rssi=" ++ toString n
  | snr f => "snr=" ++ fixedText 1 f

end Remark

/-- `"; ".join(remarks_parts)` -/
def remarksText (parts : List Remark) : String := String.intercalate "; " (parts.map Remark.text)

/-- An error or a height that is not known. -/
def unknown : String := "9999999.0"

def eventNode (yearWidth : ℕ) (uid cotType : String) (time stale : ℤ) (content : List Node) :
    Node :=
  .element "event"
    [("version", "2.0"), ("uid", uid), ("type", cotType), ("how", "m-g"),
      ("time", isoz yearWidth time), ("start", isoz yearWidth time),
      ("stale", isoz yearWidth stale)]
    content

def pointNode (lat lon : PyFloat) (altM accuracyM : Option PyFloat) : Node :=
  .element "point"
    [("lat", fixedText 7 lat), ("lon", fixedText 7 lon),
      ("hae", (altM.map (fixedText 1)).getD unknown),
      ("ce", (accuracyM.map (fixedText 1)).getD unknown), ("le", unknown)]
    []

/-- What the `detail` of a track holds. -/
def detailNodes (t : Track) : List Node :=
  (if t.callsign = "" then [] else [.element "contact" [("callsign", t.callsign)] []]) ++
  (if t.speedMps.isSome || t.courseDeg.isSome then
    [.element "track"
      (((t.speedMps.map fun f ↦ ("speed", fixedText 2 f)).toList) ++
        ((t.courseDeg.map fun f ↦ ("course", fixedText 1 f)).toList)) []]
  else []) ++
  (if t.remarks = [] then [] else [.element "remarks" [] [.text (remarksText t.remarks)]])

/-- The element that `build_cot` and `build_drop_cot` build. -/
def CotEvent.node (yearWidth : ℕ) : CotEvent → Node
  | track t =>
    eventNode yearWidth t.uid t.cotType t.time.us t.stale.us
      [pointNode t.lat t.lon t.altM t.accuracyM, .element "detail" [] (detailNodes t)]
  | drop uid cotType lat lon time =>
    eventNode yearWidth uid cotType time.us (time.us - 1000000)
      [pointNode lat lon none none, .element "detail" [] []]

/-- The bytes without the newline. -/
def CotEvent.line (yearWidth : ℕ) (cot : CotEvent) : List UInt8 :=
  Transport.encode (write (cot.node yearWidth))

/-- The byte that ends an event. -/
def newline : UInt8 := 10

/-! ## Reading an event -/

/-- The milliseconds since the epoch that a time denotes. -/
def readMillis (s : String) : Option ℤ := do
  let (seconds, cs) ← DateTime.scanSeconds s.toList
  let cs ← Decimal.expect '.' cs
  let (millis, cs) ← Decimal.scanDigits cs
  let cs ← Decimal.expect 'Z' cs
  if millis.2 = 3 ∧ cs = [] then some (seconds * 1000 + millis.1) else none

/-- What a TAK client knows of an entity: times in milliseconds, and no number where
none stands. -/
structure Report where
  uid : String
  cotType : String
  time : ℤ
  start : ℤ
  stale : ℤ
  lat : Option ℚ
  lon : Option ℚ
  hae : Option ℚ
  ce : Option ℚ
  callsign : Option String
  speed : Option ℚ
  course : Option ℚ
  remarks : Option String

def readNumber (s : String) : Option ℚ := Decimal.signed s.toList

def readReport (x : Node) : Option Report := do
  let uid ← x.get "uid"
  let cotType ← x.get "type"
  let time ← (x.get "time").bind readMillis
  let start ← (x.get "start").bind readMillis
  let stale ← (x.get "stale").bind readMillis
  let point ← x.find "point"
  let detail ← x.find "detail"
  let lat ← point.get "lat"
  let lon ← point.get "lon"
  let hae ← point.get "hae"
  let ce ← point.get "ce"
  let track := detail.find "track"
  return {
    uid, cotType, time, start, stale
    lat := readNumber lat, lon := readNumber lon, hae := readNumber hae, ce := readNumber ce
    callsign := (detail.find "contact").bind (Node.get "callsign")
    speed := (track.bind (Node.get "speed")).bind readNumber
    course := (track.bind (Node.get "course")).bind readNumber
    remarks := (detail.find "remarks").bind Node.inner }

/-- What is understood of a line. -/
def receive (line : List UInt8) : Option Report := do
  let text ← (Transport.decodeStrict line).toOption
  let x ← XmlText.read text
  readReport x

/-! ## What an event says -/

/-- A number that is unknown where there is none. -/
def orUnknown (k : ℕ) (f : Option PyFloat) : Option ℚ := (f.map (rounded k)).getD (some 9999999)

namespace CotEvent

def report : CotEvent → Report
  | track t =>
    { uid := t.uid, cotType := t.cotType, time := t.time.us / 1000, start := t.time.us / 1000
      stale := t.stale.us / 1000, lat := rounded 7 t.lat, lon := rounded 7 t.lon
      hae := orUnknown 1 t.altM, ce := orUnknown 1 t.accuracyM
      callsign := if t.callsign = "" then none else some t.callsign
      speed := t.speedMps.bind (rounded 2), course := t.courseDeg.bind (rounded 1)
      remarks := if t.remarks = [] then none else some (remarksText t.remarks) }
  | drop uid cotType lat lon time =>
    { uid, cotType, time := time.us / 1000, start := time.us / 1000
      stale := time.us / 1000 - 1000, lat := rounded 7 lat, lon := rounded 7 lon
      hae := some 9999999, ce := some 9999999, callsign := none, speed := none, course := none
      remarks := none }

/-- The position of an event. -/
def position : CotEvent → PyFloat × PyFloat
  | track t => (t.lat, t.lon)
  | drop _ _ lat lon _ => (lat, lon)

def start : CotEvent → DateTime
  | track t => t.time
  | drop _ _ _ _ time => time

/-- The texts of an event that the code does not compose itself. -/
def names : CotEvent → List String
  | track t => [t.uid, t.cotType, t.callsign]
  | drop uid cotType _ _ _ => [uid, cotType]

/-- Every character of an event may occur in a document. -/
def legal (cot : CotEvent) : Bool := cot.names.all fun s ↦ s.toList.all isChar

end CotEvent

/-- The number stands for the float, to half a unit of its last decimal. -/
def Near (k : ℕ) : PyFloat → Option ℚ → Prop
  | .fin q, x => ∃ y, x = some y ∧ |y - q| ≤ 1 / (2 * 10 ^ k)
  | _, x => x = none

/-- A report says who is where since when; the time is cut off at the millisecond. -/
structure CotEvent.Says (cot : CotEvent) (rep : Report) : Prop where
  uid : rep.uid = cot.uid
  lat : Near 7 cot.position.1 rep.lat
  lon : Near 7 cot.position.2 rep.lon
  time : rep.time = rep.start
  start : rep.start * 1000 ≤ cot.start.us ∧ cot.start.us < (rep.start + 1) * 1000
  dropped : cot.isDrop = true → rep.stale < rep.start

/-! ## Numbers and times read back -/

theorem roundHalfEven_near (q : ℚ) : |(roundHalfEven q : ℚ) - q| ≤ 1 / 2 := by
  have hle := Int.floor_le q
  have hlt := Int.lt_floor_add_one q
  unfold roundHalfEven Binary64.halfEven
  rw [abs_le]
  split_ifs <;> push_cast <;> constructor <;> linarith

theorem rounded_near (k : ℕ) (f : PyFloat) : Near k f (rounded k f) := by
  cases f with
  | nan => rfl
  | inf negative => rfl
  | fin q =>
      have hpow : (0 : ℚ) < 10 ^ k := by positivity
      set n := roundHalfEven (|q| * 10 ^ k) with hn
      have hnear := abs_le.mp (roundHalfEven_near (|q| * 10 ^ k))
      have hsize : 0 ≤ |q| * 10 ^ k := mul_nonneg (abs_nonneg q) hpow.le
      have hnonneg : 0 ≤ n := by
        by_contra hneg
        have hle : (n : ℚ) ≤ -1 := by exact_mod_cast (by omega : n ≤ -1)
        rw [← hn] at hnear
        linarith [hnear.1]
      have hcast : ((n.toNat : ℕ) : ℚ) = n := by exact_mod_cast Int.toNat_of_nonneg hnonneg
      have hclose : abs ((n : ℚ) / 10 ^ k - |q|) ≤ 1 / (2 * 10 ^ k) := by
        have hsplit : (n : ℚ) / 10 ^ k - |q| = (n - |q| * 10 ^ k) / 10 ^ k := by field_simp
        rw [hsplit, abs_div, abs_of_pos hpow, div_le_div_iff₀ hpow (by positivity)]
        have hhalf := roundHalfEven_near (|q| * 10 ^ k)
        rw [← hn] at hhalf
        nlinarith [hhalf, hpow]
      refine ⟨_, rfl, ?_⟩
      rw [← hn, hcast]
      split_ifs with hneg
      · rw [abs_of_neg hneg] at hclose
        rw [abs_sub_comm]
        have hturn : q - -((n : ℚ) / 10 ^ k) = (n : ℚ) / 10 ^ k - -q := by ring
        rw [hturn]
        exact hclose
      · rwa [abs_of_nonneg (not_lt.mp hneg)] at hclose

theorem CotEvent.says_report (cot : CotEvent) : cot.Says cot.report := by
  cases cot with
  | track t =>
      refine ⟨rfl, rounded_near 7 t.lat, rounded_near 7 t.lon, rfl, ?_, by simp [isDrop]⟩
      simp only [report, CotEvent.start]
      omega
  | drop uid cotType lat lon time =>
      refine ⟨rfl, rounded_near 7 lat, rounded_near 7 lon, rfl, ?_, fun _ ↦ ?_⟩
      · simp only [report, CotEvent.start]
        omega
      · simp only [report]
        omega

theorem readNumber_fixedText {k : ℕ} (hk : 0 < k) (f : PyFloat) :
    readNumber (fixedText k f) = rounded k f := by
  cases f with
  | nan =>
      have hword : readNumber "nan" = none := by decide
      exact hword
  | inf negative =>
      have hword : readNumber "inf" = none ∧ readNumber "-inf" = none := by decide
      cases negative with
      | false => exact hword.1
      | true => exact hword.2
  | fin q =>
      simp only [readNumber, fixedText, rounded, String.toList_ofList]
      split_ifs
      · exact Decimal.signed_minus hk _
      · exact Decimal.signed_fixed hk _

theorem readMillis_isoz (yearWidth : ℕ) (us : ℤ) (h : -62135683200000000 ≤ us) :
    readMillis (isoz yearWidth us) = some (us / 1000) := by
  have hseconds : -62135683200 ≤ us / 1000000 := by omega
  have hmillis : 0 ≤ us % 1000000 / 1000 := by omega
  have hfits : (us % 1000000 / 1000).toNat < 10 ^ 3 := by omega
  have hscan := DateTime.scanSeconds_append yearWidth hseconds
    ('.' :: (Decimal.padded 3 (us % 1000000 / 1000).toNat ++ ['Z']))
    (Scanning.stops_cons.mpr (by decide))
  have hdigits := Decimal.scanDigits_padded 3 (us % 1000000 / 1000).toNat ['Z']
    (Scanning.stops_cons.mpr (by decide))
  have htext : (isoz yearWidth us).toList = DateTime.secondsChars yearWidth (us / 1000000) ++
      '.' :: (Decimal.padded 3 (us % 1000000 / 1000).toNat ++ ['Z']) := by
    simp only [isoz, String.toList_append, DateTime.secondsText_toList yearWidth hseconds,
      DateTime.padded_toList hmillis, List.append_assoc]
    rfl
  simp [readMillis, htext, hscan, hdigits, Decimal.length_padded (by omega) hfits]
  omega

/-! ## Texts without surprises -/

/-- From the space to the tilde. -/
def Printable (s : String) : Prop := ∀ c ∈ s.toList, 0x20 ≤ c.toNat ∧ c.toNat < 0x7F

namespace Printable

theorem append {s t : String} (hs : Printable s) (ht : Printable t) : Printable (s ++ t) := by
  intro c hc
  rw [String.toList_append] at hc
  exact (List.mem_append.mp hc).elim (hs c) (ht c)

theorem of_digits {cs : List Char} (h : ∀ c ∈ cs, c.isDigit = true) :
    Printable (String.ofList cs) := by
  intro c hc
  rw [String.toList_ofList] at hc
  have hdigit := h c hc
  simp only [Char.isDigit, ge_iff_le, Bool.and_eq_true, decide_eq_true_eq] at hdigit
  have hlo : 48 ≤ c.toNat := hdigit.1
  have hhi : c.toNat ≤ 57 := hdigit.2
  omega

theorem legal {s : String} (h : Printable s) : s.toList.all isChar = true := by
  rw [List.all_eq_true]
  intro c hc
  obtain ⟨hlo, hhi⟩ := h c hc
  exact inRanges_iff.mpr ⟨(0x20, 0xD7FF), by simp, hlo, by simp only; omega⟩

theorem line {s : String} (h : Printable s) : ∀ c ∈ s.toList, c ≠ '\r' ∧ c ≠ '\n' := by
  intro c hc
  have hlo := (h c hc).1
  constructor
  · rintro rfl
    exact absurd hlo (by decide)
  · rintro rfl
    exact absurd hlo (by decide)

end Printable

theorem printable_toString (n : ℤ) : Printable (toString n) := by
  intro c hc
  have hdigits (k : ℕ) : Printable (String.ofList (Nat.toDigits 10 k)) :=
    .of_digits fun _ h ↦ Nat.isDigit_of_mem_toDigits (by omega) (by omega) h
  cases n with
  | ofNat k => exact hdigits k c (by rwa [← Nat.repr_eq_ofList_toDigits])
  | negSucc k =>
      have hminus : Printable "-" := by simp [Printable]
      exact (hminus.append (hdigits (k + 1))) c (by rwa [← Nat.repr_eq_ofList_toDigits])

theorem printable_fixedText (k : ℕ) (f : PyFloat) : Printable (fixedText k f) := by
  cases f with
  | nan => simp [Printable, fixedText]
  | inf negative => cases negative <;> simp [Printable, fixedText]
  | fin q =>
      have hfixed (n : ℕ) : Printable (String.ofList (Decimal.fixed k n)) := by
        have hdot : Printable "." := by simp [Printable]
        have htext : String.ofList (Decimal.fixed k n) =
            String.ofList (Decimal.padded 1 (n / 10 ^ k)) ++ "." ++
              String.ofList (Decimal.padded k (n % 10 ^ k)) := by
          apply String.toList_injective
          simp [Decimal.fixed]
        rw [htext]
        exact ((Printable.of_digits (Decimal.padded_digits _ _)).append hdot).append
          (.of_digits (Decimal.padded_digits _ _))
      simp only [fixedText]
      split_ifs
      · have hminus : Printable "-" := by simp [Printable]
        have htext (cs : List Char) : String.ofList ('-' :: cs) = "-" ++ String.ofList cs := by
          apply String.toList_injective
          simp
        rw [htext]
        exact hminus.append (hfixed _)
      · exact hfixed _

theorem printable_padded (width : ℕ) (n : ℤ) : Printable (DateTime.padded width n) := by
  intro c hc
  simp only [DateTime.padded, String.toList_ofList] at hc
  rcases List.mem_append.mp hc with hc | hc
  · obtain rfl := (List.mem_replicate.mp hc).2
    decide
  · exact printable_toString n c hc

theorem printable_secondsText (width : ℕ) (seconds : ℤ) :
    Printable (DateTime.secondsText width seconds) := by
  have hdash : Printable "-" := by simp [Printable]
  have htime : Printable "T" := by simp [Printable]
  have hcolon : Printable ":" := by simp [Printable]
  have hpadded := printable_padded
  unfold DateTime.secondsText
  generalize DateTime.civil (seconds / 86400) = date
  obtain ⟨year, month, day⟩ := date
  have hdate := ((((hpadded width year).append hdash).append (hpadded 2 month)).append
    hdash).append (hpadded 2 day)
  exact (((((hdate.append htime).append (hpadded 2 _)).append hcolon).append
    (hpadded 2 _)).append hcolon).append (hpadded 2 _)

theorem printable_isoz (yearWidth : ℕ) (us : ℤ) : Printable (isoz yearWidth us) := by
  have hdot : Printable "." := by simp [Printable]
  have hzulu : Printable "Z" := by simp [Printable]
  exact (((printable_secondsText _ _).append hdot).append (printable_padded 3 _)).append hzulu

theorem Remark.printable (part : Remark) : Printable part.text := by
  have hword (s : String) (h : s.toList.all fun c ↦ decide (0x20 ≤ c.toNat ∧ c.toNat < 0x7F)) :
      Printable s := fun c hc ↦ of_decide_eq_true (List.all_eq_true.mp h c hc)
  cases part with
  | lastSeenAge s =>
      exact ((hword _ (by decide)).append (printable_toString s)).append (hword _ (by decide))
  | battery percent =>
      exact ((hword _ (by decide)).append (printable_toString percent)).append
        (hword _ (by decide))
  | rssi n => exact (hword _ (by decide)).append (printable_toString n)
  | snr f => exact (hword _ (by decide)).append (printable_fixedText 1 f)

theorem Remark.text_ne_empty (part : Remark) : part.text ≠ "" := by
  cases part <;> simp [text]

theorem remarksText_printable (parts : List Remark) : Printable (remarksText parts) := by
  have hsep : Printable "; " := by simp [Printable]
  induction parts with
  | nil => simp [Printable, remarksText]
  | cons part parts ih =>
      cases parts with
      | nil =>
          simp only [remarksText, List.map_cons, List.map_nil, String.intercalate_singleton]
          exact part.printable
      | cons next parts =>
          simp only [remarksText, List.map_cons, String.intercalate_cons_cons] at ih ⊢
          exact (part.printable.append hsep).append ih

theorem remarksText_ne_empty {parts : List Remark} (h : parts ≠ []) : remarksText parts ≠ "" := by
  obtain ⟨part, parts, rfl⟩ := List.exists_cons_of_ne_nil h
  have hpart := part.text_ne_empty
  cases parts with
  | nil => simpa only [remarksText, List.map_cons, List.map_nil, String.intercalate_singleton]
  | cons next parts =>
      simp only [remarksText, List.map_cons, String.intercalate_cons_cons]
      simp [hpart]

/-! ## The element is written well -/

/-- An element whose content, if any, are elements. -/
theorem fits_element {depth : ℕ} {tag : String} {attrs : List (String × String)}
    {content : List Node} (htag : IsName tag) (hnames : ∀ k ∈ attrs.map Prod.fst, IsName k)
    (hkeys : (attrs.map Prod.fst).Nodup)
    (hcontent : ∀ x ∈ content, x.isElement = true ∧ x.Fits depth) :
    (Node.element tag attrs content).Fits (depth + 1) := by
  have hchain : content.IsChain fun x y ↦ x.isElement = true ∨ y.isElement = true := by
    induction content with
    | nil => exact .nil
    | cons x xs ih =>
        obtain ⟨hx, hxs⟩ := List.forall_mem_cons.mp hcontent
        cases xs with
        | nil => exact .singleton x
        | cons y ys => exact .cons_cons (.inl hx.1) (ih hxs)
  exact ⟨htag, fun kv hkv ↦ hnames kv.1 (List.mem_map_of_mem hkv), hkeys, hchain,
    fun x hx ↦ (hcontent x hx).2⟩

/-- The names of the elements and attributes of an event. -/
def words : List String :=
  ["event", "point", "detail", "contact", "track", "remarks", "version", "uid", "type", "how",
    "time", "start", "stale", "lat", "lon", "hae", "ce", "le", "callsign", "speed", "course"]

theorem isName_of_mem_words {s : String} (h : s ∈ words) : IsName s := by
  have hall : ∀ s ∈ words, s.toList ≠ [] ∧ s.toList.head?.all isNameStart = true ∧
      s.toList.all isNameChar = true := by decide
  obtain ⟨hne, hstart, hchars⟩ := hall s h
  obtain ⟨c, cs, hcs⟩ := List.exists_cons_of_ne_nil hne
  rw [hcs] at hstart hchars
  rw [List.all_cons, Bool.and_eq_true] at hchars
  exact ⟨c, cs, hcs, by simpa using hstart, List.all_eq_true.mp hchars.2⟩

theorem pointNode_fits (lat lon : PyFloat) (altM accuracyM : Option PyFloat) (depth : ℕ) :
    (pointNode lat lon altM accuracyM).Fits (depth + 1) := by
  refine fits_element (isName_of_mem_words (by simp [words])) (fun k hk ↦ ?_) (by simp) (by simp)
  refine isName_of_mem_words ?_
  simp only [List.map_cons, List.map_nil, List.mem_cons, List.not_mem_nil, or_false] at hk
  rcases hk with rfl | rfl | rfl | rfl | rfl <;> simp [words]

theorem detailNodes_fits (t : Track) (depth : ℕ) :
    ∀ x ∈ detailNodes t, x.isElement = true ∧ x.Fits (depth + 2) := by
  intro x hx
  rw [detailNodes, List.mem_append, List.mem_append] at hx
  rcases hx with (hx | hx) | hx
  · split_ifs at hx with hempty
    · simp at hx
    · obtain rfl := List.mem_singleton.mp hx
      refine ⟨rfl, fits_element (isName_of_mem_words (by simp [words])) (fun k hk ↦ ?_) (by simp)
        (by simp)⟩
      obtain rfl := List.mem_singleton.mp hk
      exact isName_of_mem_words (by simp [words])
  · split_ifs at hx with hnone
    · obtain rfl := List.mem_singleton.mp hx
      refine ⟨rfl, fits_element (isName_of_mem_words (by simp [words])) (fun k hk ↦ ?_) ?_
        (by simp)⟩
      · refine isName_of_mem_words ?_
        cases hspeed : t.speedMps <;> cases hcourse : t.courseDeg <;>
          simp_all [words]
      · cases t.speedMps <;> cases t.courseDeg <;> simp
    · simp at hx
  · split_ifs at hx with hempty
    · simp at hx
    · obtain rfl := List.mem_singleton.mp hx
      refine ⟨rfl, isName_of_mem_words (by simp [words]), by simp, by simp, .singleton _, ?_⟩
      intro y hy
      obtain rfl := List.mem_singleton.mp hy
      exact Node.fits_text.mpr ⟨remarksText_ne_empty hempty,
        fun c hc ↦ ((remarksText_printable t.remarks).line c hc).1⟩

theorem eventNode_fits (yearWidth : ℕ) (uid cotType : String) (time stale : ℤ) {content : List Node}
    {depth : ℕ} (hcontent : ∀ x ∈ content, x.isElement = true ∧ x.Fits depth) :
    (eventNode yearWidth uid cotType time stale content).Fits (depth + 1) := by
  refine fits_element (isName_of_mem_words (by simp [words])) (fun k hk ↦ ?_) (by simp) hcontent
  refine isName_of_mem_words ?_
  simp only [List.map_cons, List.map_nil, List.mem_cons, List.not_mem_nil, or_false] at hk
  rcases hk with rfl | rfl | rfl | rfl | rfl | rfl | rfl <;> simp [words]

theorem detail_fits {depth : ℕ} {content : List Node}
    (hcontent : ∀ x ∈ content, x.isElement = true ∧ x.Fits depth) :
    (Node.element "detail" [] content).Fits (depth + 1) :=
  fits_element (isName_of_mem_words (by simp [words])) (by simp) (by simp) hcontent

theorem contentLegal_append (xs ys : List Node) :
    Node.contentLegal (xs ++ ys) = (Node.contentLegal xs && Node.contentLegal ys) := by
  induction xs with
  | nil => rfl
  | cons x xs ih => simp only [List.cons_append, Node.contentLegal, ih, Bool.and_assoc]

theorem detailNodes_legal (t : Track) :
    Node.contentLegal (detailNodes t) = t.callsign.toList.all isChar := by
  have hfixed (k : ℕ) (f : PyFloat) := (printable_fixedText k f).legal
  have hremarks := (remarksText_printable t.remarks).legal
  rw [detailNodes, contentLegal_append, contentLegal_append]
  have hcontact : Node.contentLegal
      (if t.callsign = "" then [] else [.element "contact" [("callsign", t.callsign)] []]) =
      t.callsign.toList.all isChar := by
    split_ifs with hempty
    · rw [hempty]
      rfl
    · simp only [Node.contentLegal, Node.legal, List.all_cons, List.all_nil, Bool.and_true]
  have htrack : Node.contentLegal (if t.speedMps.isSome || t.courseDeg.isSome then
      [.element "track"
        (((t.speedMps.map fun f ↦ ("speed", fixedText 2 f)).toList) ++
          ((t.courseDeg.map fun f ↦ ("course", fixedText 1 f)).toList)) []]
      else []) = true := by
    split_ifs
    · cases t.speedMps <;> cases t.courseDeg <;> simp [Node.contentLegal, Node.legal, hfixed]
    · rfl
  have htext : Node.contentLegal (if t.remarks = [] then []
      else [.element "remarks" [] [.text (remarksText t.remarks)]]) = true := by
    split_ifs
    · rfl
    · simp only [Node.contentLegal, Node.legal, List.all_nil, hremarks, Bool.and_self]
  rw [hcontact, htrack, htext, Bool.and_true, Bool.and_true]

namespace CotEvent

variable (yearWidth : ℕ)

theorem fits (cot : CotEvent) : (cot.node yearWidth).Fits 4 := by
  cases cot with
  | track t =>
      refine eventNode_fits yearWidth _ _ _ _ fun x hx ↦ ?_
      simp only [List.mem_cons, List.not_mem_nil, or_false] at hx
      rcases hx with rfl | rfl
      · exact ⟨rfl, pointNode_fits _ _ _ _ 2⟩
      · exact ⟨rfl, detail_fits (detailNodes_fits t 0)⟩
  | drop uid cotType lat lon time =>
      refine eventNode_fits yearWidth _ _ _ _ fun x hx ↦ ?_
      simp only [List.mem_cons, List.not_mem_nil, or_false] at hx
      rcases hx with rfl | rfl
      · exact ⟨rfl, pointNode_fits _ _ _ _ 2⟩
      · exact ⟨rfl, detail_fits (by simp)⟩

/-- Only a remark is a text, and none ends a line. -/
theorem textChars_line (cot : CotEvent) : '\n' ∉ (cot.node yearWidth).textChars := by
  cases cot with
  | track t =>
      intro hmem
      have hprintable := (remarksText_printable t.remarks).line
      simp only [node, eventNode, pointNode, detailNodes, Node.textChars, Node.contentText] at hmem
      split_ifs at hmem <;>
        simp [Node.textChars, Node.contentText] at hmem <;>
        exact (hprintable _ hmem).2 rfl
  | drop uid cotType lat lon time =>
      simp [node, eventNode, pointNode, Node.textChars, Node.contentText]

theorem legal_node (cot : CotEvent) : (cot.node yearWidth).legal = cot.legal := by
  have hfixed (k : ℕ) (f : PyFloat) := (printable_fixedText k f).legal
  have hisoz (us : ℤ) := (printable_isoz yearWidth us).legal
  have hunknown : unknown.toList.all isChar = true := by decide
  have hversion : "2.0".toList.all isChar = true := by decide
  have hhow : "m-g".toList.all isChar = true := by decide
  have hoption (f : Option PyFloat) :
      ((f.map (fixedText 1)).getD unknown).toList.all isChar = true := by
    cases f with
    | none => exact hunknown
    | some f => exact hfixed 1 f
  cases cot with
  | track t =>
      simp only [node, eventNode, pointNode, Node.legal, Node.contentLegal, legal, names,
        List.all_cons, List.all_nil, hfixed, hisoz, hunknown, hversion, hhow, hoption,
        detailNodes_legal]
      simp [Bool.and_assoc]
  | drop uid cotType lat lon time =>
      simp only [node, eventNode, pointNode, Node.legal, Node.contentLegal, legal, names,
        List.all_cons, List.all_nil, hfixed, hisoz, hunknown, hversion, hhow, hoption]
      simp

/-! ## What is understood -/

theorem detail_contact (t : Track) :
    ((Node.element "detail" [] (detailNodes t)).find "contact").bind (Node.get "callsign") =
      if t.callsign = "" then none else some t.callsign := by
  by_cases hcallsign : t.callsign = "" <;> by_cases hremarks : t.remarks = [] <;>
    cases hspeed : t.speedMps <;> cases hcourse : t.courseDeg <;>
    simp [detailNodes, Node.find, Node.get, Node.hasTag, hcallsign, hremarks, hspeed, hcourse]

theorem detail_remarks (t : Track) :
    ((Node.element "detail" [] (detailNodes t)).find "remarks").bind Node.inner =
      if t.remarks = [] then none else some (remarksText t.remarks) := by
  by_cases hcallsign : t.callsign = "" <;> by_cases hremarks : t.remarks = [] <;>
    cases hspeed : t.speedMps <;> cases hcourse : t.courseDeg <;>
    simp [detailNodes, Node.find, Node.inner, Node.hasTag, hcallsign, hremarks, hspeed, hcourse]

theorem detail_track (t : Track) :
    ((Node.element "detail" [] (detailNodes t)).find "track").bind (Node.get "speed") =
        t.speedMps.map (fixedText 2) ∧
      ((Node.element "detail" [] (detailNodes t)).find "track").bind (Node.get "course") =
        t.courseDeg.map (fixedText 1) := by
  by_cases hcallsign : t.callsign = "" <;> by_cases hremarks : t.remarks = [] <;>
    cases hspeed : t.speedMps <;> cases hcourse : t.courseDeg <;>
    simp [detailNodes, Node.find, Node.get, Node.hasTag, List.lookup_cons, hcallsign, hremarks,
      hspeed, hcourse]

/-- The element says what the event says. -/
theorem readReport_node (cot : CotEvent) :
    readReport (cot.node yearWidth) = some cot.report := by
  have hnumber (k : ℕ) (hk : 0 < k) (f : PyFloat) := readNumber_fixedText hk f
  have hunknown : readNumber unknown = some 9999999 := by decide +kernel
  have hoption (f : Option PyFloat) :
      readNumber ((f.map (fixedText 1)).getD unknown) = orUnknown 1 f := by
    cases f with
    | none => exact hunknown
    | some f => exact hnumber 1 (by omega) f
  cases cot with
  | track t =>
      have htime := readMillis_isoz yearWidth t.time.us (by have := t.time.year_ge; omega)
      have hstale := readMillis_isoz yearWidth t.stale.us
        (by have := t.stale.year_ge; omega)
      have hpoint : (eventNode yearWidth t.uid t.cotType t.time.us t.stale.us
          [pointNode t.lat t.lon t.altM t.accuracyM, .element "detail" [] (detailNodes t)]).find
          "detail" = some (.element "detail" [] (detailNodes t)) := by
        simp [eventNode, pointNode, Node.find, Node.hasTag]
      obtain ⟨hspeed, hcourse⟩ := detail_track t
      have hbind (k : ℕ) (hk : 0 < k) (f : Option PyFloat) :
          (f.map (fixedText k)).bind readNumber = f.bind (rounded k) := by
        cases f with
        | none => rfl
        | some f => exact hnumber k hk f
      have hdetail : readReport ((track t).node yearWidth) = some
          { (track t).report with
            callsign :=
              ((Node.element "detail" [] (detailNodes t)).find "contact").bind (Node.get "callsign")
            speed :=
              (((Node.element "detail" [] (detailNodes t)).find "track").bind
                (Node.get "speed")).bind readNumber
            course :=
              (((Node.element "detail" [] (detailNodes t)).find "track").bind
                (Node.get "course")).bind readNumber
            remarks :=
              ((Node.element "detail" [] (detailNodes t)).find "remarks").bind Node.inner } := by
        rw [node, readReport, hpoint]
        simp [eventNode, pointNode, Node.get, Node.find, Node.hasTag, List.lookup_cons, htime,
          hstale, hnumber, hoption, report]
      rw [hdetail, detail_contact, detail_remarks, hspeed, hcourse, hbind 2 (by omega),
        hbind 1 (by omega)]
      rfl
  | drop uid cotType lat lon time =>
      have htime := readMillis_isoz yearWidth time.us (by have := time.year_ge; omega)
      have hstale := readMillis_isoz yearWidth (time.us - 1000000)
        (by have := time.year_ge; omega)
      have hearlier : (time.us - 1000000) / 1000 = time.us / 1000 - 1000 := by omega
      simp [readReport, node, eventNode, pointNode, Node.get, Node.find, Node.hasTag,
        List.lookup_cons, htime, hstale, hnumber, hunknown, report, hearlier]

/-- A line is understood as what its event says, unless a name in it has a character
that no document may have. -/
theorem receive_line (cot : CotEvent) :
    receive (cot.line yearWidth) = if cot.legal then some cot.report else none := by
  have hread := read_chars (cot.fits yearWidth) (by cases cot <;> rfl) [] (by simp)
  rw [List.append_nil, ← write, cot.legal_node yearWidth] at hread
  rw [receive, line, Transport.decodeStrict_encode]
  simp only [Except.toOption, Option.bind_eq_bind, Option.bind_some, hread]
  split_ifs
  · exact cot.readReport_node yearWidth
  · rfl

/-- No byte inside a line ends it. -/
theorem newline_not_mem_line (cot : CotEvent) : ∀ b ∈ cot.line yearWidth, b ≠ newline := by
  rintro b hb rfl
  have hchar := Transport.newline_of_mem_encode hb
  rw [write, String.toList_ofList] at hchar
  exact cot.textChars_line yearWidth ((cot.fits yearWidth).line hchar (.inr rfl)).2

end CotEvent

end MeshcoreRpc.Tak
