import MeshcoreRpc.Tak.Bridge

/-!
# Records that make an event

A record is merged from whatever the payloads held, and `_publish_one` converts
it field by field.  `Presentable` says which records go through; one that does
not stops the loop that publishes it.
-/

namespace MeshcoreRpc

open Tables

theorem exists_bind_ok {ε α β : Type} {x : Except ε α} {f : α → Except ε β} :
    (∃ b, x >>= f = .ok b) ↔ ∃ a, x = .ok a ∧ ∃ b, f a = .ok b := by
  cases x with
  | error err => simp [bind, Except.bind]
  | ok a => simp [bind, Except.bind]

/-- When what follows a bind ends well does not depend on the value bound. -/
theorem exists_bind_ok_const {ε α β : Type} {x : Except ε α} {f : α → Except ε β} {P : Prop}
    (hf : ∀ a, (∃ b, f a = .ok b) ↔ P) :
    (∃ b, x >>= f = .ok b) ↔ (∃ a, x = .ok a) ∧ P := by
  rw [exists_bind_ok]
  constructor
  · rintro ⟨a, ha, hb⟩
    exact ⟨⟨a, ha⟩, (hf a).mp hb⟩
  · rintro ⟨⟨a, ha⟩, hP⟩
    exact ⟨a, ha, (hf a).mpr hP⟩

namespace DateTime

/-- Microseconds since the epoch in the years 1 to 9999. -/
def InRange (us : ℤ) : Prop := -62135596800000000 ≤ us ∧ us < 253402300800000000

instance (us : ℤ) : Decidable (InRange us) := inferInstanceAs (Decidable (_ ∧ _))

/-- The microseconds a numeric timestamp stands for, `none` for one that is
infinite, NaN or beyond 64 bits. -/
def microseconds : PyVal → Option ℤ
  | .bool b => some (roundHalfEven ((if b then 1 else 0) * 1000000))
  | .int n => if |n| < 2 ^ 63 then some (roundHalfEven (n * 1000000)) else none
  | .float (.fin q) => if |q| < 2 ^ 63 then some (roundHalfEven (q * 1000000)) else none
  | _ => none

theorem ofMicroseconds_ok_iff {us : ℤ} {err : PyExc} {d : DateTime} :
    ofMicroseconds us err = .ok d ↔ InRange us ∧ d.us = us := by
  by_cases h : InRange us
  · have hpos : ofMicroseconds us err = .ok ⟨us, h.1, h.2⟩ := dif_pos h
    rw [hpos]
    constructor
    · intro heq
      cases heq
      exact ⟨h, rfl⟩
    · rintro ⟨_, rfl⟩
      rfl
  · have hneg : ofMicroseconds us err = .error err := dif_neg h
    rw [hneg]
    simp [h]

theorem ofSeconds_ok_iff {q : ℚ} {d : DateTime} :
    ofSeconds q = .ok d ↔ |q| < 2 ^ 63 ∧ InRange (roundHalfEven (q * 1000000)) ∧
      d.us = roundHalfEven (q * 1000000) := by
  by_cases h : 2 ^ 63 ≤ |q|
  · simp [ofSeconds, h]
  · rw [ofSeconds, if_neg h, ofMicroseconds_ok_iff]
    simp [not_le.mp h]

theorem fromTimestamp_ok_iff {v : PyVal} {d : DateTime} :
    fromTimestamp v = .ok d ↔ microseconds v = some d.us ∧ InRange d.us := by
  have hfin (q : ℚ) : ofSeconds q = .ok d ↔
      (if |q| < 2 ^ 63 then some (roundHalfEven (q * 1000000)) else none) = some d.us ∧
        InRange d.us := by
    rw [ofSeconds_ok_iff]
    by_cases h : |q| < 2 ^ 63
    · rw [if_pos h, Option.some.injEq]
      constructor
      · rintro ⟨_, hr, hus⟩
        exact ⟨hus.symm, hus ▸ hr⟩
      · rintro ⟨hus, hr⟩
        exact ⟨h, hus ▸ hr, hus.symm⟩
    · simp [h]
  cases v with
  | bool b =>
      have hsmall : |(if b then 1 else 0 : ℚ)| < 2 ^ 63 := by cases b <;> norm_num
      have := hfin (if b then 1 else 0)
      rw [if_pos hsmall] at this
      exact this
  | int n =>
      have := hfin n
      have hcast : |(n : ℚ)| < 2 ^ 63 ↔ |n| < 2 ^ 63 := by
        rw [← Int.cast_abs]
        exact_mod_cast Iff.rfl
      simpa only [fromTimestamp, microseconds, hcast] using this
  | float f =>
      cases f with
      | fin q => exact hfin q
      | nan => simp [fromTimestamp, microseconds]
      | inf negative => simp [fromTimestamp, microseconds]
  | none => simp [fromTimestamp, microseconds]
  | str s => simp [fromTimestamp, microseconds]
  | list xs => simp [fromTimestamp, microseconds]
  | dict kvs => simp [fromTimestamp, microseconds]

theorem addSeconds_ok_iff {d : DateTime} {s : ℤ} :
    (∃ d', d.addSeconds s = .ok d') ↔ InRange (d.us + s * 1000000) := by
  constructor
  · rintro ⟨d', h⟩
    exact (ofMicroseconds_ok_iff.mp h).1
  · intro h
    exact ⟨⟨_, h.1, h.2⟩, ofMicroseconds_ok_iff.mpr ⟨h, rfl⟩⟩

end DateTime

namespace Tak.Bridge

variable {cfg : TakBridgeConfig} {clock : Clock} {key : String} {record : PyDict}

/-! ## The conversions of one record -/

/-- The time of the event, and the time it gets stale, are dates. -/
def Datable (cfg : TakBridgeConfig) (clock : Clock) (record : PyDict) : Prop :=
  if (record.get "ts").isNumber then
    ∃ us, DateTime.microseconds (record.get "ts") = some us ∧ DateTime.InRange us ∧
      DateTime.InRange (us + cfg.staleAfterS * 1000000)
  else DateTime.InRange (clock.utc.us + cfg.staleAfterS * 1000000)

/-- The numbers among the remarks of a node can be converted. -/
def Remarkable (key : String) (record : PyDict) : Prop :=
  key = baseKey ∨
    (∀ field ∈ ["last_seen_age_s", "bat_pct", "rssi"],
      (record.get field).isNumber → (record.get field).intable = true) ∧
    ((record.get "snr").isNumber → (record.get "snr").floatable = true)

/-- Every number of the record that goes into the event can be converted. -/
structure Presentable (cfg : TakBridgeConfig) (clock : Clock) (key : String)
    (record : PyDict) : Prop where
  date : Datable cfg clock record
  remarks : Remarkable key record
  floats : ∀ field ∈ ["lat", "lon", "alt", "spd", "hdg", "acc"],
    (record.get field).isNumber → (record.get field).floatable = true

theorem remark_ok_iff {α : Type} {v : PyVal} {conv : PyVal → Except PyExc α} {make : α → Remark}
    {ok : Bool} (hconv : v.isNumber → ((∃ a, conv v = .ok a) ↔ ok = true)) :
    (∃ parts, remark v conv make = .ok parts) ↔ (v.isNumber → ok = true) := by
  by_cases h : v.isNumber = true
  · rw [← hconv h]
    cases hv : conv v <;> simp [remark, h, hv, Except.map]
  · simp [remark, h]

theorem remarksOf_ok_iff : (∃ parts, remarksOf key record = .ok parts) ↔ Remarkable key record := by
  by_cases hkey : key = baseKey
  · simp [remarksOf, Remarkable, hkey]
  · have hint (field : String) (make : ℤ → Remark) :
        (∃ parts, remark (record.get field) PyVal.numberToInt make = .ok parts) ↔
          ((record.get field).isNumber → (record.get field).intable = true) :=
      remark_ok_iff PyVal.numberToInt_ok_iff
    have hsnr : (∃ parts, remark (record.get "snr") PyVal.numberToFloat .snr = .ok parts) ↔
        ((record.get "snr").isNumber → (record.get "snr").floatable = true) :=
      remark_ok_iff PyVal.numberToFloat_ok_iff
    rw [remarksOf, if_neg hkey]
    rw [exists_bind_ok_const fun _ ↦ exists_bind_ok_const fun _ ↦ exists_bind_ok_const fun _ ↦
      exists_bind_ok_const fun _ ↦ iff_true_intro ⟨_, rfl⟩]
    rw [hint, hint, hint, hsnr]
    simp [Remarkable, hkey, and_assoc]

theorem timeOf_ok {time : DateTime} (h : timeOf clock record = .ok time) :
    (∃ d, time.addSeconds cfg.staleAfterS = .ok d) ↔ Datable cfg clock record := by
  rw [DateTime.addSeconds_ok_iff, Datable]
  by_cases hts : (record.get "ts").isNumber = true
  · rw [timeOf, if_pos hts, DateTime.fromTimestamp_ok_iff] at h
    rw [if_pos hts, h.1]
    simp [h.2]
  · rw [timeOf, if_neg hts] at h
    cases h
    rw [if_neg hts]

theorem exists_timeOf (h : Datable cfg clock record) : ∃ time, timeOf clock record = .ok time := by
  by_cases hts : (record.get "ts").isNumber = true
  · rw [Datable, if_pos hts] at h
    obtain ⟨us, hus, hr, _⟩ := h
    rw [timeOf, if_pos hts]
    exact ⟨⟨us, hr.1, hr.2⟩, DateTime.fromTimestamp_ok_iff.mpr ⟨hus, hr⟩⟩
  · rw [timeOf, if_neg hts]
    exact ⟨_, rfl⟩

/-- A record with a position makes an event exactly when all its numbers convert. -/
theorem cotOf_ok_iff (hpos : hasPosition record) :
    (∃ cot, cotOf cfg clock key record = .ok cot) ↔ Presentable cfg clock key record := by
  obtain ⟨hlat, hlon⟩ := Bool.and_eq_true_iff.mp hpos
  have hbuild (time : DateTime) (lat lon : PyFloat) (alt spd hdg acc : Option PyFloat)
      (remarks : List Remark) :
      (∃ cot, buildCot (uidOf key) (cotType cfg key) lat lon time cfg.staleAfterS
        (callsignOf cfg key) alt spd hdg acc remarks = .ok cot) ↔
        ∃ d, time.addSeconds cfg.staleAfterS = .ok d :=
    (exists_bind_ok_const fun _ ↦ iff_true_intro ⟨_, rfl⟩).trans (and_iff_left True.intro)
  simp only [cotOf, exists_bind_ok, hbuild]
  constructor
  · rintro ⟨time, htime, remarks, hremarks, lat, hlatF, lon, hlonF, alt, halt, spd, hspd, hdg, hhdg,
      acc, hacc, hstale⟩
    refine ⟨(timeOf_ok htime).mp hstale, remarksOf_ok_iff.mp ⟨remarks, hremarks⟩, ?_⟩
    simp only [List.forall_mem_cons, List.not_mem_nil, false_imp_iff, implies_true, and_true]
    exact ⟨fun _ ↦ (PyVal.numberToFloat_ok_iff hlat).mp ⟨lat, hlatF⟩,
      fun _ ↦ (PyVal.numberToFloat_ok_iff hlon).mp ⟨lon, hlonF⟩, optFloat_ok_iff.mp ⟨alt, halt⟩,
      optFloat_ok_iff.mp ⟨spd, hspd⟩, optFloat_ok_iff.mp ⟨hdg, hhdg⟩,
        optFloat_ok_iff.mp ⟨acc, hacc⟩⟩
  · rintro ⟨hdate, hremarks, hfloats⟩
    have hopt (field : String) (hfield : field ∈ ["lat", "lon", "alt", "spd", "hdg", "acc"]) :
        ∃ f, optFloat (record.get field) = .ok f := optFloat_ok_iff.mpr (hfloats field hfield)
    obtain ⟨time, htime⟩ := exists_timeOf hdate
    obtain ⟨remarks, hremarks⟩ := remarksOf_ok_iff.mpr hremarks
    obtain ⟨lat, hlatF⟩ := (PyVal.numberToFloat_ok_iff hlat).mpr (hfloats "lat" (by simp) hlat)
    obtain ⟨lon, hlonF⟩ := (PyVal.numberToFloat_ok_iff hlon).mpr (hfloats "lon" (by simp) hlon)
    obtain ⟨alt, halt⟩ := hopt "alt" (by simp)
    obtain ⟨spd, hspd⟩ := hopt "spd" (by simp)
    obtain ⟨hdg, hhdg⟩ := hopt "hdg" (by simp)
    obtain ⟨acc, hacc⟩ := hopt "acc" (by simp)
    exact ⟨time, htime, remarks, hremarks, lat, hlatF, lon, hlonF, alt, halt, spd, hspd, hdg, hhdg,
      acc, hacc, (timeOf_ok htime).mpr hdate⟩

/-! ## One publication, and one after the other -/

/-- Whatever position the key has, it makes an event. -/
def PresentableAt (cfg : TakBridgeConfig) (clock : Clock) (b : Bridge) (key : String) : Prop :=
  ∀ record, b.state.get? key = some record → hasPosition record → Presentable cfg clock key record

theorem publishOne_ok_iff {b : Bridge} :
    (∃ sent, publishOne cfg clock key b = .ok sent) ↔ PresentableAt cfg clock b key := by
  rw [publishOne, PresentableAt]
  cases hget : b.state.get? key with
  | none => simp
  | some record =>
      by_cases hpos : hasPosition record = true
      · have hcot : (∃ cot, cotOf cfg clock key record = .ok cot) ↔ _ := cotOf_ok_iff hpos
        simp only [hpos, if_true, Option.some.injEq, forall_eq', forall_const, ← hcot]
        cases cotOf cfg clock key record <;> simp [Except.map]
      · simp [hpos]

theorem publishKeys_ok_iff {b : Bridge} {keys : List String} :
    (publishKeys cfg clock b keys).2 = .ok () ↔ ∀ key ∈ keys, PresentableAt cfg clock b key := by
  induction keys with
  | nil => simp [publishKeys]
  | cons key rest ih =>
      rw [List.forall_mem_cons, ← publishOne_ok_iff, ← ih, publishKeys]
      cases publishOne cfg clock key b with
      | ok sent => simp
      | error err => simp

theorem publishKeys_sent {b : Bridge} {keys : List String}
    (h : (publishKeys cfg clock b keys).2 = .ok ()) {key : String} (hkey : key ∈ keys) :
    ∃ sent, publishOne cfg clock key b = .ok sent ∧ sent ⊆ (publishKeys cfg clock b keys).1 := by
  induction keys with
  | nil => cases hkey
  | cons first rest ih =>
      cases hfirst : publishOne cfg clock first b with
      | error err => simp [publishKeys, hfirst] at h
      | ok sent =>
          have hrest : (publishKeys cfg clock b rest).2 = .ok () := by
            simpa [publishKeys, hfirst] using h
          have hsplit : (publishKeys cfg clock b (first :: rest)).1 =
              sent ++ (publishKeys cfg clock b rest).1 := by simp [publishKeys, hfirst]
          rw [hsplit]
          rcases List.mem_cons.mp hkey with rfl | hkey
          · exact ⟨sent, hfirst, List.subset_append_left _ _⟩
          · obtain ⟨sent', hsent', hsub⟩ := ih hrest hkey
            exact ⟨sent', hsent', fun cot hcot ↦ List.mem_append_right _ (hsub hcot)⟩

/-! ## Sequences of messages -/

/-- A message that carries a JSON value. -/
structure JsonMessage where
  clock : Clock
  topic : String
  value : PyVal

def JsonMessage.handle (cfg : TakBridgeConfig) (m : JsonMessage) (b : Bridge) : Step :=
  handleMqttMessage cfg m.clock ⟨m.topic, .ok m.value⟩ b

/-- The bridge after a sequence of messages; what a message raises is logged, and
the maps stay as it left them. -/
def received (cfg : TakBridgeConfig) (msgs : List JsonMessage) : Bridge :=
  msgs.foldl (fun b m ↦ (m.handle cfg b).bridge) init

/-- No number of the record that the message goes into keeps it from being published. -/
def Digestible (cfg : TakBridgeConfig) (m : JsonMessage) (b : Bridge) : Prop :=
  ∀ kvs, m.value = .dict kvs →
    ∀ b', ingest m.clock.time m.topic (PyDict.ofPairs kvs) b = some b' →
      PresentableAt cfg m.clock b' (keyFor m.topic)

theorem handle_ok_iff {m : JsonMessage} {b : Bridge} :
    (m.handle cfg b).outcome = .ok () ↔ Digestible cfg m b := by
  rw [JsonMessage.handle, handleMqttMessage, Digestible]
  cases m.value with
  | dict kvs =>
      cases hin : ingest m.clock.time m.topic (PyDict.ofPairs kvs) b with
      | none => simp [hin]
      | some b' =>
          have hone : (∃ sent, publishOne cfg m.clock (keyFor m.topic) b' = .ok sent) ↔ _ :=
            publishOne_ok_iff
          simp only [PyVal.dict.injEq, forall_eq', hin, Option.some.injEq, ← hone]
          rw [publishChange]
          cases publishOne cfg m.clock (keyFor m.topic) b' <;> simp
  | none => simp
  | bool => simp
  | int => simp
  | float => simp
  | str => simp
  | list => simp

/-- The record alone has a usable position and time. -/
def Usable (record : PyDict) : Prop :=
  (record.get "lat").isNumber ∧ (record.get "lat").between (-90) 90 ∧
    (record.get "lon").isNumber ∧ (record.get "lon").between (-180) 180 ∧
    ∃ d, DateTime.fromTimestamp (record.get "ts") = .ok d

/-- Nothing the messages carried stops a message, a pass over the entities or the
event of a usable record. -/
structure Undisturbed (cfg : TakBridgeConfig) (msgs : List JsonMessage) (clock : Clock) : Prop where
  handled : ∀ pre m post, msgs = pre ++ m :: post →
    (m.handle cfg (received cfg pre)).outcome = .ok ()
  pass : (republishAll cfg clock (received cfg msgs)).outcome = .ok ()
  shown : ∀ key record, (received cfg msgs).state.get? key = some record → Usable record →
    ∃ cot ∈ (republishAll cfg clock (received cfg msgs)).sent, cotOf cfg clock key record = .ok cot

theorem undisturbed_iff (cfg : TakBridgeConfig) (msgs : List JsonMessage) (clock : Clock) :
    Undisturbed cfg msgs clock ↔
      (∀ pre m post, msgs = pre ++ m :: post → Digestible cfg m (received cfg pre)) ∧
        ∀ key, PresentableAt cfg clock (received cfg msgs) key := by
  have hpass : (republishAll cfg clock (received cfg msgs)).outcome = .ok () ↔
      ∀ key, PresentableAt cfg clock (received cfg msgs) key := by
    refine publishKeys_ok_iff.trans ⟨fun h key record hget ↦ ?_, fun h key _ ↦ h key⟩
    exact h key (Dict.mem_keys.mpr ⟨record, hget⟩) record hget
  constructor
  · intro h
    exact ⟨fun pre m post hmsgs ↦ handle_ok_iff.mp (h.handled pre m post hmsgs), hpass.mp h.pass⟩
  · rintro ⟨hhandled, hall⟩
    refine ⟨fun pre m post hmsgs ↦ handle_ok_iff.mpr (hhandled pre m post hmsgs), hpass.mpr hall,
      fun key record hget husable ↦ ?_⟩
    have hpos : hasPosition record = true := Bool.and_eq_true_iff.mpr ⟨husable.1, husable.2.2.1⟩
    obtain ⟨sent, hsent, hsub⟩ := publishKeys_sent (hpass.mpr hall)
      (Dict.mem_keys.mpr ⟨record, hget⟩)
    cases hcot : cotOf cfg clock key record with
    | ok cot =>
        simp only [publishOne, hget, hpos, hcot, if_true] at hsent
        cases hsent
        exact ⟨cot, hsub (List.mem_singleton_self cot), rfl⟩
    | error err =>
        simp only [publishOne, hget, hpos, hcot, if_true] at hsent
        cases hsent

/-- A location report with its timestamp in milliseconds. -/
def millisecondReport : JsonMessage where
  clock := .epoch
  topic := "mc/node/node-a/location"
  value := .dict [("lat", .int 1), ("lon", .int 2), ("ts", .int 1761500000000)]

theorem millisecond_report_raises :
    ¬ ∀ cfg msgs clock, Undisturbed cfg msgs clock := by
  intro h
  have hhandled := (h {} [millisecondReport] millisecondReport.clock).handled [] _ [] rfl
  have hraised : (millisecondReport.handle {} (received {} [])).outcome.isOk = false := by
    decide +kernel
  rw [hhandled] at hraised
  cases hraised

end Tak.Bridge

end MeshcoreRpc
