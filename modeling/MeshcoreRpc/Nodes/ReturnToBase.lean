import MeshcoreRpc.Nodes.Stops
import MeshcoreRpc.Transport.StaticBase

/-!
# The way back to the base

What `return_to_base` answers is a table over two fixes, the caller's and the
base's, each of them missing, too old or usable.
-/

namespace MeshcoreRpc

open Tables Coroutine Coro

variable {num : Numerals} {db db' : Db}

/-- A position as the handler finds it, with its age in whole seconds. -/
inductive Fix where
  | missing
  | old (ageS : ℤ)
  | usable (lat lon : PyVal) (ageS : ℤ)

/-- The whole seconds since `ts`; a time ahead of the clock is no age. -/
def wholeAge (now ts : ℚ) : ℤ := max 0 (truncate (now - ts))

/-- `float(v)` of a finite number. -/
def PyVal.asFloat (v : PyVal) : ℚ :=
  match v.numberToFloat with
  | .ok (.fin q) => q
  | _ => 0

def Fix.taken (lat lon ts : PyVal) (now : ℚ) : Fix :=
  let age := wholeAge now ts.asFloat
  if Handlers.returnToBaseMaxAgeS < age then .old age else .usable lat lon age

/-- The request carries a numeric `lat` and `lon`. -/
abbrev Handlers.Explicit (request : Request) : Prop :=
  (arg request "lat").isNumber = true ∧ (arg request "lon").isNumber = true

/-- Where the caller is: where it says, else where the store last saw it. -/
def callerFix (request : Request) (db : Db) (now : ℚ) : Fix :=
  if Handlers.Explicit request then
    .usable (.float (.fin (Handlers.arg request "lat").asFloat))
      (.float (.fin (Handlers.arg request "lon").asFloat)) 0
  else
    match db.nodeLocations.find? request.from_ with
    | none => .missing
    | some row => .taken row.lat.toPython row.lon.toPython row.ts.toPython now

def baseFix (db : Db) (now : ℚ) : Fix :=
  match db.baseState.find? "location" with
  | none => .missing
  | some row =>
    .taken (getKey row.valueJson "lat") (getKey row.valueJson "lon") (getKey row.valueJson "ts") now

def guidance (request : Request) (bearing dist : ℤ) (fromLat fromLon : PyVal) (fromAgeS : ℤ)
    (baseLat baseLon : PyVal) (baseAgeS : ℤ) : Response :=
  Response.ok request
    [("bearing", .int bearing), ("dist_m", .int dist),
      ("base", .dict [("lat", baseLat), ("lon", baseLon), ("age_s", .int baseAgeS)]),
      ("from", .dict [("lat", fromLat), ("lon", fromLon), ("age_s", .int fromAgeS)])]

/-- What the contract of the handler promises of the bearing. -/
def CompassDegrees (exact : ℚ) (bearing : ℤ) : Prop :=
  0 ≤ bearing ∧ bearing ≤ 359 ∧ bearing % 360 = roundHalfEven exact % 360

/-- The coordinates of the request, if it has any, are the same numbers as these. -/
def FromExplicit (request : Request) (fromLat fromLon : PyVal) : Prop :=
  Handlers.Explicit request →
    fromLat.number? = (Handlers.arg request "lat").number? ∧
      fromLon.number? = (Handlers.arg request "lon").number?

/-- The table: first the caller, then the base. -/
def Decision (geo : Geo) (request : Request) (o : Except PyExc Response) : Fix → Fix → Prop
  | .missing, _ => o = .error (Handlers.unavailable "Caller has no reported location")
  | .old _, _ => ∃ message, o = .error (Handlers.stale message)
  | .usable .., .missing => o = .error (Handlers.unavailable "Base has no fix")
  | .usable .., .old _ => ∃ message, o = .error (Handlers.stale message)
  | .usable fromLat fromLon fromAge, .usable baseLat baseLon baseAge =>
    (0 ≤ fromAge ∧ fromAge ≤ 600) ∧ (0 ≤ baseAge ∧ baseAge ≤ 600) ∧
      FromExplicit request fromLat fromLon ∧
      ∃ exact bearing dist,
        geo.initialBearingDeg fromLat fromLon baseLat baseLon = .ok (.fin exact) ∧
        CompassDegrees exact bearing ∧
        o = .ok (guidance request bearing dist fromLat fromLon fromAge baseLat baseLon baseAge)

/-- Explicit coordinates are finite, and so are the coordinates and timestamps in the
store. -/
structure FiniteFixes (request : Request) (db : Db) : Prop where
  explicit : Handlers.Explicit request →
    (Handlers.arg request "lat").IsFinite ∧ (Handlers.arg request "lon").IsFinite
  caller : ∀ row, db.nodeLocations.find? request.from_ = some row →
    row.lat.toPython.IsFinite ∧ row.lon.toPython.IsFinite ∧ row.ts.toPython.IsFinite
  base : ∀ row, db.baseState.find? "location" = some row → ∀ k ∈ ["lat", "lon", "ts"],
    ∃ v, row.valueJson.lookup k = some v ∧ v.IsFinite

/-! ## Clocks and answers -/

/-- What the clock showed, in the order it was read. -/
def clockReadings (tr : Trace) : List ℚ := tr.filterMap fun x ↦ x.1.clock? x.2

def firstClock (tr : Trace) : ℚ := (clockReadings tr).headD 0

def lastClock (tr : Trace) : ℚ := (clockReadings tr).getLastD 0

/-- The database under a handler that has it to itself. -/
abbrev servedAlone (num : Numerals) : Reaction Db Eff.Answer :=
  fun s x s' ↦ ∃ now, x.1.Serves num now x.2 s s'

/-- The exchange is answered as the database has it. -/
def AnsweredBy (num : Numerals) (db : Db) (x : Exchange Eff.Answer) : Prop :=
  servedAlone num db x db

theorem Eff.Serves.same {e : Eff} {r : e.Answer} {now : ℚ} (h : e.Serves num now r db db')
    (he : e.Reads) : db' = db := by
  cases e with
  | store c => exact (h.read he).1
  | time => exact h.2
  | getGatewaySnapshot | getRadio => exact h
  | _ => exact he.elim

theorem passes_answered {tr : Trace} (hreads : ∀ x ∈ tr, x.1.Reads)
    (h : Passes (servedAlone num) db tr db') : ∀ x ∈ tr, AnsweredBy num db x := by
  induction h with
  | nil s => simp
  | cons first rest ih =>
      obtain ⟨hx, hrest⟩ := List.forall_mem_cons.mp hreads
      obtain ⟨now, hserves⟩ := first
      obtain rfl := hserves.same hx
      exact List.forall_mem_cons.mpr ⟨⟨now, hserves⟩, ih hrest⟩

/-! ## Ages -/

namespace PyVal.IsFinite

variable {v : PyVal}

theorem numberToFloat (h : v.IsFinite) : v.numberToFloat = .ok (.fin v.asFloat) := by
  obtain ⟨hfloat, q, hq⟩ := h
  obtain ⟨t, ht, _⟩ := @toFloat_of_finite .plain _ _ hfloat hq
  have hread : v.numberToFloat = .ok (.fin t) := by
    rcases v with _ | b | n | f | s | xs | kvs
    · cases hq
    · exact ht
    · exact ht
    · exact ht
    · cases hq
    · cases hq
    · cases hq
  rw [PyVal.asFloat, hread]

/-- A float keeps the number just where it represents it. -/
theorem asFloat_iff (h : v.IsFinite) : some v.asFloat = v.number? ↔ v.Representable := by
  have hread := h.numberToFloat
  obtain ⟨hfloat, q, hq⟩ := h
  obtain ⟨t, ht, hexact⟩ := @toFloat_of_finite .plain _ _ hfloat hq
  have hsame : v.asFloat = t := by
    rcases v with _ | b | n | f | s | xs | kvs
    · cases hq
    · exact PyFloat.fin.inj (Except.ok.inj (hread.symm.trans ht))
    · exact PyFloat.fin.inj (Except.ok.inj (hread.symm.trans ht))
    · exact PyFloat.fin.inj (Except.ok.inj (hread.symm.trans ht))
    · cases hq
    · cases hq
    · cases hq
  rw [hsame, hq, ← hexact]
  exact Option.some_inj

theorem ageS (h : v.IsFinite) (now : ℚ) :
    MeshcoreRpc.ageS now v = .ok (wholeAge now v.asFloat) := by
  rw [MeshcoreRpc.ageS, PyVal.subFrom, h.numberToFloat]
  rfl

end PyVal.IsFinite

theorem Fix.taken_old {lat lon ts : PyVal} {now : ℚ}
    (h : ¬ wholeAge now ts.asFloat ≤ Handlers.returnToBaseMaxAgeS) :
    Fix.taken lat lon ts now = .old (wholeAge now ts.asFloat) := if_pos (not_le.mp h)

theorem Fix.taken_young {lat lon ts : PyVal} {now : ℚ}
    (h : wholeAge now ts.asFloat ≤ Handlers.returnToBaseMaxAgeS) :
    Fix.taken lat lon ts now = .usable lat lon (wholeAge now ts.asFloat) :=
  if_neg (not_lt.mpr h)

theorem wholeAge_nonneg (now ts : ℚ) : 0 ≤ wholeAge now ts := le_max_left ..

theorem Fix.taken_usable {lat lon ts lat' lon' : PyVal} {now : ℚ} {age : ℤ}
    (h : Fix.taken lat lon ts now = .usable lat' lon' age) :
    lat' = lat ∧ lon' = lon ∧ 0 ≤ age ∧ age ≤ 600 := by
  unfold Fix.taken at h
  simp only at h
  split at h
  · cases h
  · next hyoung =>
      obtain ⟨rfl, rfl, rfl⟩ := Fix.usable.inj h
      exact ⟨rfl, rfl, wholeAge_nonneg .., not_lt.mp hyoung⟩

/-! ## What the handler does -/

/-- What `callerPosition` makes of the caller's fix. -/
def Fix.position : Fix → Except PyExc (PyVal × PyVal × ℤ)
  | missing => .error (Handlers.unavailable "Caller has no reported location")
  | old age => .error (Handlers.stale ("Caller's last fix is " ++ toString age ++ "s old"))
  | usable lat lon age => .ok (lat, lon, age)

/-- What the handler makes of two usable fixes. -/
def guide (geo : Geo) (request : Request) (fromLat fromLon : PyVal) (fromAgeS : ℤ)
    (baseLat baseLon : PyVal) (baseAgeS : ℤ) : Except PyExc Response := do
  let bearing ← (geo.initialBearingDeg fromLat fromLon baseLat baseLon).mapError .other
  let dist ← (geo.haversineM fromLat fromLon baseLat baseLon).mapError .other
  let bearing ← bearing.roundToInt
  let dist ← dist.roundToInt
  return guidance request bearing dist fromLat fromLon fromAgeS baseLat baseLon baseAgeS

/-- What the handler answers on two fixes. -/
def answerFrom (geo : Geo) (request : Request) : Fix → Fix → Except PyExc Response
  | .missing, _ => .error (Handlers.unavailable "Caller has no reported location")
  | .old age, _ => .error (Handlers.stale ("Caller's last fix is " ++ toString age ++ "s old"))
  | .usable .., .missing => .error (Handlers.unavailable "Base has no fix")
  | .usable .., .old age =>
    .error (Handlers.stale ("Base's last fix is " ++ toString age ++ "s old"))
  | .usable fromLat fromLon fromAge, .usable baseLat baseLon baseAge =>
    guide geo request fromLat fromLon fromAge baseLat baseLon baseAge

theorem answerFrom_refused {geo : Geo} {request : Request} {caller base : Fix} {err : PyExc}
    (h : caller.position = .error err) : answerFrom geo request caller base = .error err := by
  rcases caller with _ | age | ⟨lat, lon, age⟩
  · obtain rfl := Except.error.inj h
    cases base <;> rfl
  · obtain rfl := Except.error.inj h
    cases base <;> rfl
  · cases h

theorem Fix.position_ok {caller : Fix} {lat lon : PyVal} {age : ℤ}
    (h : caller.position = .ok (lat, lon, age)) : caller = .usable lat lon age := by
  rcases caller with _ | age' | ⟨lat', lon', age'⟩
  · cases h
  · cases h
  · cases h
    rfl

theorem lastClock_append_time (tr : Trace) (t : ℚ) : lastClock (tr ++ [⟨.time, t⟩]) = t := by
  simp [lastClock, clockReadings, List.filterMap_append, Eff.clock?]

section Handler

variable {geo : Geo} {request : Request}

theorem wp_read_bind {α : Type} {c : StoreCall} {f : c.Answer → Prog α} {a : c.Answer}
    {Q : Trace → Except PyExc α → Prop} (hreads : c.reads = true)
    (hexec : ∀ now, (c.exec num now db).map Prod.snd = .ok a)
    (h : (f a).wp fun tr o ↦ (∀ x ∈ tr, AnsweredBy num db x) → Q (⟨.store c, .ok a⟩ :: tr) o) :
    (Prog.store c >>= f).wp fun tr o ↦ (∀ x ∈ tr, AnsweredBy num db x) → Q tr o := by
  rw [wp_iff] at h ⊢
  intro tr o hsteps hanswered
  obtain ⟨r, rest, rfl, hrest⟩ : ∃ r rest, tr = (⟨.store c, r⟩ : Exchange Eff.Answer) :: rest ∧
      Steps (Coro.ofOutcome r >>= f) rest (Coro.ofOutcome o) := by
    rcases tr with _ | ⟨x, rest⟩
    · have hout := congrArg Coro.outcome? (Steps.nil_iff.mp hsteps)
      rw [outcome?_ofOutcome] at hout
      cases hout
    · obtain ⟨r, rfl, hrest⟩ := Steps.await_cons_iff.mp hsteps
      exact ⟨r, rest, rfl, hrest⟩
  obtain ⟨hfirst, hlater⟩ := List.forall_mem_cons.mp hanswered
  obtain ⟨now, hserves⟩ := hfirst
  obtain rfl : r = .ok a := (hserves.read hreads).2.trans (hexec now)
  exact h rest o hrest hlater

theorem wp_ok_bind {α β : Type} {a : α} {f : α → Prog β} {Q : Trace → Except PyExc β → Prop} :
    (Coro.ofOutcome (.ok a) >>= f).wp Q ↔ (f a).wp Q := Iff.rfl

theorem callerPosition_fix (num : Numerals) (hfinite : FiniteFixes request db) :
    (Handlers.callerPosition request).wp fun tr o ↦ (∀ x ∈ tr, AnsweredBy num db x) →
      ∀ later, o = (callerFix request db (firstClock (tr ++ later))).position := by
  by_cases hexplicit : Handlers.Explicit request
  · obtain ⟨hlat, hlon⟩ := hfinite.explicit hexplicit
    rw [Handlers.callerPosition, if_pos hexplicit]
    simp only [hlat.numberToFloat, hlon.numberToFloat, wp_bind, wp_ofOutcome, wp_pure]
    intro _ later
    rw [callerFix, if_pos hexplicit]
    rfl
  · rw [Handlers.callerPosition, if_neg hexplicit]
    refine wp_read_bind rfl
      (fun now ↦ (map_snd_mk _ _).trans (Db.syncGetNodeLocation_str request.from_)) ?_
    rcases hrow : db.nodeLocations.find? request.from_ with _ | row
    · intro _ later
      rw [callerFix, if_neg hexplicit, hrow]
      rfl
    · obtain ⟨_, _, hts⟩ := hfinite.caller row hrow
      have hfix (t : ℚ) : callerFix request db t =
          .taken row.lat.toPython row.lon.toPython row.ts.toPython t := by
        rw [callerFix, if_neg hexplicit, hrow]
      refine wp_time_bind.mpr fun t ↦ ?_
      change (Coro.ofOutcome (ageS t row.ts.toPython) >>= _).wp _
      rw [hts.ageS]
      refine wp_ok_bind.mpr (wp_require_bind.mpr ⟨fun hyoung _ later ↦ ?_, fun hold _ later ↦ ?_⟩)
      · rw [hfix]
        exact (congrArg Fix.position (Fix.taken_young hyoung)).symm
      · rw [hfix]
        exact (congrArg Fix.position (Fix.taken_old hold)).symm

theorem callerFix_usable {now : ℚ} {lat lon : PyVal} {age : ℤ}
    (h : callerFix request db now = .usable lat lon age) :
    (0 ≤ age ∧ age ≤ 600) ∧ (Handlers.Explicit request →
      lat = .float (.fin (Handlers.arg request "lat").asFloat) ∧
        lon = .float (.fin (Handlers.arg request "lon").asFloat)) := by
  unfold callerFix at h
  split at h
  · obtain ⟨rfl, rfl, rfl⟩ := Fix.usable.inj h
    exact ⟨⟨by omega, by omega⟩, fun _ ↦ ⟨rfl, rfl⟩⟩
  · next hexplicit =>
      split at h
      · cases h
      · obtain ⟨_, _, hage⟩ := Fix.taken_usable h
        exact ⟨hage, fun hyes ↦ absurd hyes hexplicit⟩

theorem item_of_lookup {d : List (String × PyVal)} {k : String} {v : PyVal}
    (h : d.lookup k = some v) : item d k = .ok v ∧ getKey d k = v := by
  rw [item, getKey, h]
  exact ⟨rfl, rfl⟩

theorem returnToBase_guides {fromLat fromLon lat lon : PyVal} {fromAgeS baseAgeS : ℤ} :
    (do
      let bearing ← .ofOutcome ((geo.initialBearingDeg fromLat fromLon lat lon).mapError .other)
      let dist ← .ofOutcome ((geo.haversineM fromLat fromLon lat lon).mapError .other)
      let bearing ← .ofOutcome bearing.roundToInt
      let dist ← .ofOutcome dist.roundToInt
      return guidance request bearing dist fromLat fromLon fromAgeS lat lon baseAgeS :
        Prog Response) =
      .ofOutcome (guide geo request fromLat fromLon fromAgeS lat lon baseAgeS) := by
  rw [guide]
  cases geo.initialBearingDeg fromLat fromLon lat lon with
  | error err => rfl
  | ok bearing =>
      cases geo.haversineM fromLat fromLon lat lon with
      | error err => rfl
      | ok dist =>
          change (Coro.ofOutcome bearing.roundToInt >>= fun b ↦
            Coro.ofOutcome dist.roundToInt >>= _) = Coro.ofOutcome (bearing.roundToInt >>= fun b ↦
              dist.roundToInt >>= _)
          cases bearing.roundToInt with
          | error err => rfl
          | ok b =>
              cases dist.roundToInt with
              | error err => rfl
              | ok d => rfl

/-- The handler decides by the fixes at the times it read the clock. -/
theorem returnToBase_fixes (num : Numerals) (geo : Geo) (hfinite : FiniteFixes request db) :
    (Handlers.returnToBase geo request).wp fun tr o ↦ (∀ x ∈ tr, AnsweredBy num db x) →
      o = answerFrom geo request (callerFix request db (firstClock tr))
        (baseFix db (lastClock tr)) := by
  rw [Handlers.returnToBase, wp_bind]
  refine wp_mono (callerPosition_fix num hfinite) ?_
  rintro tr o hcaller
  rcases o with err | ⟨fromLat, fromLon, fromAge⟩
  · intro hanswered
    have hfix := hcaller hanswered []
    rw [List.append_nil] at hfix
    exact (answerFrom_refused hfix.symm).symm
  · by_cases htr : ∀ x ∈ tr, AnsweredBy num db x
    · have hfix (later : Trace) := Fix.position_ok (hcaller htr later).symm
      refine wp_mono (Q := fun tr' o' ↦ (∀ x ∈ tr', AnsweredBy num db x) →
        o' = answerFrom geo request (.usable fromLat fromLon fromAge)
          (baseFix db (lastClock (tr ++ tr')))) ?_ ?_
      · refine wp_read_bind rfl (fun now ↦ rfl) ?_
        rw [Db.syncGetBaseState]
        rcases hrow : db.baseState.find? "location" with _ | row
        · intro _
          rw [baseFix, hrow]
          rfl
        · obtain ⟨lat, hlat, _⟩ := hfinite.base row hrow "lat" (by simp)
          obtain ⟨lon, hlon, _⟩ := hfinite.base row hrow "lon" (by simp)
          obtain ⟨ts, hts, htsFinite⟩ := hfinite.base row hrow "ts" (by simp)
          have hbase (t : ℚ) : baseFix db t = .taken lat lon ts t := by
            rw [baseFix, hrow]
            simp only [(item_of_lookup hlat).2, (item_of_lookup hlon).2, (item_of_lookup hts).2]
          refine wp_time_bind.mpr fun t ↦ ?_
          have hclock (read : Exchange Eff.Answer) : lastClock (tr ++ [read, ⟨.time, t⟩]) = t := by
            rw [← List.singleton_append, ← List.append_assoc, lastClock_append_time]
          simp only [(item_of_lookup hts).1]
          refine wp_ok_bind.mpr ?_
          rw [htsFinite.ageS]
          refine wp_ok_bind.mpr (wp_require_bind.mpr ⟨fun hyoung ↦ ?_, fun hold _ ↦ ?_⟩)
          · simp only [(item_of_lookup hlat).1, (item_of_lookup hlon).1]
            refine wp_ok_bind.mpr (wp_ok_bind.mpr ?_)
            refine Eq.mp (congrArg (fun x ↦ Coro.wp x _) returnToBase_guides.symm) ?_
            refine wp_ofOutcome.mpr fun _ ↦ ?_
            rw [hclock, hbase, Fix.taken_young hyoung]
            rfl
          · rw [hclock, hbase, Fix.taken_old hold]
            rfl
      · intro tr' o' h hanswered
        rw [hfix]
        exact h fun x hx ↦ hanswered x (List.mem_append_right _ hx)
    · refine wp_iff.mpr fun tr' o' _ hanswered ↦ absurd (fun x hx ↦ ?_) htr
      exact hanswered x (List.mem_append_left _ hx)

/-! ## The wrap-around of the compass -/

/-- The last half degree before north rounds to 360. -/
theorem roundHalfEven_le_359 {q : ℚ} : roundHalfEven q ≤ 359 ↔ q < 719 / 2 := by
  have hle := Int.floor_le q
  have hlt := Int.lt_floor_add_one q
  constructor
  · intro h
    by_contra hnot
    have hfloor : 359 ≤ ⌊q⌋ := Int.le_floor.mpr (by push_cast; linarith)
    unfold roundHalfEven Binary64.halfEven at h
    split at h
    · next hsmall =>
        have heq : ⌊q⌋ = 359 := by omega
        rw [heq] at hsmall
        push_cast at hsmall
        linarith
    · split at h
      · omega
      · split at h <;> omega
  · intro h
    have hfloor : ⌊q⌋ < 360 := Int.floor_lt.mpr (by push_cast; linarith)
    by_cases heq : ⌊q⌋ = 359
    · have hsmall : q - ⌊q⌋ < 1 / 2 := by
        rw [heq]
        push_cast
        linarith
      rw [roundHalfEven, Binary64.halfEven, if_pos hsmall]
      omega
    · unfold roundHalfEven Binary64.halfEven
      split
      · omega
      · split
        · omega
        · split <;> omega

theorem baseFix_age {now : ℚ} {lat lon : PyVal} {age : ℤ}
    (h : baseFix db now = .usable lat lon age) : 0 ≤ age ∧ age ≤ 600 := by
  unfold baseFix at h
  split at h
  · cases h
  · exact (Fix.taken_usable h).2.2

/-- If both fixes are usable, a float represents the coordinates of the request, the
haversine stays in its domain, and the bearing is below 359.5 degrees. -/
def Guidable (libm : Libm) (request : Request) : Fix → Fix → Prop
  | .usable fromLat fromLon _, .usable baseLat baseLon _ =>
    (Handlers.Explicit request → (Handlers.arg request "lat").Representable ∧
      (Handlers.arg request "lon").Representable) ∧
    libm.Measures fromLat fromLon baseLat baseLon ∧
    ∃ deg, libm.initialBearingDeg fromLat fromLon baseLat baseLon = .ok (.fin deg) ∧ deg < 719 / 2
  | _, _ => True

theorem mapError_ok_iff {ε ε' α : Type} {f : ε → ε'} {x : Except ε α} {a : α} :
    x.mapError f = .ok a ↔ x = .ok a := by
  cases x with
  | error err => simp [Except.mapError]
  | ok a' => simp [Except.mapError]

theorem roundToInt_ok {f : PyFloat} {n : ℤ} (h : f.roundToInt = .ok n) :
    ∃ q, f = .fin q ∧ n = roundHalfEven q := by
  cases f with
  | fin q => exact ⟨q, rfl, (Except.ok.inj h).symm⟩
  | nan => cases h
  | inf negative => cases h

/-- Two usable fixes are answered just where they have a bearing and a distance. -/
theorem guide_ok_iff {libm : Libm} {fromLat fromLon baseLat baseLon : PyVal}
    {fromAge baseAge : ℤ} {response : Response} :
    guide libm.geo request fromLat fromLon fromAge baseLat baseLon baseAge = .ok response ↔
      ∃ deg dist, libm.initialBearingDeg fromLat fromLon baseLat baseLon = .ok (.fin deg) ∧
        libm.haversineM fromLat fromLon baseLat baseLon = .ok (.fin dist) ∧
        response = guidance request (roundHalfEven deg) (roundHalfEven dist) fromLat fromLon
          fromAge baseLat baseLon baseAge := by
  constructor
  · intro h
    obtain ⟨bearing, hbearing, h⟩ := except_bind_ok h
    obtain ⟨dist, hdist, h⟩ := except_bind_ok h
    obtain ⟨b, hb, h⟩ := except_bind_ok h
    obtain ⟨d, hd, h⟩ := except_bind_ok h
    obtain ⟨deg, rfl, rfl⟩ := roundToInt_ok hb
    obtain ⟨m, rfl, rfl⟩ := roundToInt_ok hd
    refine ⟨deg, m, ?_, ?_, (Except.ok.inj h).symm⟩
    · exact mapError_ok_iff.mp (mapError_ok_iff.mp hbearing)
    · exact mapError_ok_iff.mp (mapError_ok_iff.mp hdist)
  · rintro ⟨deg, dist, hbearing, hdist, rfl⟩
    have hbearing : libm.geo.initialBearingDeg fromLat fromLon baseLat baseLon = _ :=
      mapError_ok_iff.mpr hbearing
    have hdist : libm.geo.haversineM fromLat fromLon baseLat baseLon = _ :=
      mapError_ok_iff.mpr hdist
    rw [guide, hbearing, hdist]
    rfl

theorem fromExplicit_iff {lat lon : PyVal} (hfinite : FiniteFixes request db)
    (h : Handlers.Explicit request → lat = .float (.fin (Handlers.arg request "lat").asFloat) ∧
      lon = .float (.fin (Handlers.arg request "lon").asFloat)) :
    FromExplicit request lat lon ↔ (Handlers.Explicit request →
      (Handlers.arg request "lat").Representable ∧
        (Handlers.arg request "lon").Representable) := by
  refine forall_congr' fun hexplicit ↦ ?_
  obtain ⟨rfl, rfl⟩ := h hexplicit
  obtain ⟨hlat, hlon⟩ := hfinite.explicit hexplicit
  exact and_congr hlat.asFloat_iff hlon.asFloat_iff

/-- `return_to_base` follows its table of decisions, with a bearing on the compass,
exactly when it refuses, or the two places have a rounded distance and the base lies
below the last half degree. -/
theorem returnToBase_decides_iff (libm : Libm) {tr : Trace} {o : Except PyExc Response}
    (hfinite : FiniteFixes request db)
    (hsteps : Steps (Handlers.returnToBase libm.geo request) tr (ofOutcome o))
    (hpasses : Passes (servedAlone num) db tr db') :
    Decision libm.geo request o (callerFix request db (firstClock tr))
        (baseFix db (lastClock tr)) ↔
      Guidable libm request (callerFix request db (firstClock tr))
        (baseFix db (lastClock tr)) := by
  have hreads := ((Handlers.reads_returnToBase libm.geo request).steps hsteps).1
  have ho := wp_iff.mp (returnToBase_fixes num libm.geo hfinite) tr o hsteps
    (passes_answered hreads hpasses)
  rcases hcaller : callerFix request db (firstClock tr) with _ | age | ⟨fromLat, fromLon, fromAge⟩
  · rw [hcaller] at ho
    exact iff_of_true ho trivial
  · rw [hcaller] at ho
    exact iff_of_true ⟨_, ho⟩ trivial
  rcases hbase : baseFix db (lastClock tr) with _ | age | ⟨baseLat, baseLon, baseAge⟩
  · rw [hcaller, hbase] at ho
    exact iff_of_true ho trivial
  · rw [hcaller, hbase] at ho
    exact iff_of_true ⟨_, ho⟩ trivial
  rw [hcaller, hbase, answerFrom] at ho
  obtain ⟨hfromAge, hgiven⟩ := callerFix_usable hcaller
  rw [Decision, Guidable, fromExplicit_iff hfinite hgiven]
  constructor
  · rintro ⟨_, _, hexplicit, exact, bearing, dist, hexact, ⟨_, hle, _⟩, hanswer⟩
    obtain ⟨deg, dist', hdeg, hdist, hbody⟩ := guide_ok_iff.mp (ho.symm.trans hanswer)
    refine ⟨hexplicit, Libm.haversineM_iff.mp ⟨dist', hdist⟩, deg, hdeg, ?_⟩
    obtain ⟨rfl, _⟩ : bearing = roundHalfEven deg ∧ dist = roundHalfEven dist' := by
      simpa [guidance, Response.ok] using congrArg Response.body hbody
    exact roundHalfEven_le_359.mp hle
  · rintro ⟨hexplicit, hmeasures, deg, hdeg, hbelow⟩
    obtain ⟨dist, hdist⟩ := Libm.haversineM_iff.mpr hmeasures
    have hheading : CompassDegrees deg (roundHalfEven deg) :=
      ⟨Binary64.halfEven_nonneg (Libm.initialBearingDeg_nonneg hdeg),
        roundHalfEven_le_359.mpr hbelow, rfl⟩
    refine ⟨hfromAge, baseFix_age hbase, hexplicit, deg, roundHalfEven deg, roundHalfEven dist,
      mapError_ok_iff.mpr hdeg, hheading, ?_⟩
    rw [ho]
    exact guide_ok_iff.mpr ⟨deg, dist, hdeg, hdist, rfl⟩

end Handler

/-! ## Two bearings -/

def baseAt (lon : ℚ) : Db :=
  (Eff.respond .plain 0 (fun _ ↦ none) (.store (.upsertBaseState "location"
    (StateAggregator.baseBody { lat := .fin 1, lon := .fin lon, ts := .fin 0 } "gpsd")))
    Db.empty).2

theorem length_returnToBase : FieldLength "return_to_base" := by decide

/-- The caller is where the equator meets the prime meridian. -/
def askedFromOrigin : Request :=
  { Request.simple "r1" "return_to_base" "node-a" length_r1 length_returnToBase length_nodeA with
    args := [("lat", .float (.fin 0)), ("lon", .float (.fin 0))] }

theorem finite_baseAt (lon : ℚ) : FiniteFixes askedFromOrigin (baseAt lon) where
  explicit _ := ⟨⟨rfl, 0, rfl⟩, ⟨rfl, 0, rfl⟩⟩
  caller row hrow := by cases hrow
  base row hrow := by
    have hfinite (q : ℚ) : (PyVal.float (.fin q)).IsFinite := ⟨rfl, q, rfl⟩
    obtain rfl := Option.some.inj hrow
    simp only [List.forall_mem_cons, List.not_mem_nil, false_implies, implies_true, and_true]
    exact ⟨⟨_, rfl, hfinite 1⟩, ⟨_, rfl, hfinite lon⟩, ⟨_, rfl, hfinite 0⟩⟩

/-- The values of a function at some places; 0 elsewhere. -/
def tabulated (table : List (ℚ × ℚ)) (x : ℚ) : ℚ := (table.lookup x).getD 0

theorem tabulated_le {table : List (ℚ × ℚ)} {b : ℚ} (hb : 0 ≤ b)
    (h : ∀ row ∈ table, |row.2| ≤ b) (x : ℚ) : |tabulated table x| ≤ b := by
  unfold tabulated
  induction table with
  | nil => simpa using hb
  | cons row rest ih =>
      obtain ⟨hrow, hrest⟩ := List.forall_mem_cons.mp h
      rw [List.lookup_cons]
      split
      · exact hrow
      · exact ih hrest

/-- What the C library gives where the requests below call it. -/
def sampledLibm : Libm where
  sin := tabulated
    [(5030569068109113 / 288230376151711744, 2515156836085391 / 144115188075855872),
    (5030569068109113 / 576460752303423488, 5030505218395169 / 576460752303423488),
    (-5030569068109113 / 73786976294838206464, -5030569064212021 / 73786976294838206464),
    (-5030569068109113 / 147573952589676412928, -628821133391855 / 18446744073709551616),
    (-884279719003555 / 281474976710656, -4967757600021511 / 40564819207303340847894502572032),
    (6288211335136391 / 4503599627370496, 8870359658994711 / 9007199254740992),
    (7860264168920489 / 4503599627370496, 8870359658994711 / 9007199254740992),
    (-6288211335136391 / 36028797018963968, -6256334945874825 / 36028797018963968),
    (-884279719003555 / 562949953421312, -1)]
  cos := tabulated
    [(5030569068109113 / 288230376151711744, 4502913707333573 / 4503599627370496),
    (0, 1),
    (-5030569068109113 / 73786976294838206464, 4503599616903921 / 4503599627370496),
    (6288211335136391 / 4503599627370496, 1564083736468707 / 9007199254740992),
    (7860264168920489 / 4503599627370496, -782041868234353 / 4503599627370496),
    (-884279719003555 / 281474976710656, -1)]
  asin := tabulated
    [(5030505218395169 / 576460752303423488, 5030569068109113 / 576460752303423488),
    (5030543593086499 / 576460752303423488, 1257651861065425 / 144115188075855872)]
  sqrt := tabulated
    [(2809528471237169 / 36893488147419103232, 5030505218395169 / 576460752303423488),
    (5619142671596495 / 73786976294838206464, 5030543593086499 / 576460752303423488)]
  square := tabulated
    [(5030505218395169 / 576460752303423488, 2809528471237169 / 36893488147419103232),
    (-628821133391855 / 18446744073709551616, 5619199581022615 / 4835703278458516698824704),
    (-6256334945874825 / 36028797018963968, 8691209297800773 / 288230376151711744),
    (-1, 1)]
  atan2 y x :=
    if y = .fin (-5029802884177433 / 73786976294838206464) ∧
        x = .fin (2515156836085391 / 144115188075855872) then
      -9006238847313879 / 2305843009213693952
    else if y = .fin (-6901136434678233 / 324518553658426726783156020576256) ∧
        x = .fin (3 / 36028797018963968) then
      -4504469404953101 / 18014398509481984
    else 0
  asin_le := tabulated_le (by norm_num) (by
    simp only [List.forall_mem_cons, List.not_mem_nil, false_implies, implies_true, and_true]
    constructor <;> norm_num [abs_le])

/-- On opposite sides of the pole the rounded haversine is negative. -/
example : sampledLibm.haversineM (.float (.fin 100)) (.float (.fin 180)) (.float (.fin 80))
    (.float (.fin 0)) = .error .valueError := by decide +kernel

example : sampledLibm.initialBearingDeg (.float (.fin 100)) (.float (.fin 180))
    (.float (.fin 80)) (.float (.fin 0)) = .ok (.fin (3040574403107371 / 8796093022208)) := by
  decide +kernel

def returnTrace (lon : ℚ) : Trace :=
  (Handlers.returnToBase sampledLibm.geo askedFromOrigin).exchanges
    (fun e db ↦ e.respond .plain 0 (fun _ ↦ none) db) (baseAt lon)

def returnOutcome (lon : ℚ) : Except PyExc Response × Db :=
  (Handlers.returnToBase sampledLibm.geo askedFromOrigin).eval
    (fun e db ↦ e.respond .plain 0 (fun _ ↦ none) db) (baseAt lon)

theorem returnTrace_passes (lon : ℚ) :
    Passes (servedAlone .plain) (baseAt lon) (returnTrace lon) (returnOutcome lon).2 :=
  passes_exchanges (fun e s _ ↦ ⟨0, respond_serves .plain 0 e s⟩) meets_always

theorem callerFix_origin (db : Db) (now : ℚ) :
    callerFix askedFromOrigin db now = .usable (.float (.fin 0)) (.float (.fin 0)) 0 := rfl

theorem baseFix_baseAt (lon : ℚ) :
    baseFix (baseAt lon) 0 = .usable (.float (.fin 1)) (.float (.fin lon)) 0 := by
  have hage : wholeAge 0 (PyVal.float (.fin 0)).asFloat = 0 := by decide +kernel
  have hyoung : Fix.taken (.float (.fin 1)) (.float (.fin lon)) (.float (.fin 0)) 0 = _ :=
    Fix.taken_young (by rw [hage]; decide)
  rw [hage] at hyoung
  exact hyoung

/-- Straight north is a bearing of 0. -/
theorem guides_due_north : Decision sampledLibm.geo askedFromOrigin (returnOutcome 0).1
    (callerFix askedFromOrigin (baseAt 0) (firstClock (returnTrace 0)))
    (baseFix (baseAt 0) (lastClock (returnTrace 0))) := by
  refine (returnToBase_decides_iff sampledLibm (finite_baseAt 0) (steps_exchanges _ _)
    (returnTrace_passes 0)).mpr ?_
  have hclock : lastClock (returnTrace 0) = 0 := by decide +kernel
  change Guidable sampledLibm _ (callerFix _ _ (firstClock (returnTrace 0)))
    (baseFix _ (lastClock (returnTrace 0)))
  rw [callerFix_origin, hclock, baseFix_baseAt]
  have hexplicit (q : ℚ) : (PyVal.float (.fin q)).Representable :=
    PyVal.representable_of_ne (by simp)
  have hsquare : sampledLibm.haversine (.float (.fin 0)) (.float (.fin 0)) (.float (.fin 1))
      (.float (.fin 0)) = .ok (.fin (2809528471237169 / 36893488147419103232)) := by
    decide +kernel
  have hbearing : sampledLibm.initialBearingDeg (.float (.fin 0)) (.float (.fin 0))
      (.float (.fin 1)) (.float (.fin 0)) = .ok (.fin 0) := by
    decide +kernel
  refine ⟨fun _ ↦ ⟨hexplicit 0, hexplicit 0⟩, ⟨_, hsquare, ?_, ?_⟩, 0, hbearing, ?_⟩
  · norm_num
  · decide +kernel
  · norm_num

def bearingOf (o : Except PyExc Response) : Option ℤ :=
  match o with
  | .ok response =>
    match getKey (response.body.getD []) "bearing" with
    | .int n => some n
    | _ => none
  | .error _ => none

/-- A base a little west of north has the bearing 360. -/
theorem guides_off_compass : ¬ Decision sampledLibm.geo askedFromOrigin
    (returnOutcome (-1 / 256)).1
    (callerFix askedFromOrigin (baseAt (-1 / 256)) (firstClock (returnTrace (-1 / 256))))
    (baseFix (baseAt (-1 / 256)) (lastClock (returnTrace (-1 / 256)))) := by
  have hclock : lastClock (returnTrace (-1 / 256)) = 0 := by decide +kernel
  have hbearing : bearingOf (returnOutcome (-1 / 256)).1 = some 360 := by
    decide +kernel
  rw [callerFix_origin, hclock, baseFix_baseAt]
  rintro ⟨_, _, _, deg, bearing, dist, _, ⟨_, hle, _⟩, ho⟩
  rw [ho] at hbearing
  have hnorth : bearing = 360 := Option.some.inj hbearing
  omega

end MeshcoreRpc
