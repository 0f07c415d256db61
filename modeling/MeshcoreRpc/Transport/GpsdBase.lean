import MeshcoreRpc.Lib.Exclusive
import MeshcoreRpc.Transport.Gpsd
import MeshcoreRpc.Transport.Service

/-!
# The base from GPSD

`_init_gpsd_base`: its `on_fix` remembers the last fix it has written and
published.  A fix that is near it and comes soon after it is suppressed.
-/

namespace MeshcoreRpc

open Tables Coroutine Coro Interleaving

/-- `abs(f - g)` -/
def PyFloat.gap : PyFloat → PyFloat → PyFloat
  | nan, _ => nan
  | _, nan => nan
  | inf negative, inf negative' => if negative = negative' then nan else inf false
  | inf _, fin _ => inf false
  | fin _, inf _ => inf false
  | fin p, fin q => fin |p - q|

namespace Gpsd

/-- In degrees. -/
def moveThreshold : ℚ := 45 / 1000000

/-- What `on_fix` closes over. -/
structure Memory where
  lastPublish : ℚ := 0
  lastPos : Option (PyFloat × PyFloat) := none

def Memory.moved (memory : Memory) (fix : GpsdFix) : Bool :=
  match memory.lastPos with
  | none => true
  | some (lat, lon) =>
    (PyFloat.fin moveThreshold).below (fix.lat.gap lat) ||
      (PyFloat.fin moveThreshold).below (fix.lon.gap lon)

def GpsdFix.location (fix : GpsdFix) : LocationFix where
  lat := fix.lat
  lon := fix.lon
  ts := .fin fix.ts
  alt := fix.alt
  acc := fix.acc
  fix := fix.fix
  spd := fix.spd
  hdg := fix.hdg

/-- `on_fix`, which ends with what it remembers from now on. -/
def onFix (publishIntervalS : ℚ) (memory : Memory) (fix : GpsdFix) : Prog Memory := do
  let now ← Prog.time
  if !memory.moved fix && !decide (publishIntervalS ≤ now - memory.lastPublish) then
    return memory
  StateAggregator.applyBaseLocation fix.location "gpsd"
  return ⟨now, some (fix.lat, fix.lon)⟩

/-- `on_fix` for one fix after the other; what it raises is logged, and leaves its
memory as it was. -/
def reportFixes (publishIntervalS : ℚ) : Memory → List GpsdFix → Prog Memory
  | memory, [] => pure memory
  | memory, fix :: rest => do
    match ← (onFix publishIntervalS memory fix).attempt with
    | .ok memory => reportFixes publishIntervalS memory rest
    | .error _ => reportFixes publishIntervalS memory rest

/-! ## One call -/

/-- The fix is suppressed: near what is remembered, and soon after it. -/
def Memory.suppresses (publishIntervalS : ℚ) (memory : Memory) (now : ℚ) (fix : GpsdFix) : Bool :=
  !memory.moved fix && !decide (publishIntervalS ≤ now - memory.lastPublish)

abbrev gpsdBody (fix : GpsdFix) : List (String × PyVal) :=
  StateAggregator.baseBody fix.location "gpsd"

/-- The ways a call can go. -/
inductive Goes (publishIntervalS : ℚ) (memory : Memory) (fix : GpsdFix) :
    Trace → Except PyExc Memory → Prop
  | suppressed (t : ℚ) (still : memory.suppresses publishIntervalS t fix = true) :
    Goes publishIntervalS memory fix [⟨.time, t⟩] (.ok memory)
  | unwritten (t : ℚ) (err : PyExc) (due : memory.suppresses publishIntervalS t fix = false) :
    Goes publishIntervalS memory fix
      [⟨.time, t⟩, ⟨.store (.upsertBaseState "location" (gpsdBody fix)), Except.error err⟩]
      (.error err)
  | unpublished (t : ℚ) (err : PyExc) (due : memory.suppresses publishIntervalS t fix = false) :
    Goes publishIntervalS memory fix
      [⟨.time, t⟩, ⟨.store (.upsertBaseState "location" (gpsdBody fix)), Except.ok ()⟩,
        ⟨.publish Topics.baseLocation (compactJson (gpsdBody fix)) true, Except.error err⟩]
      (.error err)
  | published (t : ℚ) (due : memory.suppresses publishIntervalS t fix = false) :
    Goes publishIntervalS memory fix
      [⟨.time, t⟩, ⟨.store (.upsertBaseState "location" (gpsdBody fix)), Except.ok ()⟩,
        ⟨.publish Topics.baseLocation (compactJson (gpsdBody fix)) true, Except.ok ()⟩]
      (.ok ⟨t, some (fix.lat, fix.lon)⟩)

theorem onFix_goes (publishIntervalS : ℚ) (memory : Memory) (fix : GpsdFix) :
    (onFix publishIntervalS memory fix).wp (Goes publishIntervalS memory fix) := by
  rw [onFix, wp_bind, Prog.wp_time]
  intro t
  dsimp only
  split
  · next hstill => exact .suppressed t hstill
  · next hdue =>
      have hdue : memory.suppresses publishIntervalS t fix = false :=
        Bool.eq_false_of_not_eq_true hdue
      simp only [StateAggregator.applyBaseLocation, wp_bind, Prog.store, wp_await, wp_ofOutcome,
        Prog.wp_publish]
      intro stored
      rcases stored with err | _
      · exact .unwritten t err hdue
      · intro sent
        rcases sent with err | _
        · exact .unpublished t err hdue
        · exact .published t hdue

theorem still_of_suppresses {publishIntervalS now : ℚ} {memory : Memory} {fix : GpsdFix}
    (h : memory.suppresses publishIntervalS now fix = true) : memory.moved fix = false := by
  obtain ⟨hmoved, _⟩ := Bool.and_eq_true_iff.mp h
  simpa using hmoved

/-! ## The database beside other tasks -/

/-- The database between two exchanges is whatever the others make of it; none of them
writes the base. -/
abbrev beside (num : Numerals) : Reaction Db Eff.Answer :=
  fun db x db' ↦ ∃ now m, m.baseState = db.baseState ∧ x.1.Transition num now x.2 m db'

def baseWritten : (e : Eff) → e.Answer → Bool
  | .store (.upsertBaseState ..), .ok _ => true
  | _, _ => false

def wroteBase (tr : Trace) : Bool := tr.any fun x ↦ baseWritten x.1 x.2

variable {num : Numerals} {db db' : Db} {fix : GpsdFix} {memory : Memory} {tr : Trace}
  {o : Except PyExc Memory} {publishIntervalS : ℚ}

theorem base_kept_unless {e : Eff} {r : e.Answer} (h : beside num db ⟨e, r⟩ db')
    (hwrote : baseWritten e r = false) (houter : e.outer = true) :
    db'.baseState = db.baseState := by
  obtain ⟨now, m, hm, hstep⟩ := h
  rw [← hm]
  cases e with
  | store c =>
      cases r with
      | error err => exact congrArg Db.baseState hstep
      | ok a =>
          cases c with
          | upsertBaseState => cases hwrote
          | _ => exact StoreCall.exec_base rfl hstep
  | time => exact congrArg Db.baseState hstep.2
  | underTtl => cases houter
  | afterTtl => cases houter
  | _ => exact congrArg Db.baseState hstep

/-- The base is stored as this fix. -/
def StoredAs (db : Db) (fix : GpsdFix) : Prop :=
  ∃ row, db.baseState.find? "location" = some row ∧ row.valueJson = gpsdBody fix

theorem StoredAs.of_eq (h : StoredAs db fix) (heq : db'.baseState = db.baseState) :
    StoredAs db' fix := by
  obtain ⟨row, hrow, hbody⟩ := h
  exact ⟨row, by rw [heq, hrow], hbody⟩

theorem storedAs_of_write {a : Unit}
    (h : beside num db ⟨.store (.upsertBaseState "location" (gpsdBody fix)), .ok a⟩ db') :
    StoredAs db' fix := by
  obtain ⟨now, m, _, hstep⟩ := h
  exact ⟨_, StoreCall.exec_upsertBaseState hstep, rfl⟩

/-- A call either leaves the stored base alone or stores its fix. -/
theorem Goes.stores (h : Goes publishIntervalS memory fix tr o)
    (hpasses : Passes (beside num) db tr db') :
    if wroteBase tr then StoredAs db' fix else db'.baseState = db.baseState := by
  cases h with
  | suppressed t still =>
      obtain _ | ⟨hclock, ⟨⟩⟩ := hpasses
      exact base_kept_unless hclock rfl rfl
  | unwritten t err due =>
      obtain _ | ⟨hclock, _ | ⟨hstore, ⟨⟩⟩⟩ := hpasses
      exact (base_kept_unless hstore rfl rfl).trans (base_kept_unless hclock rfl rfl)
  | unpublished t err due =>
      obtain _ | ⟨hclock, _ | ⟨hstore, _ | ⟨hsend, ⟨⟩⟩⟩⟩ := hpasses
      exact (storedAs_of_write hstore).of_eq (base_kept_unless hsend rfl rfl)
  | published t due =>
      obtain _ | ⟨hclock, _ | ⟨hstore, _ | ⟨hsend, ⟨⟩⟩⟩⟩ := hpasses
      exact (storedAs_of_write hstore).of_eq (base_kept_unless hsend rfl rfl)

/-! ## Calls one after the other -/

structure CallRecord where
  /-- What `on_fix` remembers when it is called. -/
  memory : Memory
  fix : GpsdFix
  trace : Trace
  outcome : Except PyExc Memory
  /-- The database when the call has ended. -/
  after : Db

/-- What the clock says at the start. -/
def startTime : Trace → ℚ
  | ⟨.time, t⟩ :: _ => t
  | _ => 0

def publishRefused : (e : Eff) → e.Answer → Bool
  | .publish .., .error _ => true
  | _, _ => false

namespace CallRecord

abbrev wrote (r : CallRecord) : Bool := wroteBase r.trace

/-- A publish of the call has failed. -/
def publishFailed (r : CallRecord) : Bool := r.trace.any fun x ↦ publishRefused x.1 x.2

def Returned (r : CallRecord) : Prop := ∃ memory, r.outcome = .ok memory

abbrev Suppressed (publishIntervalS : ℚ) (r : CallRecord) : Prop :=
  r.memory.suppresses publishIntervalS (startTime r.trace) r.fix = true

end CallRecord

/-- The calls of `on_fix` from its first, each from the memory and the database the last
has left. -/
inductive Stream (num : Numerals) (publishIntervalS : ℚ) (db₀ : Db) :
    List CallRecord → Memory → Db → Prop
  | start : Stream num publishIntervalS db₀ [] {} db₀
  | call {records : List CallRecord} {memory : Memory} {db db' : Db} {fix : GpsdFix} {tr : Trace}
      {o : Except PyExc Memory} (before : Stream num publishIntervalS db₀ records memory db)
      (steps : Steps (onFix publishIntervalS memory fix) tr (ofOutcome o))
      (passes : Passes (beside num) db tr db') :
      Stream num publishIntervalS db₀ (records ++ [⟨memory, fix, tr, o, db'⟩])
        (o.toOption.getD memory) db'

/-- The last call that has written the database. -/
def lastWritten (records : List CallRecord) : Option CallRecord :=
  (records.filter CallRecord.wrote).getLast?

theorem lastWritten_snoc (records : List CallRecord) (r : CallRecord) :
    lastWritten (records ++ [r]) = if r.wrote then some r else lastWritten records := by
  unfold lastWritten
  by_cases hwrote : r.wrote = true
  · simp [List.filter_append, hwrote]
  · simp [List.filter_append, hwrote]

theorem lastWritten_mem {records : List CallRecord} {w : CallRecord}
    (h : lastWritten records = some w) : w ∈ records ∧ w.wrote = true :=
  List.mem_filter.mp (List.mem_of_getLast? h)

/-- The database holds what was written last, and the memory too if that was also
published. -/
structure Kept (records : List CallRecord) (memory : Memory) (db : Db) : Prop where
  stored : ∀ w, lastWritten records = some w → StoredAs db w.fix
  remembered : ∀ pos, memory.lastPos = some pos →
    ∃ w, lastWritten records = some w ∧ (w.publishFailed = false → pos = (w.fix.lat, w.fix.lon))

variable {db₀ : Db} {records : List CallRecord}

theorem Kept.start : Kept [] {} db where
  stored w hw := by simp [lastWritten] at hw
  remembered pos hpos := by simp at hpos

theorem Kept.call (h : Kept records memory db) (hgoes : Goes publishIntervalS memory fix tr o)
    (hpasses : Passes (beside num) db tr db') :
    Kept (records ++ [⟨memory, fix, tr, o, db'⟩]) (o.toOption.getD memory) db' := by
  have hstores := hgoes.stores hpasses
  have hsnoc := lastWritten_snoc records ⟨memory, fix, tr, o, db'⟩
  by_cases hwrote : wroteBase tr = true
  · rw [if_pos hwrote] at hsnoc
    rw [if_pos hwrote] at hstores
    refine ⟨fun w hw ↦ ?_, fun pos hpos ↦ ⟨_, hsnoc, fun hsent ↦ ?_⟩⟩
    · obtain rfl : CallRecord.mk memory fix tr o db' = w := Option.some.inj (hsnoc.symm.trans hw)
      exact hstores
    · cases hgoes with
      | suppressed t still => simp [wroteBase, baseWritten] at hwrote
      | unwritten t err due => simp [wroteBase, baseWritten] at hwrote
      | unpublished t err due => simp [CallRecord.publishFailed, publishRefused] at hsent
      | published t due => exact (Option.some.inj hpos).symm
  · rw [if_neg hwrote] at hsnoc
    rw [if_neg hwrote] at hstores
    refine ⟨fun w hw ↦ (h.stored w (hsnoc.symm.trans hw)).of_eq hstores, fun pos hpos ↦ ?_⟩
    have hmemory : o.toOption.getD memory = memory := by
      cases hgoes with
      | published t due => simp [wroteBase, baseWritten] at hwrote
      | _ => rfl
    rw [hmemory] at hpos
    obtain ⟨w, hw, hpublished⟩ := h.remembered pos hpos
    exact ⟨w, hsnoc.trans hw, hpublished⟩

theorem Stream.kept (h : Stream num publishIntervalS db₀ records memory db) :
    Kept records memory db := by
  induction h with
  | start => exact .start
  | call before steps passes ih =>
      exact ih.call (wp_iff.mp (onFix_goes _ _ _) _ _ steps) passes

theorem Stream.split {pre post : List CallRecord} {r : CallRecord}
    (h : Stream num publishIntervalS db₀ (pre ++ r :: post) memory db) :
    ∃ db', Stream num publishIntervalS db₀ pre r.memory db' ∧
      Goes publishIntervalS r.memory r.fix r.trace r.outcome ∧
      Passes (beside num) db' r.trace r.after := by
  induction post using List.reverseRecOn generalizing memory db with
  | nil =>
      generalize hall : pre ++ [r] = all at h
      cases h with
      | start => simp at hall
      | call before steps passes =>
          obtain ⟨rfl, hlast⟩ := List.append_inj' hall rfl
          obtain rfl := List.singleton_inj.mp hlast
          exact ⟨_, before, wp_iff.mp (onFix_goes _ _ _) _ _ steps, passes⟩
  | append_singleton post last ih =>
      generalize hall : pre ++ r :: (post ++ [last]) = all at h
      cases h with
      | start => simp at hall
      | call before steps passes =>
          rw [← List.cons_append, ← List.append_assoc] at hall
          obtain ⟨rfl, _⟩ := List.append_inj' hall rfl
          exact ih before

/-! ## Beside the tasks of the service -/

/-- The fixes of a session extend the stream by their calls. -/
theorem Stream.reports {fixes : List GpsdFix} {o : Except PyExc Memory}
    (h : Stream num publishIntervalS db₀ records memory db)
    (hsteps : Steps (reportFixes publishIntervalS memory fixes) tr (ofOutcome o))
    (hpasses : Passes (beside num) db tr db') :
    ∃ calls memory', Stream num publishIntervalS db₀ (records ++ calls) memory' db' ∧
      calls.map CallRecord.fix = fixes := by
  induction fixes generalizing records memory db tr with
  | nil =>
      obtain ⟨rfl, _⟩ := Steps.ret_iff.mp hsteps
      cases hpasses
      exact ⟨[], memory, by simpa using h, rfl⟩
  | cons fix rest ih =>
      obtain ⟨tr₁, o₁, tr₂, rfl, hcall, hrest⟩ := Steps.of_attempt_bind hsteps
      obtain ⟨m, hpasses₁, hpasses₂⟩ := hpasses.split
      have hnext : Steps (reportFixes publishIntervalS (o₁.toOption.getD memory) rest) tr₂
          (ofOutcome o) := by
        cases o₁ with
        | ok memory' => exact hrest
        | error err => exact hrest
      obtain ⟨calls, memory', hstream, hfixes⟩ := ih (h.call hcall hpasses₁) hnext hpasses₂
      refine ⟨⟨memory, fix, tr₁, o₁, m⟩ :: calls, memory', by simpa using hstream, ?_⟩
      rw [List.map_cons, hfixes]

section Pool

variable {ι : Type} [DecidableEq ι]

/-- If only the task `i` writes the base, it finds the base as it has left it. -/
theorem passes_beside {i : ι} {tr : List (Event ι Eff.Answer ℚ Empty)}
    (hquiet : ∀ j now x, .task j now x ∈ tr → j ≠ i → x.1.writesBase = false)
    (h : Evolves (Owned num ι) db tr db') :
    ∃ m, Passes (beside num) db (exchangesOf i tr) m ∧ m.baseState = db'.baseState := by
  induction h with
  | start => exact ⟨db, .nil db, rfl⟩
  | @step tr s s' ev past hstep ih =>
      obtain ⟨m, hpasses, hbase⟩ := ih fun j now x hx ↦ hquiet j now x (List.mem_append_left _ hx)
      cases ev with
      | env now a => exact a.elim
      | task j now x =>
          rw [exchangesOf_append]
          by_cases hj : j = i
          · subst hj
            rw [exchangesOf_task_self, exchangesOf_nil]
            have hown : beside num m x s' := ⟨now, s, hbase.symm, hstep⟩
            exact ⟨s', hpasses.append (.cons hown (.nil s')), rfl⟩
          · rw [exchangesOf_task_ne hj, exchangesOf_nil, List.append_nil]
            have hother := hquiet j now x (List.mem_append_right _ (List.mem_singleton_self _)) hj
            exact ⟨m, hpasses, hbase.trans (Eff.Transition.base hother hstep).symm⟩

/-- The tasks of the service, and the GPSD client as one more. -/
def withGpsd (service : Service ι) (publishIntervalS : ℚ) (fixes : List GpsdFix) :
    Option ι → Prog (Option Response)
  | some i => service.pool i
  | none => do
    let _ ← (reportFixes publishIntervalS {} fixes).attempt
    return none

/-- In every run of the service its calls are such a stream. -/
theorem stream_of_run {service : Service ι} {fixes : List GpsdFix}
    {tr : List (Event (Option ι) Eff.Answer ℚ Empty)} {p : Option ι → Prog (Option Response)}
    {o : Except PyExc (Option Response)}
    (h : Run (Owned service.num (Option ι)) (withGpsd service publishIntervalS fixes) db₀ tr p db)
    (hdone : p none = ofOutcome o) :
    ∃ records memory db', Stream service.num publishIntervalS db₀ records memory db' ∧
      records.map CallRecord.fix = fixes ∧ db'.baseState = db.baseState := by
  have hquiet : ∀ j now x, .task j now x ∈ tr → j ≠ none → x.1.writesBase = false := by
    intro j now x hx hj
    obtain ⟨i, rfl⟩ := Option.ne_none_iff_exists'.mp hj
    exact ((service.pool_only i).steps (h.steps (some i))).1 x (mem_exchangesOf.mpr ⟨now, hx⟩)
  obtain ⟨db', hpasses, hbase⟩ := passes_beside hquiet h.evolves
  have hsteps : Steps (withGpsd service publishIntervalS fixes none) (exchangesOf none tr)
      (ofOutcome o) := hdone ▸ h.steps none
  obtain ⟨tr₁, o₁, tr₂, htr, hreports, hrest⟩ := Steps.of_attempt_bind hsteps
  obtain ⟨rfl, _⟩ := Steps.ret_iff.mp hrest
  rw [List.append_nil] at htr
  rw [htr] at hpasses
  obtain ⟨calls, memory, hstream, hfixes⟩ := Stream.start.reports hreports hpasses
  exact ⟨calls, memory, db', hstream, hfixes, hbase⟩

end Pool

/-! ## How far the stored base is off -/

/-- Two coordinates at most the threshold apart. -/
def Within (f g : PyFloat) : Prop :=
  ∃ p q : ℚ, f = .fin p ∧ g = .fin q ∧ |p - q| ≤ moveThreshold

def GpsdFix.Exact (fix : GpsdFix) : Prop := ∃ p q : ℚ, fix.lat = .fin p ∧ fix.lon = .fin q

def GpsdFix.Near (fix fix' : GpsdFix) : Prop := Within fix.lat fix'.lat ∧ Within fix.lon fix'.lon

/-- The stored base is at most the threshold off the fix. -/
def BaseNear (db : Db) (fix : GpsdFix) : Prop :=
  ∃ row lat lon, db.baseState.find? "location" = some row ∧
    row.valueJson.lookup "lat" = some (.float lat) ∧
    row.valueJson.lookup "lon" = some (.float lon) ∧ Within lat fix.lat ∧ Within lon fix.lon

/-- The last write has been published, or is itself near the fix. -/
def Settled (records : List CallRecord) (fix : GpsdFix) : Prop :=
  ∀ w, lastWritten records = some w → w.publishFailed = false ∨ w.fix.Near fix

theorem Within.refl (p : ℚ) : Within (.fin p) (.fin p) := by
  refine ⟨p, p, rfl, rfl, ?_⟩
  rw [sub_self, abs_zero, moveThreshold]
  norm_num

theorem GpsdFix.Exact.near_self (h : fix.Exact) : fix.Near fix := by
  obtain ⟨p, q, hlat, hlon⟩ := h
  exact ⟨hlat ▸ .refl p, hlon ▸ .refl q⟩

theorem baseNear_iff {fix' : GpsdFix} (h : StoredAs db fix') : BaseNear db fix ↔ fix'.Near fix := by
  obtain ⟨row, hrow, hbody⟩ := h
  have hlat : row.valueJson.lookup "lat" = some (.float fix'.lat) := by
    rw [hbody]
    rfl
  have hlon : row.valueJson.lookup "lon" = some (.float fix'.lon) := by
    rw [hbody]
    rfl
  constructor
  · rintro ⟨row', lat, lon, hrow', hlat', hlon', hnear⟩
    obtain rfl : row = row' := Option.some.inj (hrow.symm.trans hrow')
    obtain rfl : fix'.lat = lat := PyVal.float.inj (Option.some.inj (hlat.symm.trans hlat'))
    obtain rfl : fix'.lon = lon := PyVal.float.inj (Option.some.inj (hlon.symm.trans hlon'))
    exact hnear
  · intro hnear
    exact ⟨row, _, _, hrow, hlat, hlon, hnear⟩

theorem within_of_still {f g : PyFloat} (hf : ∃ p : ℚ, f = .fin p) (hg : ∃ q : ℚ, g = .fin q)
    (h : (PyFloat.fin moveThreshold).below (g.gap f) = false) : Within f g := by
  obtain ⟨p, rfl⟩ := hf
  obtain ⟨q, rfl⟩ := hg
  refine ⟨p, q, rfl, rfl, ?_⟩
  rw [abs_sub_comm]
  simpa [PyFloat.gap, PyFloat.below] using h

theorem near_of_still {fix' : GpsdFix} (hfix : fix.Exact) (hfix' : fix'.Exact)
    (hpos : memory.lastPos = some (fix'.lat, fix'.lon)) (h : memory.moved fix = false) :
    fix'.Near fix := by
  obtain ⟨p, q, hlat, hlon⟩ := hfix
  obtain ⟨p', q', hlat', hlon'⟩ := hfix'
  simp only [Memory.moved, hpos, Bool.or_eq_false_iff] at h
  exact ⟨within_of_still ⟨p', hlat'⟩ ⟨p, hlat⟩ h.1, within_of_still ⟨q', hlon'⟩ ⟨q, hlon⟩ h.2⟩

/-- A call that returns normally leaves the base near its fix, unless it suppresses the
fix while a write far from it has not been published. -/
theorem call_near_iff (hkept : Kept records memory db) (hexact : ∀ r ∈ records, r.fix.Exact)
    (hfix : fix.Exact) (hgoes : Goes publishIntervalS memory fix tr o)
    (hpasses : Passes (beside num) db tr db') :
    ((∃ memory', o = .ok memory') → BaseNear db' fix) ↔
      (memory.suppresses publishIntervalS (startTime tr) fix = true → Settled records fix) := by
  have hstores := hgoes.stores hpasses
  cases hgoes with
  | unwritten t err due =>
      refine iff_of_true (fun ⟨_, h⟩ ↦ by cases h) fun h ↦ ?_
      rw [startTime, due] at h
      cases h
  | unpublished t err due =>
      refine iff_of_true (fun ⟨_, h⟩ ↦ by cases h) fun h ↦ ?_
      rw [startTime, due] at h
      cases h
  | published t due =>
      have hstored : StoredAs db' fix := by simpa [wroteBase, baseWritten] using hstores
      refine iff_of_true (fun _ ↦ (baseNear_iff hstored).mpr hfix.near_self) fun h ↦ ?_
      rw [startTime, due] at h
      cases h
  | suppressed t still =>
      have hsame : db'.baseState = db.baseState := by simpa [wroteBase, baseWritten] using hstores
      have hmoved := still_of_suppresses still
      obtain ⟨pos, hpos⟩ : ∃ pos, memory.lastPos = some pos := by
        rcases hlast : memory.lastPos with _ | pos
        · simp [Memory.moved, hlast] at hmoved
        · exact ⟨pos, rfl⟩
      obtain ⟨w, hw, hpublished⟩ := hkept.remembered pos hpos
      have hstored := (hkept.stored w hw).of_eq hsame
      rw [baseNear_iff hstored]
      constructor
      · intro hnear _ w' hw'
        obtain rfl : w = w' := Option.some.inj (hw.symm.trans hw')
        exact .inr (hnear ⟨memory, rfl⟩)
      · intro hsettled _
        rcases hsettled still w hw with hsent | hnear
        · rw [hpublished hsent] at hpos
          exact near_of_still hfix (hexact w (lastWritten_mem hw).1) hpos hmoved
        · exact hnear

/-- In every run of calls, each that returns normally leaves the stored base near its fix
if and only if no fix is suppressed while a write far from it is unpublished. -/
theorem gpsd_base_near_iff (h : Stream num publishIntervalS db₀ records memory db)
    (hexact : ∀ r ∈ records, r.fix.Exact) :
    (∀ r ∈ records, r.Returned → BaseNear r.after r.fix) ↔
      ∀ pre r post, records = pre ++ r :: post → r.Suppressed publishIntervalS →
        Settled pre r.fix := by
  have hcall (pre post : List CallRecord) (r : CallRecord) (hsplit : records = pre ++ r :: post) :
      (r.Returned → BaseNear r.after r.fix) ↔
        (r.Suppressed publishIntervalS → Settled pre r.fix) := by
    subst hsplit
    obtain ⟨db', hpre, hgoes, hpasses⟩ := h.split
    refine call_near_iff hpre.kept (fun r' hr' ↦ ?_) ?_ hgoes hpasses
    · exact hexact r' (List.mem_append_left _ hr')
    · exact hexact r (List.mem_append_right _ List.mem_cons_self)
  constructor
  · intro hall pre r post hsplit
    have hmem : r ∈ records := by
      rw [hsplit]
      exact List.mem_append_right _ List.mem_cons_self
    exact (hcall pre post r hsplit).mp (hall r hmem)
  · intro hall r hmem
    obtain ⟨pre, post, hsplit⟩ := List.append_of_mem hmem
    exact (hcall pre post r hsplit).mpr (hall pre r post hsplit)

theorem settled_of_published {pre : List CallRecord} (h : ∀ w ∈ pre, w.publishFailed = false)
    (fix : GpsdFix) : Settled pre fix := by
  intro w hw
  exact .inl (h w (lastWritten_mem hw).1)

/-! ## Calls with nobody else at work -/

/-- One call at the time `now`; `fails` names the exceptions. -/
def callAlone (now : ℚ) (fails : Eff → Option PyExc) (memory : Memory) (db : Db) (fix : GpsdFix) :
    CallRecord where
  memory := memory
  fix := fix
  trace := (onFix 30 memory fix).exchanges (fun e db ↦ e.respond .plain now fails db) db
  outcome := ((onFix 30 memory fix).eval (fun e db ↦ e.respond .plain now fails db) db).1
  after := ((onFix 30 memory fix).eval (fun e db ↦ e.respond .plain now fails db) db).2

theorem Stream.alone (h : Stream .plain 30 db₀ records memory db) (now : ℚ)
    (fails : Eff → Option PyExc) (fix : GpsdFix) :
    Stream .plain 30 db₀ (records ++ [callAlone now fails memory db fix])
      ((callAlone now fails memory db fix).outcome.toOption.getD memory)
      (callAlone now fails memory db fix).after := by
  refine h.call (steps_exchanges _ _) (passes_exchanges (fun e s _ ↦ ?_) meets_always)
  exact ⟨now, s, rfl, Eff.respond_transition .plain now fails e s⟩

/-- A fix at a latitude on the prime meridian. -/
def fixAt (lat : ℚ) : GpsdFix := { lat := .fin lat, lon := .fin 0, ts := 0 }

theorem exact_fixAt (lat : ℚ) : (fixAt lat).Exact := ⟨lat, 0, rfl, rfl⟩

def nothingFails (_ : Eff) : Option PyExc := none

def publishFails : Eff → Option PyExc
  | .publish .. => some .runtimeError
  | _ => none

/-- The first fix, at the equator. -/
def firstCall : CallRecord := callAlone 100 nothingFails {} Db.empty (fixAt 0)

def firstMemory : Memory := firstCall.outcome.toOption.getD {}

theorem firstCall_stream :
    Stream .plain 30 Db.empty [firstCall] firstMemory firstCall.after :=
  Stream.start.alone 100 nothingFails (fixAt 0)

/-- A fix a metre north of it, one second later. -/
def nearCall : CallRecord :=
  callAlone 101 nothingFails firstMemory firstCall.after (fixAt (1 / 100000))

/-- It is suppressed, and the base is near it. -/
theorem near_after_small_move : nearCall.Suppressed 30 ∧
    ∀ r ∈ [firstCall, nearCall], r.Returned → BaseNear r.after r.fix := by
  refine ⟨by decide +kernel, (gpsd_base_near_iff
    (firstCall_stream.alone 101 nothingFails (fixAt (1 / 100000))) ?_).mpr ?_⟩
  · rintro r hr
    obtain rfl | rfl := by simpa using hr
    · exact exact_fixAt _
    · exact exact_fixAt _
  · have hall : ∀ w ∈ [firstCall, nearCall], w.publishFailed = false := by decide +kernel
    rintro pre r post hsplit _
    refine settled_of_published (fun w hw ↦ hall w ?_) _
    have hmem := List.mem_append_left (r :: post) hw
    rwa [← hsplit] at hmem

/-- A fix 1° north, which is written but not published. -/
def farCall : CallRecord := callAlone 101 publishFails firstMemory firstCall.after (fixAt 1)

/-- Back at the equator. -/
def backCall : CallRecord :=
  callAlone 102 nothingFails (farCall.outcome.toOption.getD firstMemory) farCall.after (fixAt 0)

def storedLat (db : Db) : Option PyFloat :=
  match (db.baseState.find? "location").bind fun row ↦ row.valueJson.lookup "lat" with
  | some (.float lat) => some lat
  | _ => none

/-- The fix back at the equator is suppressed, and the base stays 1° off. -/
theorem far_base_stays : ¬ ∀ records memory db, Stream .plain 30 Db.empty records memory db →
    (∀ r ∈ records, r.fix.Exact) → ∀ r ∈ records, r.Returned → BaseNear r.after r.fix := by
  intro h
  have hstream := (firstCall_stream.alone 101 publishFails (fixAt 1)).alone 102 nothingFails
    (fixAt 0)
  have hexact : ∀ r ∈ [firstCall, farCall, backCall], r.fix.Exact := by
    rintro r hr
    obtain rfl | rfl | rfl := by simpa using hr
    · exact exact_fixAt _
    · exact exact_fixAt _
    · exact exact_fixAt _
  obtain ⟨row, lat, lon, hrow, hlat, _, ⟨p, q, rfl, hq, hle⟩, _⟩ :=
    h [firstCall, farCall, backCall] _ _ hstream hexact backCall (by simp)
      (exists_ok_of_isSome (by decide +kernel))
  have hstored : storedLat backCall.after = some (.fin 1) := by decide +kernel
  have hp : storedLat backCall.after = some (.fin p) := by
    rw [storedLat, hrow, Option.bind_some, hlat]
  obtain rfl : 1 = p := PyFloat.fin.inj (Option.some.inj (hstored.symm.trans hp))
  obtain rfl : 0 = q := PyFloat.fin.inj hq
  norm_num [moveThreshold] at hle

end Gpsd

end MeshcoreRpc
