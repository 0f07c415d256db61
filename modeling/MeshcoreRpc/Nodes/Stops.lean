import MeshcoreRpc.Core.Endings
import MeshcoreRpc.Nodes.Fields
import MeshcoreRpc.Nodes.Online

/-!
# Where a location report can stop

The handler of a location report writes twice and then publishes twice.  It can
stop before, between and after: a conversion or a write raises, or the TTL
elapses while it awaits.
-/

namespace MeshcoreRpc

open Tables Coroutine Coro

/-- The store, and what has been published. -/
structure Site where
  db : Db
  sent : List (String × List (String × PyVal))

/-- `get_last_seen` finds a finite number. -/
def Site.Readable (num : Numerals) (s : Site) (node : String) : Prop :=
  ∃ q, s.db.syncGetLastSeen num (.str node) = .ok (some (.fin q))

/-- What an answered effect does to the site.  Publishes do not fail; what a timeout
cancels has been done or not. -/
def Eff.Handles (num : Numerals) : (e : Eff) → e.Answer → Site → Site → Prop
  | .publish topic payload _, r, s, s' =>
    r = .ok () ∧ s'.db = s.db ∧ s'.sent = s.sent ++ [(topic, payload)]
  | .underTtl _ e, some r, s, s' => e.Handles num r s s'
  | .underTtl _ e, none, s, s' => s' = s ∨ ∃ r, e.Handles num r s s'
  | .afterTtl e, r, s, s' => e.Handles num r s s'
  | e, r, s, s' => s'.sent = s.sent ∧ ∃ now, e.Serves num now r s.db s'.db

abbrev handles (num : Numerals) : Reaction Site Eff.Answer :=
  fun s x s' ↦ x.1.Handles num x.2 s s'

/-- The number is finite, and so is its float. -/
def PyVal.IsFinite (v : PyVal) : Prop := v.floatable = true ∧ ∃ q, v.number? = some q

namespace Handlers

/-- Every argument of a report has its type, and is finite. -/
structure WellFormed (request : Request) : Prop where
  coordinates : ∀ k ∈ ["lat", "lon"], (arg request k).IsFinite
  optional : ∀ k ∈ ["ts", "alt", "acc", "spd", "hdg"],
    (arg request k).isNone = true ∨ (arg request k).IsFinite
  fix : (arg request "fix").isNone = true ∨ ∃ n, optInt (arg request "fix") = some n

/-- The `fix` has 64 bits. -/
def FixFits (request : Request) : Prop :=
  ∀ n, optInt (arg request "fix") = some n → -2 ^ 63 ≤ n ∧ n < 2 ^ 63

/-- The row, the mark and the two publications of an accepted report. -/
def Delivered (num : Numerals) (request : Request) (s s' : Site) : Prop :=
  ∃ fix now t payload, acceptedFix num request now = some fix ∧ fix.ts = .fin t ∧
    (View.location request.from_).stored s'.db =
      some (compactJson ((View.location request.from_).body ⟨fix, "report", none, none⟩)) ∧
    (∃ row, s'.db.nodes.find? request.from_ = some row ∧
      (SqlValue.real t).rank ≤ row.lastSeen.rank) ∧
    s'.sent = s.sent ++
      [(Topics.nodeLocationTopic request.from_,
          compactJson ((View.location request.from_).body ⟨fix, "report", none, none⟩)),
        (Topics.nodeStateTopic request.from_, payload)]

/-- What is to become of a report: all of it or none, and no internal error for the
arguments. -/
structure AllOrNothing (num : Numerals) (request : Request) (s s' : Site) (response : Response) :
    Prop where
  nothing : response.status = .error → s'.db = s.db ∧ s'.sent = s.sent
  blamed : response.status = .error → ¬ WellFormed request →
    response.error.map ErrorBody.code ≠ some Errors.internal
  all : response.status = .ok → Delivered num request s s'

/-- A finished call with the answer, whose handler has taken the site from `s` to `s'`
with nobody else at it. -/
structure Handled (num : Numerals) (geo : Geo) (policy : TimeoutPolicy) (request : Request)
    (s s' : Site) (tr : Trace) (response : Response) : Prop where
  finished : ∃ o, Steps (processRequest policy (defaultRouter num geo) request) tr (ofOutcome o)
  started : ⟨.inc, ()⟩ ∈ tr
  passes : Passes (handles num) s (handlerTrace tr) s'
  answered : ∃ nodeId, ∃ r : Except PyExc Unit, ⟨.emit nodeId response, r⟩ ∈ tr

end Handlers

/-! ## The effects at the site -/

section Effects

variable {num : Numerals} {s s' : Site}

theorem Site.eq_of_parts (hdb : s'.db = s.db) (hsent : s'.sent = s.sent) : s' = s := by
  cases s
  cases s'
  cases hdb
  cases hsent
  rfl

theorem handles_read {c : StoreCall} {r : Except PyExc c.Answer} (hc : c.reads = true)
    (h : (Eff.store c).Handles num r s s') :
    s' = s ∧ ∃ now, r = (c.exec num now s.db).map Prod.snd := by
  obtain ⟨hsent, now, hserves⟩ := h
  obtain ⟨hdb, hr⟩ := hserves.read hc
  exact ⟨Site.eq_of_parts hdb hsent, now, hr⟩

theorem handles_write {c : StoreCall} {r : Except PyExc c.Answer}
    (h : (Eff.store c).Handles num r s s') : s'.sent = s.sent ∧
      ((∃ now a, r = .ok a ∧ c.exec num now s.db = .ok (s'.db, a)) ∨
        s' = s ∧ ∃ err, r = .error err) := by
  obtain ⟨hsent, now, ⟨a, hr, hexec⟩ | ⟨hdb, err, hr, _⟩⟩ := h
  · exact ⟨hsent, .inl ⟨now, a, hr, hexec⟩⟩
  · exact ⟨hsent, .inr ⟨Site.eq_of_parts hdb hsent, err, hr⟩⟩

theorem handles_time {t : ℚ} (h : Eff.time.Handles num t s s') : s' = s := by
  obtain ⟨hsent, now, _, hdb⟩ := h
  exact Site.eq_of_parts hdb hsent

theorem handles_getRadio {nodeId : PyVal} {r : Option Radio}
    (h : (Eff.getRadio nodeId).Handles num r s s') : s' = s := by
  obtain ⟨hsent, now, hdb⟩ := h
  exact Site.eq_of_parts hdb hsent

end Effects

/-! ## The call around the report -/

section Calls

variable {num : Numerals} {geo : Geo} {policy : TimeoutPolicy} {request : Request} {s s' : Site}
  {tr : Trace} {response : Response}

namespace Handlers

theorem Handled.outcome (htype : request.type = "node.location.report")
    (h : Handled num geo policy request s s' tr response) : ∃ outcome,
      Steps (waitFor (policy.resolve request.type request.ttl) (nodeLocationReport num request)
        letThrough) (handlerTrace tr) (ofOutcome outcome) ∧
      response = (Verdict.handled outcome).response request
        (policy.resolve request.type request.ttl) := by
  obtain ⟨o, hsteps⟩ := h.finished
  obtain ⟨nodeId, r, hemit⟩ := h.answered
  have hstarted := h.started
  obtain ⟨handler, hrouter⟩ : ∃ handler,
      (defaultRouter num geo).resolve request.type = some handler := by
    rw [htype]
    exact ⟨_, rfl⟩
  have hhandle := resolve_report num geo (htype ▸ hrouter)
  obtain ⟨seenAt, inner, outcome, closing, rfl, hinner, hclosing⟩ :=
    wp_iff.mp (processRequest_around policy hrouter) tr o hsteps hstarted
  rw [defaultRouter_timed_eq num geo hrouter, hhandle] at hinner
  refine ⟨outcome, ?_, ?_⟩
  · rw [handlerTrace_around hinner hclosing]
    exact hinner
  · rw [mem_around hinner rfl (by simp [opening]) (by simp) (by simp)] at hemit
    exact hclosing.emitted hemit

theorem exists_handled (htype : request.type = "node.location.report") {inner : Trace}
    {ending : Ending} (hending : Ending.Of (policy.resolve request.type request.ttl)
      (nodeLocationReport num request) letThrough inner ending)
    (hpasses : Passes (handles num) s inner s') :
    ∃ tr, handlerTrace tr = inner ∧ Handled num geo policy request s s' tr
      ((Verdict.handled ending.outcome).response request
        (policy.resolve request.type request.ttl)) := by
  obtain ⟨handler, hrouter⟩ : ∃ handler,
      (defaultRouter num geo).resolve request.type = some handler := by
    rw [htype]
    exact ⟨_, rfl⟩
  have hinner := hending.steps
  rw [← resolve_report num geo (htype ▸ hrouter), ← defaultRouter_timed_eq num geo hrouter]
    at hinner
  obtain ⟨closing, o, hsteps, hclosing, hemit⟩ := exists_around policy hrouter hinner
  have htrace := @handlerTrace_around request _ _ _ 0 _ _ _ _ hinner hclosing
  refine ⟨_, htrace, ⟨o, hsteps⟩, by simp, ?_, request.from_, .ok (), by simp [hemit]⟩
  rw [htrace]
  exact hpasses

/-! ## Nothing of it -/

/-- The exchange is no successful write of a fix that the report makes. -/
def WritesNothing (num : Numerals) (request : Request) (x : Exchange Eff.Answer) : Prop :=
  ∀ fix ts, fix? x.1 = some fix → reportedFix num request ts = .ok fix →
    x.1.raised? x.2 ≠ none

variable {W : Reaction Site Eff.Answer}

/-- A report whose first write fails has done nothing before it. -/
theorem alone_reportAt_nothing {ts : PyVal}
    (hW : ∀ m x m', W m x m' → handles num m x m' ∧ WritesNothing num request x) :
    (reportAt num request ts).alone W (· = s) s fun o s' ↦
      s' = s ∧ ∀ response, o ≠ .ok response := by
  cases hfix : reportedFix num request ts with
  | error err =>
      rw [reportAt_error hfix]
      exact ⟨rfl, fun response h ↦ by cases h⟩
  | ok fix =>
      rw [reportAt_ok hfix]
      simp only [StateAggregator.applyLocation, alone_bind, Prog.store, alone_await,
        alone_ofOutcome]
      refine ⟨trivial, fun r s₁ hfirst ↦ ?_⟩
      obtain ⟨hhandles, hnothing⟩ := hW _ _ _ hfirst
      have hraised := hnothing fix ts rfl hfix
      obtain ⟨_, ⟨_, _, rfl, _⟩ | ⟨rfl, err, rfl⟩⟩ := handles_write hhandles
      · exact absurd rfl hraised
      · exact ⟨rfl, fun response h ↦ by cases h⟩

theorem alone_report_nothing
    (hW : ∀ m x m', W m x m' → handles num m x m' ∧ WritesNothing num request x) :
    (nodeLocationReport num request).alone W (· = s) s fun o s' ↦
      s' = s ∧ ∀ response, o ≠ .ok response := by
  by_cases hplaced : Placed request
  · rw [nodeLocationReport_placed hplaced, alone_bind, orTime]
    by_cases htruthy : (arg request "ts").truthy = true
    · rw [if_pos htruthy]
      exact alone_reportAt_nothing hW
    · rw [if_neg htruthy]
      refine ⟨rfl, fun t s₁ hclock ↦ ?_⟩
      obtain rfl := handles_time (hW _ _ _ hclock).1
      exact alone_reportAt_nothing hW
  · obtain ⟨message, heq⟩ := @nodeLocationReport_refused num _ hplaced
    rw [heq]
    exact ⟨rfl, fun response h ↦ by cases h⟩

/-- A first write under the TTL is answered, with an exception. -/
def FailsFirst : Exchange Eff.Answer → Prop
  | ⟨.underTtl _ e, a⟩ => fix? e ≠ none → ∃ r, a = some r ∧ e.raised? r ≠ none
  | _ => True

theorem nothing_of_failsFirst {ttlS : ℤ} {inner : Trace} {outcome : Except PyExc Response}
    (hsteps : Steps (waitFor ttlS (nodeLocationReport num request) letThrough) inner
      (ofOutcome outcome))
    (hpasses : Passes (handles num) s inner s') (hfails : ∀ x ∈ inner, FailsFirst x) :
    s' = s ∧ ∀ response, outcome ≠ .ok response := by
  have hraw : (nodeLocationReport num request).alone
      (fun m x m' ↦ handles num m x m' ∧ (fix? x.1 ≠ none → x.1.raised? x.2 ≠ none)) (· = s) s
      fun o s' ↦ s' = s ∧ ∀ response, o ≠ .ok response :=
    alone_report_nothing fun m x m' h ↦ ⟨h.1, fun fix ts hfix _ ↦ h.2 (by simp [hfix])⟩
  refine alone_sound (alone_waitFor_cut hraw ?_ ?_ ?_ ?_) hsteps (hpasses.restrict hfails)
  · rintro e r m m' ⟨hhandles, hfails⟩
    refine ⟨hhandles, fun hfix ↦ ?_⟩
    obtain ⟨r', heq, hraised⟩ := hfails hfix
    cases heq
    exact hraised
  · rintro e m m' ⟨hhandles, hfails⟩
    by_cases hfix : fix? e = none
    · obtain rfl | ⟨r, hr⟩ := hhandles
      · exact .inl rfl
      · exact .inr ⟨r, hr, fun h ↦ absurd hfix h⟩
    · obtain ⟨r, hnone, _⟩ := hfails hfix
      cases hnone
  · rintro m rfl
    exact ⟨rfl, fun response h ↦ by cases h⟩
  · rintro o m ⟨rfl, _⟩
    exact ⟨rfl, fun response h ↦ by cases h⟩

/-- No store takes a `fix` of more than 64 bits. -/
theorem writesNothing_of_unfit (hunfit : ¬ FixFits request) {x : Exchange Eff.Answer} {m m' : Site}
    (h : handles num m x m') : WritesNothing num request x := by
  intro fix ts hfix hreported
  obtain ⟨e, r⟩ := x
  cases e with
  | store c =>
      cases c with
      | upsertNodeLocation nodeId fix' source rssi snr =>
          cases hfix
          obtain ⟨_, ⟨now, _, rfl, hexec⟩ | ⟨_, err, rfl⟩⟩ := handles_write h
          · exfalso
            refine hunfit fun n hn ↦ ?_
            obtain ⟨_, hrow⟩ := StoreCall.atomically_execute hexec
            iterate 5 obtain ⟨_, _, hrow⟩ := except_bind_ok hrow
            obtain ⟨bound, hbound, _⟩ := except_bind_ok hrow
            rw [(reportedFix_ok hreported).2.2.2.2.2.2.2, hn] at hbound
            have hbound : (SqlValue.bind (.int n)).map (SqlValue.toInteger num) = .ok bound :=
              hbound
            by_contra hrange
            rw [SqlValue.bind, if_neg hrange] at hbound
            cases hbound
          · simp [Eff.raised?]
      | _ => cases hfix
  | _ => cases hfix

theorem nothing_of_unfit {ttlS : ℤ} {inner : Trace} {outcome : Except PyExc Response}
    (hsteps : Steps (waitFor ttlS (nodeLocationReport num request) letThrough) inner
      (ofOutcome outcome))
    (hpasses : Passes (handles num) s inner s') (hunfit : ¬ FixFits request) :
    s' = s ∧ ∀ response, outcome ≠ .ok response := by
  have hraw : (nodeLocationReport num request).alone
      (fun m x m' ↦ handles num m x m' ∧ WritesNothing num request x) (· = s) s
      fun o s' ↦ s' = s ∧ ∀ response, o ≠ .ok response :=
    alone_report_nothing fun m x m' h ↦ h
  refine alone_sound (alone_waitFor_cut hraw (fun e r m m' h ↦ ?_) (fun e m m' h ↦ ?_) ?_ ?_)
    hsteps hpasses
  · exact ⟨h, writesNothing_of_unfit hunfit h⟩
  · obtain rfl | ⟨r, hr⟩ := h
    · exact .inl rfl
    · exact .inr ⟨r, hr, writesNothing_of_unfit hunfit hr⟩
  · rintro m rfl
    exact ⟨rfl, fun response h ↦ by cases h⟩
  · rintro o m ⟨rfl, _⟩
    exact ⟨rfl, fun response h ↦ by cases h⟩

theorem status_error {err : PyExc} {ttlS : ℤ} :
    ((Verdict.handled (.error err)).response request ttlS).status = .error := by
  cases err <;> rfl

theorem allOrNothing_of_nothing {outcome : Except PyExc Response} {ttlS : ℤ}
    (hwell : WellFormed request) (hsite : s' = s) (hfailed : ∀ response, outcome ≠ .ok response) :
    AllOrNothing num request s s' ((Verdict.handled outcome).response request ttlS) := by
  subst hsite
  refine ⟨fun _ ↦ ⟨rfl, rfl⟩, fun _ hnot ↦ absurd hwell hnot, fun hok ↦ ?_⟩
  cases outcome with
  | ok response => exact absurd rfl (hfailed response)
  | error err =>
      rw [status_error] at hok
      cases hok

/-- With no time left nothing is started. -/
theorem allOrNothing_of_never {x : Prog Response} {unwind : Unwinding Response} {ttlS : ℤ}
    {inner : Trace} {outcome : Except PyExc Response} (httl : ttlS ≤ 0)
    (hsteps : Steps (waitFor ttlS x unwind) inner (ofOutcome outcome))
    (hpasses : Passes (handles num) s inner s') :
    AllOrNothing num request s s' ((Verdict.handled outcome).response request ttlS) := by
  rw [waitFor_never httl] at hsteps
  obtain ⟨rfl, hout⟩ := Steps.raise_iff.mp hsteps
  cases hpasses
  cases outcome with
  | ok response => cases hout
  | error err =>
      cases hout
      refine ⟨fun _ ↦ ⟨rfl, rfl⟩, fun _ _ h ↦ ?_, fun hok ↦ by cases hok⟩
      have hcode : some Errors.timeout = some Errors.internal := h
      exact absurd hcode (by decide)

theorem allOrNothing_of_refused {ttlS : ℤ} {inner : Trace} {outcome : Except PyExc Response}
    (hplaced : ¬ Placed request)
    (hsteps : Steps (waitFor ttlS (nodeLocationReport num request) letThrough) inner
      (ofOutcome outcome))
    (hpasses : Passes (handles num) s inner s') :
    AllOrNothing num request s s' ((Verdict.handled outcome).response request ttlS) := by
  by_cases httl : ttlS ≤ 0
  · exact allOrNothing_of_never httl hsteps hpasses
  obtain ⟨message, heq⟩ := @nodeLocationReport_refused num _ hplaced
  rw [heq, waitFor, if_neg httl] at hsteps
  have hraised : Steps (Coro.raise (.rpcError Errors.badRequest message) : Prog Response) inner
    (ofOutcome outcome) := hsteps
  obtain ⟨rfl, hout⟩ := Steps.raise_iff.mp hraised
  cases hpasses
  cases outcome with
  | ok response => cases hout
  | error err =>
      cases hout
      refine ⟨fun _ ↦ ⟨rfl, rfl⟩, fun _ _ h ↦ ?_, fun hok ↦ by cases hok⟩
      have hcode : some Errors.badRequest = some Errors.internal := h
      exact absurd hcode (by decide)

/-! ## All of it -/

def Unstopped : Exchange Eff.Answer → Prop
  | ⟨.underTtl _ e, a⟩ => ∃ r, a = some r ∧ ∀ c, e = .store c → c.reads = false → e.raised? r = none
  | _ => True

theorem optional_not_nan {v : PyVal} {o : Option PyFloat} (h : optFloat v = .ok o)
    (hv : v.isNone = true ∨ v.IsFinite) : o ≠ some .nan := by
  obtain hnone | ⟨_, q, hq⟩ := hv
  · cases v with
    | none =>
        cases h
        simp
    | _ => cases hnone
  · obtain ⟨t, rfl, _⟩ := optFloat_number h hq
    simp

theorem reportedFix_of_wellFormed (hplaced : Placed request) (hwell : WellFormed request)
    (hfits : FixFits request) {ts : PyVal} {t : ℚ} (hts : ts.toFloat num = .ok (.fin t)) :
    ∃ fix, reportedFix num request ts = .ok fix ∧ fix.ts = .fin t ∧
      (View.location request.from_).Plain ⟨fix, "report", none, none⟩ := by
  have hcoordinates := hwell.coordinates
  have hoptional := hwell.optional
  simp only [List.forall_mem_cons, List.not_mem_nil, false_implies, implies_true, and_true]
    at hcoordinates hoptional
  obtain ⟨⟨_, lat, hlat⟩, _, lon, hlon⟩ := hcoordinates
  obtain ⟨_, halt, hacc, hspd, hhdg⟩ := hoptional
  have hfloatable {v : PyVal} (h : v.isNone = true ∨ v.IsFinite) : v.floatable = true := by
    obtain hnone | hfinite := h
    · cases v with
      | none => rfl
      | _ => cases hnone
    · exact hfinite.1
  obtain ⟨fix, hfix⟩ := (reportedFix_ok_iff hplaced).mpr ⟨⟨_, hts⟩, by
    simp only [List.forall_mem_cons, List.not_mem_nil, false_implies, implies_true, and_true]
    exact ⟨hfloatable halt, hfloatable hacc, hfloatable hspd, hfloatable hhdg⟩⟩
  obtain ⟨hfixLat, hfixLon, hfixTs, hfixAlt, hfixAcc, hfixSpd, hfixHdg, hfixFix⟩ :=
    reportedFix_ok hfix
  rw [hts] at hfixTs
  refine ⟨fix, hfix, (Except.ok.inj hfixTs).symm, ⟨?_, ?_, ?_⟩, ?_, ?_⟩
  · obtain ⟨q, hq, _⟩ := PyVal.toFloat_number hfixLat hlat
    simp [hq]
  · obtain ⟨q, hq, _⟩ := PyVal.toFloat_number hfixLon hlon
    simp [hq]
  · rw [← Except.ok.inj hfixTs]
    simp
  · simp only [List.forall_mem_cons, List.not_mem_nil, false_implies, implies_true, and_true]
    exact ⟨optional_not_nan hfixAlt halt, optional_not_nan hfixAcc hacc,
      optional_not_nan hfixSpd hspd, optional_not_nan hfixHdg hhdg, by simp⟩
  · simp only [List.forall_mem_cons, List.not_mem_nil, false_implies, implies_true, and_true]
    exact ⟨fun m hm ↦ hfits m (hfixFix ▸ hm), fun m hm ↦ by cases hm⟩

def WritesWell (x : Exchange Eff.Answer) : Prop :=
  ∀ c, x.1 = .store c → c.reads = false → x.1.raised? x.2 = none

abbrev handlesWell (num : Numerals) : Reaction Site Eff.Answer :=
  fun s x s' ↦ handles num s x s' ∧ WritesWell x

theorem handlesWell_write {c : StoreCall} {r : Except PyExc c.Answer} (hc : c.reads = false)
    (h : handlesWell num s ⟨.store c, r⟩ s') :
    s'.sent = s.sent ∧ ∃ now a, r = .ok a ∧ c.exec num now s.db = .ok (s'.db, a) := by
  obtain ⟨hhandles, hwell⟩ := h
  obtain ⟨hsent, hdone | ⟨_, err, rfl⟩⟩ := handles_write hhandles
  · exact ⟨hsent, hdone⟩
  · cases hwell c rfl hc

theorem alone_getNodeState {node : String} (hseen : s.Readable num node) :
    (StateAggregator.getNodeState (.str node)).alone (handlesWell num) (fun _ ↦ True) s
      fun o s' ↦ s' = s ∧ ∃ st, o = .ok (some st) := by
  obtain ⟨q, hq⟩ := hseen
  simp only [StateAggregator.getNodeState, StateAggregator.getNodeLocation,
    StateAggregator.getNodeBattery, Prog.getRadio, Prog.time, alone_bind, Prog.store, alone_await,
    alone_ofOutcome]
  refine ⟨trivial, fun seen s₁ hseen ↦ ?_⟩
  obtain ⟨rfl, now, rfl⟩ := handles_read rfl hseen.1
  have hlast : ((StoreCall.getLastSeen (.str node)).exec num now s₁.db).map Prod.snd =
      .ok (some (.fin q)) := (map_snd_mk _ _).trans hq
  rw [hlast]
  refine ⟨trivial, fun loc s₂ hloc ↦ ?_⟩
  obtain ⟨rfl, now', rfl⟩ := handles_read rfl hloc.1
  have hlocation : ((StoreCall.getNodeLocation (.str node)).exec num now' s₂.db).map Prod.snd =
      .ok _ := (map_snd_mk _ _).trans (Db.syncGetNodeLocation_str node)
  rw [hlocation]
  refine ⟨trivial, fun bat s₃ hbat ↦ ?_⟩
  obtain ⟨rfl, now'', rfl⟩ := handles_read rfl hbat.1
  have hbattery : ((StoreCall.getNodeBattery (.str node)).exec num now'' s₃.db).map Prod.snd =
      .ok _ := (map_snd_mk _ _).trans (Db.syncGetNodeBattery_str node)
  rw [hbattery]
  refine ⟨trivial, fun radio s₄ hradio ↦ ?_⟩
  obtain rfl := handles_getRadio hradio.1
  refine ⟨trivial, fun t s₅ htime ↦ ?_⟩
  obtain rfl := handles_time htime.1
  exact ⟨rfl, _, rfl⟩

theorem alone_republishState {node : String} (hseen : s.Readable num node) :
    (StateAggregator.republishState num (.str node)).alone (handlesWell num) (fun _ ↦ True) s
      fun o s' ↦ o = .ok () ∧ s'.db = s.db ∧
        ∃ payload, s'.sent = s.sent ++ [(Topics.nodeStateTopic node, payload)] := by
  rw [StateAggregator.republishState, alone_bind]
  refine alone_mono (alone_getNodeState hseen) (fun _ h ↦ h) ?_
  rintro o s' ⟨rfl, st, rfl⟩
  refine ⟨trivial, fun r s₁ hpublish ↦ ?_⟩
  obtain ⟨⟨rfl, hdb, hsent⟩, _⟩ := hpublish
  exact ⟨rfl, hdb, _, hsent⟩

theorem marked_at {now t : ℚ} {db db' : Db} {node : String} {a : Unit}
    (hexec : (StoreCall.markNodeSeen (.str node) (.float (.fin t))).exec num now db = .ok (db', a))
    (hold : (db.nodes.find? node).isSome →
      ∃ q, db.syncGetLastSeen num (.str node) = .ok (some (.fin q))) :
    (∃ q, db'.syncGetLastSeen num (.str node) = .ok (some (.fin q))) ∧
      ∃ row, db'.nodes.find? node = some row ∧ (SqlValue.real t).rank ≤ row.lastSeen.rank := by
  obtain ⟨key, seen, hkey, hseen, hne, hrows⟩ := StoreCall.exec_markNodeSeen hexec
  cases hkey
  cases hseen
  have hmarked : Stage.Marked num ⟨db, fun _ ↦ none⟩ ⟨db', fun _ ↦ none⟩ node
      (.float (.fin t)) := by
    refine ⟨_, rfl, hne, fun k ↦ (hrows k).trans ?_⟩
    by_cases hk : k = node
    · subst hk
      simp
    · simp [hk, Ne.symm hk]
  refine ⟨hmarked.readable hold, _, (hrows node).trans (if_pos rfl), ?_⟩
  cases hfind : db.nodes.find? node with
  | none => exact le_rfl
  | some row =>
      obtain ⟨q, hq⟩ := hold (by rw [hfind]; rfl)
      have hnull : row.lastSeen ≠ .null := by
        intro hnull
        rw [Db.syncGetLastSeen_str, hfind, Option.elim_some, hnull] at hq
        cases hq
      rw [NodeRow.marked, Option.elim_some]
      exact SqlValue.le_rank_max hnull hne

theorem alone_reportAt_all {ts : PyVal} {t now : ℚ} {fix : LocationFix}
    (hfix : reportedFix num request ts = .ok fix) (hts : fix.ts = .fin t)
    (haccepted : acceptedFix num request now = some fix)
    (hplain : (View.location request.from_).Plain ⟨fix, "report", none, none⟩)
    (hold : (s.db.nodes.find? request.from_).isSome → s.Readable num request.from_) :
    (reportAt num request ts).alone (handlesWell num) (fun _ ↦ True) s fun o s' ↦
      (∃ response, o = .ok response ∧ response.status = .ok) ∧ Delivered num request s s' := by
  rw [reportAt_ok hfix]
  simp only [StateAggregator.applyLocation, alone_bind, Prog.store, alone_await, alone_ofOutcome]
  refine ⟨trivial, fun r s₁ hupsert ↦ ?_⟩
  obtain ⟨hsent₁, now₁, a, rfl, hexec₁⟩ := handlesWell_write rfl hupsert
  refine ⟨trivial, fun r s₂ hmark ↦ ?_⟩
  obtain ⟨hsent₂, now₂, a, rfl, hexec₂⟩ := handlesWell_write rfl hmark
  have hradio : StateAggregator.noteRadio (.str request.from_) (.float fix.ts) none none =
      pure () :=
    rfl
  simp only [hradio, alone_pure, Prog.publish, alone_await, alone_ofOutcome]
  refine ⟨trivial, fun r s₃ hpublish ↦ ?_⟩
  obtain ⟨⟨rfl, hdb₃, hsent₃⟩, _⟩ := hpublish
  have hnodes := (StoreCall.exec_same hexec₁).nodes rfl
  rw [hts] at hexec₂
  obtain ⟨hseen, hrow⟩ := marked_at hexec₂ fun hknown ↦ by
    rw [hnodes] at hknown
    obtain ⟨q, hq⟩ := hold hknown
    exact ⟨q, by rw [Db.syncGetLastSeen_str, hnodes, ← Db.syncGetLastSeen_str, hq]⟩
  have hstored := View.exec_write (v := .location request.from_) (r := ⟨fix, "report", none, none⟩)
    hexec₁
  rw [View.kept_eq hplain] at hstored
  have hseen₃ : s₃.Readable num request.from_ := by
    rw [Site.Readable, hdb₃]
    exact hseen
  refine alone_mono (alone_republishState hseen₃) (fun _ h ↦ h) ?_
  rintro o s' ⟨rfl, hdb, payload, hsent⟩
  refine ⟨⟨_, rfl, rfl⟩, fix, now, t, payload, haccepted, hts, ?_, ?_, ?_⟩
  · have hsame := (StoreCall.exec_same hexec₂).nodeLocations rfl
    rw [hdb, hdb₃, ← hstored]
    simp only [View.stored, hsame]
  · rw [hdb, hdb₃]
    exact hrow
  · rw [hsent, hsent₃, hsent₂, hsent₁, List.append_assoc]
    rfl

theorem alone_report_all (hplaced : Placed request) (hwell : WellFormed request)
    (hfits : FixFits request)
    (hold : (s.db.nodes.find? request.from_).isSome → s.Readable num request.from_) :
    (nodeLocationReport num request).alone (handlesWell num) (fun _ ↦ True) s fun o s' ↦
      (∃ response, o = .ok response ∧ response.status = .ok) ∧ Delivered num request s s' := by
  have haccepted {fix : LocationFix} {now : ℚ}
      (hfix : reportedFix num request ((arg request "ts").or (.float (.fin now))) = .ok fix) :
      acceptedFix num request now = some fix := by
    rw [acceptedFix, if_pos (show _ ∧ _ ∧ _ from hplaced), hfix]
    rfl
  rw [nodeLocationReport_placed hplaced, alone_bind, orTime]
  by_cases htruthy : (arg request "ts").truthy = true
  · rw [if_pos htruthy]
    have hown (now : ℚ) : (arg request "ts").or (.float (.fin now)) = arg request "ts" :=
      if_pos htruthy
    obtain hnone | ⟨hfloatable, t, ht⟩ := hwell.optional "ts" (by simp)
    · rw [PyVal.truthy_of_isNone hnone] at htruthy
      cases htruthy
    obtain ⟨r, ht, _⟩ := @PyVal.toFloat_of_finite num _ _ hfloatable ht
    obtain ⟨fix, hfix, hts, hplain⟩ := reportedFix_of_wellFormed hplaced hwell hfits ht
    exact alone_reportAt_all hfix hts (haccepted ((hown 0).symm ▸ hfix)) hplain hold
  · rw [if_neg htruthy]
    refine ⟨trivial, fun now s₁ hclock ↦ ?_⟩
    obtain rfl := handles_time hclock.1
    have hread : (PyVal.float (.fin now)).toFloat num = .ok (.fin now) := rfl
    obtain ⟨fix, hfix, hts, hplain⟩ := reportedFix_of_wellFormed hplaced hwell hfits hread
    have hreading : (arg request "ts").or (.float (.fin now)) = .float (.fin now) :=
      if_neg htruthy
    exact alone_reportAt_all hfix hts (haccepted (hreading ▸ hfix)) hplain hold

theorem all_of_unstopped {ttlS : ℤ} {inner : Trace} {outcome : Except PyExc Response}
    (httl : 0 < ttlS) (hplaced : Placed request) (hwell : WellFormed request)
    (hfits : FixFits request)
    (hold : (s.db.nodes.find? request.from_).isSome → s.Readable num request.from_)
    (hsteps : Steps (waitFor ttlS (nodeLocationReport num request) letThrough) inner
      (ofOutcome outcome))
    (hpasses : Passes (handles num) s inner s') (hgoes : ∀ x ∈ inner, Unstopped x) :
    (∃ response, outcome = .ok response ∧ response.status = .ok) ∧ Delivered num request s s' := by
  have hraw := @alone_report_all num _ _ hplaced hwell hfits hold
  refine alone_sound (alone_waitFor (alone_anti hraw fun m y m' h ↦ ?_) (fun hnever ↦ ?_) ?_)
    hsteps (hpasses.restrict hgoes)
  · obtain ⟨hhandles, r, heq, hgood⟩ := h
    cases heq
    exact ⟨hhandles, hgood⟩
  · omega
  · rintro e m m' - ⟨_, r, hnone, _⟩
    cases hnone

/-! ## Some of it -/

theorem toFloat_other {v : PyVal} {err : PyExc} (h : v.toFloat num = .error err) :
    ∃ name, err = .other name := by
  cases v with
  | int n =>
      have h : floatOfInt n = .error err := h
      rw [floatOfInt] at h
      split at h
      · cases h
        exact ⟨_, rfl⟩
      · cases h
  | str text =>
      rw [PyVal.toFloat] at h
      cases hnumber : num.pythonFloat text with
      | some f =>
          rw [hnumber] at h
          cases h
      | none =>
          rw [hnumber] at h
          cases h
          exact ⟨_, rfl⟩
  | bool b => cases h
  | float f => cases h
  | _ =>
      cases h
      exact ⟨_, rfl⟩

theorem optFloat_other {v : PyVal} {err : PyExc} (h : optFloat v = .error err) :
    ∃ name, err = .other name := by
  cases v with
  | int n =>
      have h : (floatOfInt n).map some = .error err := h
      rw [floatOfInt] at h
      split at h
      · cases h
        exact ⟨_, rfl⟩
      · cases h
  | _ => cases h

theorem bind_error {ε α β : Type} {x : Except ε α} {f : α → Except ε β} {err : ε}
    (h : x >>= f = .error err) : x = .error err ∨ ∃ a, x = .ok a ∧ f a = .error err := by
  cases x with
  | error err' =>
      cases h
      exact .inl rfl
  | ok a => exact .inr ⟨a, rfl, h⟩

/-- What a conversion raises is answered as an internal error. -/
theorem reportedFix_other {ts : PyVal} {err : PyExc}
    (h : reportedFix num request ts = .error err) : ∃ name, err = .other name := by
  iterate 3
    obtain hraised | ⟨_, _, h⟩ := bind_error h
    · exact toFloat_other hraised
  iterate 4
    obtain hraised | ⟨_, _, h⟩ := bind_error h
    · exact optFloat_other hraised
  cases h

theorem exists_time (num : Numerals) (hplaced : Placed request) (s : Site) : ∃ ts pre,
    Passes (handles num) s pre s ∧
      (WellFormed request → ∃ t, ts.toFloat num = .ok (.fin t)) ∧
      ∀ done y, Steps (reportAt num request ts) done y →
        Steps (nodeLocationReport num request) (pre ++ done) y := by
  rw [nodeLocationReport_placed hplaced]
  cases htruthy : (arg request "ts").truthy with
  | true =>
      refine ⟨_, [], .nil s, fun hwell ↦ ?_, fun done y h ↦ orTime_steps_of_truthy htruthy h⟩
      obtain hnone | ⟨hfloatable, t, ht⟩ := hwell.optional "ts" (by simp)
      · rw [PyVal.truthy_of_isNone hnone] at htruthy
        cases htruthy
      · obtain ⟨r, hr, _⟩ := @PyVal.toFloat_of_finite num _ _ hfloatable ht
        exact ⟨r, hr⟩
  | false =>
      have hclock : handles num s ⟨.time, (0 : ℚ)⟩ s := ⟨rfl, 0, rfl, rfl⟩
      exact ⟨_, _, .cons hclock (.nil s), fun _ ↦ ⟨0, rfl⟩,
        fun done y h ↦ orTime_steps_of_falsy htruthy 0 h⟩

/-- A report with coordinates can be answered as an internal error, with nothing done. -/
theorem exists_internal (num : Numerals) (hplaced : Placed request) (s : Site) : ∃ done name,
    Steps (nodeLocationReport num request) done (.raise (.other name)) ∧
      Passes (handles num) s done s := by
  obtain ⟨ts, pre, hpre, _, hsteps⟩ := exists_time num hplaced s
  cases hfix : reportedFix num request ts with
  | error err =>
      obtain ⟨name, rfl⟩ := reportedFix_other hfix
      refine ⟨pre ++ [], name, hsteps [] _ (Steps.nil_iff.mpr (reportAt_error hfix)), ?_⟩
      rw [List.append_nil]
      exact hpre
  | ok fix =>
      have hfails : Steps (reportAt num request ts)
          [⟨.store (.upsertNodeLocation (.str request.from_) fix (some "report") none none),
            Except.error .operationalError⟩] (.raise .operationalError) := by
        rw [reportAt_ok hfix]
        exact Steps.answer (R := Eff.Answer)
          (.store (.upsertNodeLocation (.str request.from_) fix (some "report") none none)) _
          (Except.error .operationalError) (.refl _)
      refine ⟨_, "OperationalError", hsteps _ _ hfails, hpre.append (.cons ?_ (.nil s))⟩
      exact ⟨rfl, 0, .inr ⟨rfl, _, rfl, fun h ↦ by cases h⟩⟩

/-! ### Two writes and a publication -/

theorem bindReal_of_not_nan (num : Numerals) {f : PyFloat} (hf : f ≠ .nan) :
    ∃ v, bindReal num (.float f) = .ok v ∧ notNull v = .ok v := by
  cases f with
  | nan => exact absurd rfl hf
  | inf negative => exact ⟨_, rfl, rfl⟩
  | fin q => exact ⟨_, rfl, rfl⟩

theorem bindReal_optReal (num : Numerals) (o : Option PyFloat) :
    ∃ v, bindReal num (optReal o) = .ok v := by
  cases o with
  | none => exact ⟨_, rfl⟩
  | some f =>
      cases f with
      | nan => exact ⟨_, rfl⟩
      | inf negative => exact ⟨_, rfl⟩
      | fin q => exact ⟨_, rfl⟩

theorem exec_of_plain {fix : LocationFix} {node : String}
    (hplain : (View.location node).Plain ⟨fix, "report", none, none⟩) (now : ℚ) (db : Db) :
    ∃ db',
      (StoreCall.upsertNodeLocation (.str node) fix (some "report") none none).exec num now db =
      .ok (db', ()) := by
  obtain ⟨⟨hlat, hlon, hts⟩, _, hinteger⟩ := hplain
  simp only [List.forall_mem_cons] at hinteger
  obtain ⟨lat, hlat, hlat'⟩ := bindReal_of_not_nan num hlat
  obtain ⟨lon, hlon, hlon'⟩ := bindReal_of_not_nan num hlon
  obtain ⟨ts, hts, hts'⟩ := bindReal_of_not_nan num hts
  obtain ⟨alt, halt⟩ := bindReal_optReal num fix.alt
  obtain ⟨acc, hacc⟩ := bindReal_optReal num fix.acc
  obtain ⟨spd, hspd⟩ := bindReal_optReal num fix.spd
  obtain ⟨hdg, hhdg⟩ := bindReal_optReal num fix.hdg
  obtain ⟨integer, hfix⟩ : ∃ v, bindInteger num (optInteger fix.fix) = .ok v := by
    cases hn : fix.fix with
    | none => exact ⟨_, rfl⟩
    | some n =>
        have hbind : SqlValue.bind (.int n) = .ok (.integer n) := if_pos (hinteger.1 n hn)
        exact ⟨_, by rw [optInteger, bindInteger, hbind]; rfl⟩
  obtain ⟨db', hdb⟩ : ∃ db', (Stmt.upsertLocation (.str node) fix (some "report") none none).apply
      num db = .ok (db', 1) := by
    rw [Stmt.apply, nodeKey_str]
    simp only [hlat, hlat', hlon, hlon', hts, hts', halt, hacc, hspd, hhdg, hfix, Bind.bind,
      Except.bind]
    exact ⟨_, rfl⟩
  exact ⟨db', StoreCall.atomically_of_apply (f := fun _ ↦ ()) hdb⟩

theorem exec_mark (num : Numerals) (node : String) (t now : ℚ) (db : Db) :
    ∃ db', (StoreCall.markNodeSeen (.str node) (.float (.fin t))).exec num now db =
      .ok (db', ()) := by
  obtain ⟨db', hdb⟩ : ∃ db', (Stmt.upsertNode (.str node) (.float (.fin t))).apply num db =
      .ok (db', 1) := ⟨_, rfl⟩
  exact ⟨db', StoreCall.atomically_of_apply (f := fun _ ↦ ()) hdb⟩

def locationEff (request : Request) (fix : LocationFix) : Eff :=
  .publish (Topics.nodeLocationTopic request.from_)
    (compactJson ((View.location request.from_).body ⟨fix, "report", none, none⟩)) true

/-- Two writes go before it. -/
def writesOf (request : Request) (fix : LocationFix) : Trace :=
  [⟨.store (.upsertNodeLocation (.str request.from_) fix (some "report") none none), Except.ok ()⟩,
    ⟨.store (.markNodeSeen (.str request.from_) (.float fix.ts)), Except.ok ()⟩]

theorem applyLocation_steps (num : Numerals) (request : Request) (fix : LocationFix) :
    ∃ next : Eff.Answer (locationEff request fix) → Prog Unit,
      Steps (StateAggregator.applyLocation num (.str request.from_) fix "report" none none)
        (writesOf request fix) (.await (locationEff request fix) next) := by
  refine ⟨fun r ↦ (Coro.ofOutcome r : Prog Unit) >>= fun _ ↦
    StateAggregator.republishState num (.str request.from_), ?_⟩
  refine Steps.answer (R := Eff.Answer)
    (.store (.upsertNodeLocation (.str request.from_) fix (some "report") none none)) _
    (Except.ok ()) ?_
  exact Steps.answer (R := Eff.Answer) (.store (.markNodeSeen (.str request.from_) (.float fix.ts)))
    _ (Except.ok ()) (.refl _)

theorem exists_published (num : Numerals) (hplaced : Placed request) (hwell : WellFormed request)
    (hfits : FixFits request) (s : Site) : ∃ done e, ∃ next : Eff.Answer e → Prog Response, ∃ m s',
      Steps (nodeLocationReport num request) done (.await e next) ∧
        Passes (handles num) s done m ∧ (∃ r, e.Handles num r m s') ∧ s'.sent ≠ s.sent := by
  obtain ⟨ts, pre, hpre, hts, hsteps⟩ := exists_time num hplaced s
  obtain ⟨t, ht⟩ := hts hwell
  obtain ⟨fix, hfix, hfixTs, hplain⟩ := reportedFix_of_wellFormed hplaced hwell hfits ht
  obtain ⟨db₁, hexec₁⟩ := @exec_of_plain num _ _ hplain 0 s.db
  obtain ⟨db₂, hexec₂⟩ := exec_mark num request.from_ t 0 db₁
  obtain ⟨next, hnext⟩ := applyLocation_steps num request fix
  have hreport : Steps (reportAt num request ts) (writesOf request fix)
      (.await (locationEff request fix) next >>= fun _ ↦
        return Response.ok request [("ack", .bool true), ("ts", .float fix.ts)]) := by
    rw [reportAt_ok hfix]
    exact hnext.bind _
  have hfirst : handles num s ⟨.store (.upsertNodeLocation (.str request.from_) fix (some "report")
      none none), Except.ok ()⟩ ⟨db₁, s.sent⟩ := ⟨rfl, 0, .inl ⟨(), rfl, hexec₁⟩⟩
  have hsecond : handles num ⟨db₁, s.sent⟩ ⟨.store (.markNodeSeen (.str request.from_)
      (.float fix.ts)), Except.ok ()⟩ ⟨db₂, s.sent⟩ := by
    rw [hfixTs]
    exact ⟨rfl, 0, .inl ⟨(), rfl, hexec₂⟩⟩
  have hthird : (locationEff request fix).Handles num (Except.ok ()) ⟨db₂, s.sent⟩
      ⟨db₂, s.sent ++ [(Topics.nodeLocationTopic request.from_,
        compactJson ((View.location request.from_).body ⟨fix, "report", none, none⟩))]⟩ :=
    ⟨rfl, rfl, rfl⟩
  exact ⟨_, _, _, _, _, hsteps _ _ hreport,
    hpre.append (.cons hfirst (.cons hsecond (.nil _))), ⟨_, hthird⟩, by simp⟩

/-! ## All or nothing -/

theorem allOrNothing_of_all {ttlS : ℤ} {outcome : Except PyExc Response}
    (hanswered : ∃ response, outcome = .ok response ∧ response.status = .ok)
    (hall : Delivered num request s s') :
    AllOrNothing num request s s' ((Verdict.handled outcome).response request ttlS) := by
  obtain ⟨response, rfl, hok⟩ := hanswered
  have hnot : ¬ response.status = .error := by
    rw [hok]
    decide
  exact ⟨fun herr ↦ absurd herr hnot, fun herr ↦ absurd herr hnot, fun _ ↦ hall⟩

/-- A well-formed report is all or nothing when its first write fails or the TTL elapses
before it, and when nothing stops it. -/
theorem allOrNothing_of_stop {geo : Geo} {policy : TimeoutPolicy}
    (htype : request.type = "node.location.report") (hwell : WellFormed request)
    {tr : Trace} {response : Response} (h : Handled num geo policy request s s' tr response)
    (hstop : (∀ x ∈ handlerTrace tr, FailsFirst x) ∨
      ((s.db.nodes.find? request.from_).isSome → s.Readable num request.from_) ∧
        ∀ x ∈ handlerTrace tr, Unstopped x) : AllOrNothing num request s s' response := by
  obtain ⟨outcome, hsteps, rfl⟩ := h.outcome htype
  obtain hfails | ⟨hold, hgoes⟩ := hstop
  · obtain ⟨hsite, hfailed⟩ := nothing_of_failsFirst hsteps h.passes hfails
    exact allOrNothing_of_nothing hwell hsite hfailed
  · by_cases httl : policy.resolve request.type request.ttl ≤ 0
    · exact allOrNothing_of_never httl hsteps h.passes
    by_cases hplaced : Placed request
    · by_cases hfits : FixFits request
      · obtain ⟨hanswered, hall⟩ :=
          all_of_unstopped (not_le.mp httl) hplaced hwell hfits hold hsteps h.passes hgoes
        exact allOrNothing_of_all hanswered hall
      · obtain ⟨hsite, hfailed⟩ := nothing_of_unfit hsteps h.passes hfits
        exact allOrNothing_of_nothing hwell hsite hfailed
    · exact allOrNothing_of_refused hplaced hsteps h.passes

theorem passes_underTtl {ttlS : ℤ} {done : Trace} (h : Passes (handles num) s done s') :
    Passes (handles num) s (done.map (Ending.underTtl ttlS)) s' := by
  induction h with
  | nil s => exact .nil s
  | cons first rest ih => exact .cons first ih

/-- A report is all or nothing at every stop just when it has no time to start in, or is
refused, or the store never takes its fix. -/
theorem allOrNothing_iff (num : Numerals) (geo : Geo) (policy : TimeoutPolicy)
    (htype : request.type = "node.location.report") (s : Site) :
    (∀ s' tr response, Handled num geo policy request s s' tr response →
        AllOrNothing num request s s' response) ↔
      policy.resolve request.type request.ttl ≤ 0 ∨
        ¬ Placed request ∨ WellFormed request ∧ ¬ FixFits request := by
  constructor
  · intro h
    by_contra hnot
    rw [not_or, not_or, not_not, not_and, not_not, not_le] at hnot
    obtain ⟨httl, hplaced, hfits⟩ := hnot
    by_cases hwell : WellFormed request
    · obtain ⟨done, e, next, m, s', hsteps, hpasses, ⟨r, hr⟩, hsent⟩ :=
        exists_published num hplaced hwell (hfits hwell) s
      have hlast : handles num m ⟨.underTtl (policy.resolve request.type request.ttl) e, none⟩ s' :=
        .inr ⟨r, hr⟩
      obtain ⟨tr, _, hhandled⟩ := @exists_handled num geo policy request s s' htype _ _
        (.cut httl hsteps) ((passes_underTtl hpasses).append (.cons hlast (.nil _)))
      exact hsent ((h s' tr _ hhandled).nothing rfl).2
    · obtain ⟨done, name, hsteps, hpasses⟩ := exists_internal num hplaced s
      obtain ⟨tr, _, hhandled⟩ := @exists_handled num geo policy request s s htype _
        (.finished (.error (.other name))) (.finished httl _ hsteps) (passes_underTtl hpasses)
      exact (h s tr _ hhandled).blamed rfl hwell rfl
  · rintro hcase s' tr response hhandled
    obtain ⟨outcome, hsteps, rfl⟩ := hhandled.outcome htype
    obtain httl | hplaced | ⟨hwell, hunfit⟩ := hcase
    · exact allOrNothing_of_never httl hsteps hhandled.passes
    · exact allOrNothing_of_refused hplaced hsteps hhandled.passes
    · obtain ⟨hsite, hfailed⟩ := nothing_of_unfit hsteps hhandled.passes hunfit
      exact allOrNothing_of_nothing hwell hsite hfailed

/-- At every stop a report is all or nothing just when it has no time to start in, or is
refused, or the store never takes its fix; a well-formed one is whenever it stops at its
first write or earlier, or not at all. -/
theorem report_all_or_nothing (num : Numerals) (geo : Geo) (policy : TimeoutPolicy)
    (htype : request.type = "node.location.report") (s : Site) :
    ((∀ s' tr response, Handled num geo policy request s s' tr response →
        AllOrNothing num request s s' response) ↔
      policy.resolve request.type request.ttl ≤ 0 ∨
        ¬ Placed request ∨ WellFormed request ∧ ¬ FixFits request) ∧
    (WellFormed request → ∀ s' tr response, Handled num geo policy request s s' tr response →
      (∀ x ∈ handlerTrace tr, FailsFirst x) ∨
        ((s.db.nodes.find? request.from_).isSome → s.Readable num request.from_) ∧
          (∀ x ∈ handlerTrace tr, Unstopped x) → AllOrNothing num request s s' response) :=
  ⟨allOrNothing_iff num geo policy htype s, fun hwell _ _ _ h hstop ↦
    allOrNothing_of_stop htype hwell h hstop⟩

/-- A report from 1° north, 2° east, with the latitude and the `ts` given. -/
def reportFrom (lat : ℚ) (ts : PyVal) : Request :=
  { Request.simple "r1" "node.location.report" "node-a" length_r1 length_report length_nodeA with
    args := [("lat", .float (.fin lat)), ("lon", .float (.fin 2)), ("ts", ts)] }

theorem wellFormed_reportFrom : WellFormed (reportFrom 1 (.float (.fin 5))) := by
  have hfinite (q : ℚ) : (PyVal.float (.fin q)).IsFinite := ⟨rfl, q, rfl⟩
  refine ⟨?_, ?_, .inl rfl⟩
  · simp only [List.forall_mem_cons, List.not_mem_nil, false_implies, implies_true, and_true]
    exact ⟨hfinite 1, hfinite 2⟩
  · simp only [List.forall_mem_cons, List.not_mem_nil, false_implies, implies_true, and_true]
    exact ⟨.inr (hfinite 5), .inl rfl, .inl rfl, .inl rfl, .inl rfl⟩

/-- Answer an effect of the handler at a site where nothing fails. -/
def respondAt (e : Eff) (s : Site) : e.Answer × Site :=
  match e with
  | .publish topic payload _ => (.ok (), ⟨s.db, s.sent ++ [(topic, payload)]⟩)
  | e =>
    match e.respond .plain 1 (fun _ ↦ none) s.db with
    | (r, db) => (r, ⟨db, s.sent⟩)

def awaited : Eff → Site → Bool
  | .underTtl .., _ => false
  | .afterTtl _, _ => false
  | _, _ => true

theorem respondAt_handles (e : Eff) (s : Site) (h : awaited e s = true) :
    handles .plain s ⟨e, (respondAt e s).1⟩ (respondAt e s).2 := by
  cases e with
  | publish topic payload retain => exact ⟨rfl, rfl, rfl⟩
  | underTtl ttlS e => cases h
  | afterTtl e => cases h
  | store c => exact ⟨rfl, 1, respond_serves .plain 1 (.store c) s.db⟩
  | time => exact ⟨rfl, 1, rfl, rfl⟩
  | _ => exact ⟨rfl, 1, rfl⟩

/-- What the handler does with a report, and its outcome. -/
def reportTrace : Trace :=
  (nodeLocationReport .plain (reportFrom 1 (.float (.fin 5)))).exchanges respondAt ⟨Db.empty, []⟩

def reportOutcome : Except PyExc Response × Site :=
  (nodeLocationReport .plain (reportFrom 1 (.float (.fin 5)))).eval respondAt ⟨Db.empty, []⟩

/-- A report from beyond the pole is refused, whatever stops it; one that nothing stops
is answered, and delivered. -/
theorem reports_all_or_nothing :
    (∀ s' tr response, Handled .plain noGeo {} (reportFrom 91 .none) ⟨Db.empty, []⟩ s' tr response →
      AllOrNothing .plain (reportFrom 91 .none) ⟨Db.empty, []⟩ s' response) ∧
    ∃ tr response, Handled .plain noGeo {} (reportFrom 1 (.float (.fin 5))) ⟨Db.empty, []⟩
        reportOutcome.2 tr response ∧
      AllOrNothing .plain (reportFrom 1 (.float (.fin 5))) ⟨Db.empty, []⟩ reportOutcome.2
        response := by
  have hrefused : ¬ Placed (reportFrom 91 .none) := fun h ↦ absurd h.2.1 (by decide)
  refine ⟨(report_all_or_nothing .plain noGeo {} rfl ⟨Db.empty, []⟩).1.mpr
    (.inr (.inl hrefused)), ?_⟩
  have hpasses : Passes (handles .plain) ⟨Db.empty, []⟩ reportTrace reportOutcome.2 :=
    passes_exchanges respondAt_handles (by decide +kernel)
  obtain ⟨tr, htrace, hhandled⟩ := @exists_handled .plain noGeo {}
    (reportFrom 1 (.float (.fin 5))) ⟨Db.empty, []⟩ reportOutcome.2 rfl _
    (.finished reportOutcome.1) (.finished (by decide) _ (steps_exchanges _ _))
      (passes_underTtl hpasses)
  have hraises : reportTrace.all (fun y ↦ (y.1.raised? y.2).isNone) = true := by decide +kernel
  have hgoes (x : Exchange Eff.Answer) (hx : x ∈ handlerTrace tr) : Unstopped x := by
    rw [htrace] at hx
    obtain ⟨y, hy, rfl⟩ := List.mem_map.mp hx
    exact ⟨y.2, rfl, fun c _ _ ↦ Option.isNone_iff_eq_none.mp (List.all_eq_true.mp hraises y hy)⟩
  have hnew (h : (Db.empty.nodes.find? "node-a").isSome) :
      Site.Readable .plain ⟨Db.empty, []⟩ "node-a" := by cases h
  exact ⟨tr, _, hhandled, (report_all_or_nothing .plain noGeo {} rfl ⟨Db.empty, []⟩).2
    wellFormed_reportFrom _ tr _ hhandled (.inr ⟨hnew, hgoes⟩)⟩

/-- A report whose TTL elapses while it publishes is answered with an error, and has
written and published. -/
theorem timed_out_published : ∃ s' tr response,
    Handled .plain noGeo {} (reportFrom 1 (.float (.fin 5))) ⟨Db.empty, []⟩ s' tr response ∧
      response.status = .error ∧ s'.sent ≠ [] ∧
        ¬ AllOrNothing .plain (reportFrom 1 (.float (.fin 5))) ⟨Db.empty, []⟩ s' response := by
  have hplaced : Placed (reportFrom 1 (.float (.fin 5))) := ⟨⟨rfl, rfl⟩, by decide, by decide⟩
  obtain ⟨done, e, next, m, s', hsteps, hpasses, ⟨r, hr⟩, hsent⟩ := exists_published .plain hplaced
    wellFormed_reportFrom (fun n hn ↦ by cases hn) ⟨Db.empty, []⟩
  have hlast : handles .plain m ⟨.underTtl (TimeoutPolicy.resolve {} "node.location.report" none) e,
      none⟩ s' := .inr ⟨r, hr⟩
  obtain ⟨tr, _, hhandled⟩ :=
    @exists_handled .plain noGeo {} (reportFrom 1 (.float (.fin 5))) ⟨Db.empty, []⟩ s'
    rfl _ _ (.cut (by decide) hsteps) ((passes_underTtl hpasses).append (.cons hlast (.nil _)))
  exact ⟨s', tr, _, hhandled, rfl, hsent, fun h ↦ hsent (h.nothing rfl).2⟩

end Handlers

end Calls

end MeshcoreRpc
