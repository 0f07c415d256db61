import MeshcoreRpc.Nodes.Retained

/-!
# Which operations refresh the retained state

Completed operations one after the other.  A fresh request moves the
`last_seen` of its sender, and only a location report publishes afterwards.
-/

namespace MeshcoreRpc

open Tables Coroutine Coro

/-- The clock reading an exchange is. -/
def Eff.clock? : (e : Eff) → e.Answer → Option ℚ
  | .time, t => some t
  | .underTtl _ e, some r => e.clock? r
  | .afterTtl e, r => e.clock? r
  | _, _ => none

/-- The exchange is no timeout. -/
def Eff.InTime : (e : Eff) → e.Answer → Prop
  | .underTtl _ _, none => False
  | _, _ => True

def Db.Unmoved (num : Numerals) (db : Db) (node : String) (ts : PyVal) : Prop :=
  ∃ row, db.nodes.find? node = some row ∧
    ∀ seen, bindReal num ts = .ok seen → row.lastSeen.max seen = row.lastSeen

section Report

open Handlers

variable {num : Numerals} {request : Request} {P : Exchange Eff.Answer → Prop} {s s₀ : Stage}

/-- The fix the location report handler makes of a request at the time `now`, unless
it refuses the request. -/
def acceptedFix (num : Numerals) (request : Request) (now : ℚ) : Option LocationFix :=
  if ((arg request "lat").isNumber ∧ (arg request "lon").isNumber) ∧
      (arg request "lat").between (-90) 90 ∧ (arg request "lon").between (-180) 180 then
    (reportedFix num request ((arg request "ts").or (.float (.fin now)))).toOption
  else none

/-- A location report that is accepted and carries a finite time. -/
def ReportsFix (num : Numerals) (request : Request) : Prop :=
  request.type = "node.location.report" ∧
    ∀ now, ∃ fix q, acceptedFix num request now = some fix ∧ fix.ts = .fin q

theorem alone_require {W : Reaction Stage Eff.Answer} {I : Stage → Prop} {c : Prop} [Decidable c]
    {err : PyExc} {Q : Except PyExc Unit → Stage → Prop} :
    (require c err).alone W I s Q ↔ (c → Q (.ok ()) s) ∧ (¬ c → Q (.error err) s) := by
  unfold require
  by_cases hc : c
  · simp [hc]
  · simp [hc]

theorem alone_nodeLocationReport {I Inv : Stage → Prop} (hI : I s)
    (hrefused : ∀ now, acceptedFix num request now = none → Inv s)
    (haccepted : ∀ now fix, ((arg request "ts").truthy = true ∨ P ⟨.time, now⟩) →
      acceptedFix num request now = some fix →
      (StateAggregator.applyLocation num (.str request.from_) fix "report" none none).alone
        (performsWhere num P) I s fun _ s' ↦ Inv s') :
    (nodeLocationReport num request).alone (performsWhere num P) I s fun _ s' ↦ Inv s' := by
  rw [nodeLocationReport, alone_bind, alone_require]
  refine ⟨fun hnumbers ↦ ?_, fun hnot ↦ hrefused 0 (if_neg fun h ↦ hnot h.1)⟩
  change (require _ _ >>= _).alone _ _ _ _
  rw [alone_bind, alone_require]
  refine ⟨fun hrange ↦ ?_, fun hnot ↦ hrefused 0 (if_neg fun h ↦ hnot h.2)⟩
  have hfix (now : ℚ) (o : Except PyExc LocationFix)
      (ho : reportedFix num request ((arg request "ts").or (.float (.fin now))) = o) :
      acceptedFix num request now = o.toOption := by
    rw [acceptedFix, if_pos ⟨hnumbers, hrange⟩, ho]
  have hrest (now : ℚ) (hheard : (arg request "ts").truthy = true ∨ P ⟨.time, now⟩) :
      (do
        let fix ← .ofOutcome
          (reportedFix num request ((arg request "ts").or (.float (.fin now))))
        StateAggregator.applyLocation num (.str request.from_) fix "report" none none
        return Response.ok request [("ack", .bool true), ("ts", .float fix.ts)] :
        Prog Response).alone (performsWhere num P) I s fun _ s' ↦ Inv s' := by
    cases hreported : reportedFix num request ((arg request "ts").or (.float (.fin now))) with
    | error err => exact hrefused now (hfix now _ hreported)
    | ok fix =>
        simp only [alone_bind, alone_ofOutcome]
        refine alone_mono (haccepted now fix hheard (hfix now _ hreported)) (fun _ h ↦ h) ?_
        rintro (err | a) s' h
        · exact h
        · exact h
  change (orTime _ >>= _).alone _ _ _ _
  rw [alone_bind, orTime]
  by_cases htruthy : (arg request "ts").truthy = true
  · rw [if_pos htruthy, alone_pure]
    have h := hrest 0 (.inl htruthy)
    rwa [PyVal.or, if_pos htruthy] at h
  · rw [if_neg htruthy]
    refine ⟨hI, fun now s' hW ↦ ?_⟩
    obtain ⟨hclock, hP⟩ := hW
    cases hclock
    have h := hrest now (.inr hP)
    rwa [PyVal.or, if_neg htruthy] at h

/-! ## Reports that publish -/

theorem nodeLocationReport_publishes (hreport : ReportsFix num request)
    (hbut : s.CurrentBut num request.from_) (hread : s.Readable num request.from_) :
    (nodeLocationReport num request).alone (performsWhere num P) (fun _ ↦ True) s
      fun _ s' ↦ s'.AllCurrent num := by
  refine alone_nodeLocationReport trivial (fun now hnone ↦ ?_) fun now fix _ hsome ↦ ?_
  · obtain ⟨fix, q, hfix, _⟩ := hreport.2 now
    rw [hnone] at hfix
    cases hfix
  · obtain ⟨fix', q, hfix, hts⟩ := hreport.2 now
    obtain rfl : fix = fix' := Option.some_injective _ (hsome.symm.trans hfix)
    refine alone_mono (StateAggregator.applyLocation_spec hbut) (fun _ h ↦ h) ?_
    rintro o s' ⟨hmarked, ⟨_, hall⟩ | ⟨_, hnot⟩⟩
    · exact hall
    · rw [hts] at hmarked
      exact absurd (hmarked.readable fun _ ↦ hread) hnot

/-! ## Marks that move nothing -/

/-- The rows of `s₀`, all with their state published. -/
def Stage.Steady (num : Numerals) (s₀ s : Stage) : Prop :=
  (∀ k, s.db.nodes.find? k = s₀.db.nodes.find? k) ∧ s.AllCurrent num

theorem Stage.Steady.sameSummary {s' : Stage} (h : s₀.Steady num s) (hsame : s.SameSummary s') :
    s₀.Steady num s' := by
  refine ⟨fun k ↦ ?_, hsame.allCurrent h.2⟩
  rw [hsame.1]
  exact h.1 k

theorem Stage.Steady.marked {s' : Stage} {node : String} {ts : PyVal} (h : s₀.Steady num s)
    (hmarked : s.Marked num s' node ts) (hlast : s'.last = s.last)
    (hunmoved : s₀.db.Unmoved num node ts) : s₀.Steady num s' := by
  obtain ⟨seen, hseen, _, hrows⟩ := hmarked
  obtain ⟨row, hrow, hmax⟩ := hunmoved
  have hkept (k : String) : s'.db.nodes.find? k = s.db.nodes.find? k := by
    rw [hrows]
    by_cases hk : k = node
    · subst hk
      have hkey : row.nodeId = k := Table.key_of_find? hrow
      rw [if_pos rfl, h.1, hrow, NodeRow.marked, Option.elim_some, hmax seen hseen, ← hkey]
    · rw [if_neg hk]
  refine ⟨fun k ↦ (hkept k).trans (h.1 k), fun n hn ↦ ?_⟩
  rw [hkept] at hn
  exact (h.2 n hn).congr (hkept n) (by rw [hlast])

theorem applyLocation_steady {node : String} {fix : LocationFix} {source : String}
    {rssi : Option ℤ} {snr : Option PyFloat} (hs : s₀.Steady num s)
    (hunmoved : s₀.db.Unmoved num node (.float fix.ts)) :
    (StateAggregator.applyLocation num (.str node) fix source rssi snr).alone
      (performsWhere num P) (s₀.Steady num) s fun _ s' ↦ s₀.Steady num s' := by
  simp only [StateAggregator.applyLocation, alone_bind, Prog.store, alone_await, alone_ofOutcome]
  refine ⟨hs, fun r s₁ hW ↦ ?_⟩
  obtain ⟨⟨_, rfl⟩, hsame⟩ := performed_write rfl rfl hW.1
  have hs₁ := hs.sameSummary hsame
  refine ⟨hs₁, fun r s₂ hW ↦ ?_⟩
  obtain ⟨rfl, hmarked, hlast⟩ := performed_mark hW.1
  have hs₂ := hs₁.marked hmarked hlast hunmoved
  have hknown := hmarked.isSome
  refine StateAggregator.alone_noteRadio hs₂ ?_
  simp only [Prog.publish, alone_await, alone_ofOutcome]
  refine ⟨hs₂, fun r s₃ hW ↦ ?_⟩
  obtain ⟨rfl, hsame'⟩ := StateAggregator.performed_publish (notState_location _) hW.1
  have hs₃ := hs₂.sameSummary hsame'
  rw [← hsame'.1] at hknown
  refine alone_mono (StateAggregator.republishState_spec hs₃ hknown (hs₃.2.currentBut node))
    (fun _ h ↦ h) ?_
  rintro o s' (⟨_, _, hdb, hall⟩ | ⟨_, rfl, _⟩)
  · exact ⟨fun k ↦ by rw [hdb, hs₃.1], hall⟩
  · exact hs₃

/-- At the clock reading `t`, neither the mark of the request nor the fix it reports
moves the `last_seen` of its sender. -/
def QuietAt (num : Numerals) (db : Db) (request : Request) (t : ℚ) : Prop :=
  db.Unmoved num request.from_ (.float (.fin t)) ∧
    (request.type = "node.location.report" →
      ∀ fix, acceptedFix num request t = some fix → db.Unmoved num request.from_ (.float fix.ts))

/-- A time of its own makes a report the same at every clock reading. -/
theorem acceptedFix_truthy (htruthy : (arg request "ts").truthy = true) (t t' : ℚ) :
    acceptedFix num request t = acceptedFix num request t' := by
  simp only [acceptedFix, PyVal.or, if_pos htruthy]

theorem nodeLocationReport_steady {t : ℚ} (hs : s₀.Steady num s)
    (htype : request.type = "node.location.report") (hquiet : QuietAt num s₀.db request t)
    (hP : ∀ now, P ⟨.time, now⟩ → QuietAt num s₀.db request now) :
    (nodeLocationReport num request).alone (performsWhere num P) (s₀.Steady num) s
      fun _ s' ↦ s₀.Steady num s' := by
  refine alone_nodeLocationReport hs (fun _ _ ↦ hs) fun now fix hheard hsome ↦ ?_
  refine applyLocation_steady hs ?_
  rcases hheard with htruthy | hnow
  · exact hquiet.2 htype fix ((acceptedFix_truthy htruthy t now).trans hsome)
  · exact (hP now hnow).2 htype fix hsome

theorem performed_clock {e : Eff} {r : e.Answer} {t : ℚ} {s' : Stage} (h : e.clock? r = some t)
    (hperformed : e.Performed num r s s') : s' = s := by
  induction e with
  | time => exact hperformed
  | underTtl ttlS e ih =>
      cases r with
      | none => cases h
      | some r => exact ih h hperformed
  | afterTtl e ih => exact ih h hperformed
  | _ => cases h

end Report

/-! ## The pipeline -/

section Calls

variable {num : Numerals} {geo : Geo} {policy : TimeoutPolicy} {request : Request}
  {s s' s₀ : Stage} {tr : Trace}

theorem processRequest_publishes (hall : s.AllCurrent num) (hreport : ReportsFix num request)
    (httl : 0 < policy.resolve request.type request.ttl) :
    (processRequest policy (Handlers.defaultRouter num geo) request).alone
      (performsWhere num fun x ↦ x.1.InTime x.2) (fun _ ↦ True) s fun _ s' ↦ s'.AllCurrent num := by
  let B (s : Stage) : Prop := s.CurrentBut num request.from_ ∧ s.Readable num request.from_
  have hB (s s' : Stage) (hsame : s.SameSummary s') (h : B s) : B s' := by
    obtain ⟨hbut, q, hq⟩ := h
    refine ⟨hsame.currentBut hbut, q, ?_⟩
    rwa [Db.syncGetLastSeen_str, hsame.1, ← Db.syncGetLastSeen_str]
  refine processRequest_alone (fun _ _ ↦ Stage.SameSummary.allCurrent) hB hall ?_ ?_ ?_
  · intro _ s₁ t s₂ hall₁ _ _ hmark
    obtain ⟨_, hmarked, hlast⟩ := performed_mark hmark
    refine ⟨hmarked.currentBut hlast (hall₁.currentBut _), hmarked.readable fun hrow ↦ ?_⟩
    obtain ⟨_, q, _, hq, _⟩ := hall₁ _ hrow
    exact ⟨q, hq⟩
  · intro s₂ _ hnone
    rw [hreport.1] at hnone
    cases hnone
  · intro s₂ handler hb hrouter
    rw [Handlers.defaultRouter_timed_eq num geo hrouter]
    rw [hreport.1] at hrouter
    rw [Handlers.resolve_report num geo hrouter]
    refine alone_waitFor (alone_mono (nodeLocationReport_publishes hreport hb.1 hb.2)
      (fun _ h ↦ h) fun _ _ h ↦ h) (fun hnever ↦ by omega) ?_
    rintro e s s' - ⟨-, hlate⟩
    exact hlate.elim

/-- A request whose marks move nothing leaves every state current. -/
theorem processRequest_steady (hs : s₀.Steady num s) :
    (processRequest policy (Handlers.defaultRouter num geo) request).alone
      (performsWhere num fun x ↦ ∀ t, x.1.clock? x.2 = some t → QuietAt num s₀.db request t)
      (fun _ ↦ True) s fun _ s' ↦ s₀.Steady num s' := by
  let B (s : Stage) : Prop := s₀.Steady num s ∧ ∃ t, QuietAt num s₀.db request t
  have hsame (s s' : Stage) (h : s.SameSummary s') (hs : s₀.Steady num s) : s₀.Steady num s' :=
    hs.sameSummary h
  refine processRequest_alone hsame (fun s s' h hb ↦ (⟨hsame s s' h hb.1, hb.2⟩ : B s')) hs ?_
    (fun _ hb _ ↦ hb.1) ?_
  · intro _ s₁ t s₂ hs₁ _ hquiet hmark
    obtain ⟨_, hmarked, hlast⟩ := performed_mark hmark
    exact ⟨hs₁.marked hmarked hlast (hquiet t rfl).1, t, hquiet t rfl⟩
  · rintro s₂ handler ⟨hs₂, t, hquiet⟩ hrouter
    rw [Handlers.defaultRouter_timed_eq num geo hrouter]
    by_cases htype : request.type = "node.location.report"
    · rw [htype] at hrouter
      rw [Handlers.resolve_report num geo hrouter]
      have hsteady := nodeLocationReport_steady
        (P := fun x ↦ ∀ t, x.1.clock? x.2 = some t → QuietAt num s₀.db request t) hs₂ htype hquiet
        fun now h ↦ h now rfl
      refine alone_mono (alone_waitFor_keeps hsteady (fun e r s s' hW ↦ hW) ?_)
        (fun _ _ ↦ trivial) fun _ _ h ↦ h
      rintro e s s' ⟨rfl | ⟨r, hperformed⟩, -⟩
      · exact .inl rfl
      · cases hclock : e.clock? r with
        | none => exact .inr ⟨r, hperformed, fun t ht ↦ by rw [hclock] at ht; cases ht⟩
        | some t => exact .inl (performed_clock hclock hperformed)
    · refine alone_mono (alone_waitFor_reads
        (Handlers.defaultRouter_reads num geo hrouter htype request)) (fun _ _ ↦ trivial) ?_
      rintro o s' rfl
      exact hs₂

theorem processRequest_known (hall : s.AllCurrent num)
    (hknown : (s.db.requests.find? request.key).isSome) :
    (processRequest policy (Handlers.defaultRouter num geo) request).alone
      (performsWhere num fun _ ↦ True) (fun _ ↦ True) s fun _ s' ↦ s'.AllCurrent num := by
  refine processRequest_alone (B := fun _ ↦ False) (fun _ _ ↦ Stage.SameSummary.allCurrent)
    (fun _ _ _ h ↦ h) hall ?_ (fun _ h ↦ h.elim) fun _ _ h ↦ h.elim
  intro hfree
  rw [hfree] at hknown
  cases hknown

end Calls

/-! ## Runs of operations -/

/-- The operations that move `last_seen`. -/
inductive Operation where
  | processRequest (request : Request)
  | applySeen (node : String) (ts : PyVal) (rssi : Option ℤ) (snr : Option PyFloat)
  | applyLocation (node : String) (fix : LocationFix) (source : String) (rssi : Option ℤ)
      (snr : Option PyFloat)
  | applyBattery (node : String) (ts pct voltage : PyVal) (source : String)

section Runs

variable (num : Numerals) (geo : Geo) (policy : TimeoutPolicy)

def Operation.prog : Operation → Prog Unit
  | processRequest request =>
    MeshcoreRpc.processRequest policy (Handlers.defaultRouter num geo) request
  | applySeen node ts rssi snr => StateAggregator.applySeen num (.str node) ts rssi snr
  | applyLocation node fix source rssi snr =>
    StateAggregator.applyLocation num (.str node) fix source rssi snr
  | applyBattery node ts pct voltage source =>
    StateAggregator.applyBattery num (.str node) ts pct voltage source

/-- The operation returns, and takes the stage from `s` to `s'`. -/
def Completes (op : Operation) (s : Stage) (tr : Trace) (s' : Stage) : Prop :=
  Steps (op.prog num geo policy) tr (ofOutcome (.ok ())) ∧ Passes (performs num) s tr s'

/-- The stages that completed operations reach from an empty registry, when each of
them meets a condition. -/
inductive Ran (Meets : Operation → Stage → Trace → Prop) : Stage → Prop
  | start (s : Stage) (h : ∀ n, s.db.nodes.find? n = none) : Ran Meets s
  | next {s s' : Stage} {op : Operation} {tr : Trace} (before : Ran Meets s)
      (run : Completes num geo policy op s tr s') (meets : Meets op s tr) : Ran Meets s'

/-- A request is known, or an accepted location report in time, or moves nothing. -/
def RequestToldOf (request : Request) (s : Stage) (tr : Trace) : Prop :=
  (s.db.requests.find? request.key).isSome ∨
    (ReportsFix num request ∧ 0 < policy.resolve request.type request.ttl ∧
      ∀ x ∈ tr, x.1.InTime x.2) ∨
      ∀ x ∈ tr, ∀ t, x.1.clock? x.2 = some t → QuietAt num s.db request t

/-- The operation is no request that moves `last_seen` and publishes no state. -/
def Told : Operation → Stage → Trace → Prop
  | .processRequest request, s, tr => RequestToldOf num policy request s tr
  | _, _, _ => True

variable {num geo policy}

theorem Completes.allCurrent {op : Operation} {s s' : Stage} {tr : Trace}
    (hrun : Completes num geo policy op s tr s') (htold : Told num policy op s tr)
    (hall : s.AllCurrent num) : s'.AllCurrent num := by
  obtain ⟨hsteps, hpasses⟩ := hrun
  have happlied {node : String} {ts : PyVal} {s' : Stage}
      (h : StateAggregator.Applied num node ts s (.ok ()) s') : s'.AllCurrent num := by
    rcases h.2 with ⟨_, hall⟩ | ⟨hne, _⟩
    · exact hall
    · exact absurd rfl hne
  have hfree := hpasses.restrict (P := fun _ ↦ True) fun _ _ ↦ trivial
  cases op with
  | applySeen node ts rssi snr =>
      exact happlied (alone_sound (StateAggregator.applySeen_spec hall) hsteps hfree)
  | applyLocation node fix source rssi snr =>
      exact happlied
        (alone_sound (StateAggregator.applyLocation_spec (hall.currentBut node)) hsteps hfree)
  | applyBattery node ts pct voltage source =>
      exact happlied
        (alone_sound (StateAggregator.applyBattery_spec (hall.currentBut node)) hsteps hfree)
  | processRequest request =>
      rcases htold with hknown | ⟨hreport, httl, hintime⟩ | hquiet
      · exact alone_sound (processRequest_known hall hknown) hsteps hfree
      · exact alone_sound (processRequest_publishes hall hreport httl) hsteps
          (hpasses.restrict hintime)
      · exact (alone_sound (processRequest_steady ⟨fun _ ↦ rfl, hall⟩) hsteps
          (hpasses.restrict hquiet)).2

/-- Where every request that moves `last_seen` is an accepted report in time, the
retained state of every node tells its `last_seen`. -/
theorem states_told {s : Stage} (h : Ran num geo policy (Told num policy) s) :
    s.AllCurrent num := by
  induction h with
  | start s hempty =>
      intro n hn
      rw [hempty] at hn
      cases hn
  | next before hrun htold ih => exact hrun.allCurrent htold ih

end Runs

/-! ## Two operations -/

/-- Nothing stored, nothing published. -/
def Stage.blank : Stage := ⟨Db.empty, fun _ ↦ none⟩

def noGeo : Geo := ⟨fun _ _ _ _ ↦ .ok .nan, fun _ _ _ _ ↦ .ok .nan⟩

def Stage.lastAfter (s : Stage) : Eff → String → Option (List (String × PyVal))
  | .publish topic payload _ => Function.update s.last topic (some payload)
  | .underTtl _ e => s.lastAfter e
  | .afterTtl e => s.lastAfter e
  | _ => s.last

/-- One answer to every effect, at the time 0. -/
def Stage.respond (e : Eff) (s : Stage) : e.Answer × Stage :=
  ((e.respond .plain 0 (fun _ ↦ none) s.db).1,
    ⟨(e.respond .plain 0 (fun _ ↦ none) s.db).2, s.lastAfter e⟩)

def Stage.succeeds : Eff → Stage → Bool
  | .store c, s => (c.exec .plain 0 s.db).isOk
  | .underTtl _ e, s => succeeds e s
  | .afterTtl e, s => succeeds e s
  | _, _ => true

theorem respond_performed (e : Eff) (s : Stage) (h : Stage.succeeds e s = true) :
    performs .plain s ⟨e, (Stage.respond e s).1⟩ (Stage.respond e s).2 := by
  induction e with
  | store c =>
      refine ⟨rfl, 0, ?_⟩
      simp only [Stage.succeeds] at h
      simp only [Stage.respond, Eff.respond]
      cases hexec : c.exec .plain 0 s.db with
      | error err =>
          rw [hexec] at h
          cases h
      | ok out => exact .inl ⟨_, rfl, rfl⟩
  | publish topic payload retain => exact ⟨rfl, rfl, rfl⟩
  | underTtl ttlS e ih => exact ih h
  | afterTtl e ih => exact ih h
  | _ => rfl

theorem completes_respond {geo : Geo} {policy : TimeoutPolicy} {op : Operation} {s : Stage}
    (h : (op.prog .plain geo policy).meets Stage.respond Stage.succeeds s = true)
    (hok : ((op.prog .plain geo policy).eval Stage.respond s).1 = .ok ()) :
    Completes .plain geo policy op s ((op.prog .plain geo policy).exchanges Stage.respond s)
      ((op.prog .plain geo policy).eval Stage.respond s).2 := by
  refine ⟨?_, passes_exchanges respond_performed h⟩
  rw [← hok]
  exact steps_exchanges _ _

theorem respond_inTime (e : Eff) (s : Stage) : e.InTime (Stage.respond e s).1 := by
  cases e <;> exact trivial

theorem length_report : FieldLength "node.location.report" := by decide

def sampleReport : Request :=
  { Request.simple "r1" "node.location.report" "node-a" length_r1 length_report length_nodeA with
    args := [("lat", .float (.fin 1)), ("lon", .float (.fin 2)), ("ts", .float (.fin 5))] }

/-- The request, processed alone. -/
def Stage.served (request : Request) : Stage :=
  ((Operation.prog .plain noGeo {} (.processRequest request)).eval respond .blank).2

theorem report_told : ((Stage.served sampleReport).db.nodes.find? "node-a").isSome = true ∧
    (Stage.served sampleReport).AllCurrent .plain := by
  refine ⟨by decide +kernel, ?_⟩
  have hrun : Completes .plain noGeo {} (.processRequest sampleReport) .blank _ _ :=
    completes_respond (by decide +kernel) (by decide +kernel)
  have hreport : ReportsFix .plain sampleReport := ⟨rfl, fun now ↦ ⟨_, _, rfl, rfl⟩⟩
  exact states_told (.next (.start _ fun _ ↦ rfl) hrun
    (.inr (.inl ⟨hreport, by decide, forall_exchanges respond_inTime⟩)))

/-- After a ping its sender is known and no state of it published. -/
theorem ping_untold : ∃ s, Ran .plain noGeo {} (fun _ _ _ ↦ True) s ∧ ¬ s.AllCurrent .plain := by
  have hrun : Completes .plain noGeo {} (.processRequest samplePing) .blank _ _ :=
    completes_respond (by decide +kernel) (by decide +kernel)
  refine ⟨_, .next (.start _ fun _ ↦ rfl) hrun trivial, fun hall ↦ ?_⟩
  obtain ⟨payload, _, hpayload, _⟩ := hall "node-a" (by decide +kernel)
  cases hpayload

end MeshcoreRpc
