import MeshcoreRpc.Nodes.Refresh
import MeshcoreRpc.Transport.Service

/-!
# The timestamps the service records

`last_seen` and the time of a location come from requests, location reports and
the events of the gateway.  Each is a reading of the clock, or a value that the
message carries.
-/

namespace MeshcoreRpc

open Tables Coroutine Coro Interleaving

/-- The node and the time of `mark_node_seen`. -/
def Eff.marks? : Eff → Option (PyVal × PyVal)
  | .store (.markNodeSeen nodeId ts) => some (nodeId, ts)
  | .underTtl _ e => e.marks?
  | .afterTtl e => e.marks?
  | _ => none

/-- The node and the time a write to `nodes` or `node_locations` records. -/
def Eff.stamps? : Eff → Option (PyVal × PyVal)
  | .store (.markNodeSeen nodeId ts) => some (nodeId, ts)
  | .store (.upsertNodeLocation nodeId fix ..) => some (nodeId, .float fix.ts)
  | .underTtl _ e => e.stamps?
  | .afterTtl e => e.stamps?
  | _ => none

theorem Eff.stamps_of_marks {e : Eff} {nodeId ts : PyVal} (h : e.marks? = some (nodeId, ts)) :
    e.stamps? = some (nodeId, ts) := by
  induction e with
  | store c =>
      cases c with
      | markNodeSeen => exact h
      | _ => cases h
  | underTtl ttlS e ih => exact ih h
  | afterTtl e ih => exact ih h
  | _ => cases h

theorem Eff.Reads.stamps {e : Eff} (he : e.Reads) : e.stamps? = none := by
  cases e with
  | store c =>
      cases c with
      | countByFinalState | countPending | getLastSeen | getNodeLocation | getNodeBattery
      | getBaseState => rfl
      | _ => cases he
  | time | getGatewaySnapshot | getRadio => rfl
  | _ => exact he.elim

/-! ## What the messages carry -/

namespace Transport

/-- The node an event names. -/
def eventNode (kvs : List (String × PyVal)) : PyVal :=
  (getKey kvs "pubkey").or (getKey kvs "node_id")

/-- A battery or telemetry event with a node. -/
structure IsEvent (loads : Loads) (msg : Message) (kvs : List (String × PyVal)) : Prop where
  topic : msg.topic = batteryTopic ∨ msg.topic = telemetryTopic
  json : safeJson loads msg.payload = .ok (.dict kvs)
  node : (eventNode kvs).truthy = true

end Transport

open Transport in
/-- The message is from or about the node. -/
inductive Message.About (loads : Loads) (msg : Message) : PyVal → Prop
  | direct (h : Topics.startsWith msg.topic directPrefix = true) :
      About loads msg (.str (Topics.dropPrefix msg.topic directPrefix))
  | event (kvs : List (String × PyVal)) (h : IsEvent loads msg kvs) :
      About loads msg (eventNode kvs)

/-- The message carries the time for the node. -/
def Message.Carries (loads : Loads) (msg : Message) (nodeId ts : PyVal) : Prop :=
  ∃ kvs, Transport.IsEvent loads msg kvs ∧ nodeId = Transport.eventNode kvs ∧
    (getKey kvs "ts").truthy = true ∧ ts = getKey kvs "ts"

/-- The request is an accepted location report with a time of its own. -/
def Request.Carries (num : Numerals) (request : Request) (nodeId ts : PyVal) : Prop :=
  request.type = "node.location.report" ∧ nodeId = .str request.from_ ∧
    (Handlers.arg request "ts").truthy = true ∧
      ∃ fix, acceptedFix num request 0 = some fix ∧ ts = .float fix.ts

/-- A task of the service handles a message from or about the node. -/
inductive Job.About (loads : Loads) : Job → PyVal → Prop
  | message {msgs : List Message} {msg : Message} {nodeId : PyVal} (hmem : msg ∈ msgs)
      (h : msg.About loads nodeId) : About loads (.consume msgs) nodeId
  | request (request : Request) : About loads (.request request) (.str request.from_)
  | ask (request : Request) : About loads (.ask request) (.str request.from_)

/-- After the exchanges the task awaits `e` in handling a message from or about the node. -/
inductive Job.Handles (num : Numerals) (loads : Loads) (e : Eff) : Job → Trace → PyVal → Prop
  | message {msgs done rest : List Message} {msg : Message} {before within : Trace}
      {next : e.Answer → Prog Unit} {nodeId : PyVal} (hmsgs : msgs = done ++ msg :: rest)
      (hbefore : Steps (Transport.consumeLoop num loads done) before (.ret ()))
      (hwithin : Steps (Transport.consumeLoop num loads [msg]) within (.await e next))
      (h : msg.About loads nodeId) : Handles num loads e (.consume msgs) (before ++ within) nodeId
  | request (request : Request) (ex : Trace) :
      Handles num loads e (.request request) ex (.str request.from_)
  | ask (request : Request) (ex : Trace) :
      Handles num loads e (.ask request) ex (.str request.from_)

/-- A message that the task handles carries the time for the node. -/
inductive Job.Carries (num : Numerals) (loads : Loads) : Job → PyVal → PyVal → Prop
  | message {msgs : List Message} {msg : Message} {nodeId ts : PyVal} (hmem : msg ∈ msgs)
      (h : msg.Carries loads nodeId ts) : Carries num loads (.consume msgs) nodeId ts
  | request {request : Request} {nodeId ts : PyVal} (h : request.Carries num nodeId ts) :
      Carries num loads (.request request) nodeId ts
  | ask {request : Request} {nodeId ts : PyVal} (h : request.Carries num nodeId ts) :
      Carries num loads (.ask request) nodeId ts

/-- The readings of the clock satisfy `B`. -/
def Clocked (B : ℚ → Prop) (x : Exchange Eff.Answer) : Prop := ∀ t, x.1.clock? x.2 = some t → B t

/-- What the effect records is about a node of the task, and its time is carried by a
message or read from the clock. -/
def Job.Stamps (num : Numerals) (loads : Loads) (B : ℚ → Prop) (job : Job) (e : Eff) : Prop :=
  ∀ nodeId ts, e.stamps? = some (nodeId, ts) → job.About loads nodeId ∧
    (job.Carries num loads nodeId ts ∨ ∃ t, B t ∧ ts = .float (.fin t))

section Programs

variable {num : Numerals} {loads : Loads} {B : ℚ → Prop} {job : Job}

theorem Job.Stamps.free {e : Eff} (h : e.stamps? = none) : job.Stamps num loads B e := by
  intro nodeId ts heq
  rw [h] at heq
  cases heq

/-- The effect records nothing but this time for this node. -/
def Eff.StampsAs (nodeId ts : PyVal) (e : Eff) : Prop :=
  e.stamps? = none ∨ e.stamps? = some (nodeId, ts)

theorem Job.Stamps.of_as {nodeId ts : PyVal} (habout : job.About loads nodeId)
    (htime : job.Carries num loads nodeId ts ∨ ∃ t, B t ∧ ts = .float (.fin t)) {e : Eff}
    (h : e.StampsAs nodeId ts) : job.Stamps num loads B e := by
  obtain hfree | has := h
  · exact .free hfree
  · intro nodeId' ts' heq
    rw [has] at heq
    cases heq
    exact ⟨habout, htime⟩

theorem stamps_noteRadio {nodeId ts nodeId' ts' : PyVal} {rssi : Option ℤ} {snr : Option PyFloat} :
    (StateAggregator.noteRadio nodeId' ts' rssi snr).Only (Eff.StampsAs nodeId ts) := by
  unfold StateAggregator.noteRadio
  split
  · exact Prog.only_setRadio.mpr (.inl rfl)
  · exact True.intro

theorem stamps_republishState {nodeId ts nodeId' : PyVal} :
    (StateAggregator.republishState num nodeId').Only (Eff.StampsAs nodeId ts) := by
  refine .bind (StateAggregator.reads_getNodeState.mono fun _ he ↦ .inl he.stamps) fun st ↦ ?_
  cases st with
  | none => exact True.intro
  | some st => exact Prog.only_publish.mpr (.inl rfl)

theorem stamps_applySeen {nodeId ts : PyVal} {rssi : Option ℤ} {snr : Option PyFloat} :
    (StateAggregator.applySeen num nodeId ts rssi snr).Only (Eff.StampsAs nodeId ts) :=
  .bind (Prog.only_store.mpr (.inr rfl)) fun _ ↦ .bind stamps_noteRadio fun _ ↦
    stamps_republishState

theorem stamps_applyLocation {nodeId : PyVal} {fix : LocationFix} {source : String}
    {rssi : Option ℤ} {snr : Option PyFloat} :
    (StateAggregator.applyLocation num nodeId fix source rssi snr).Only
      (Eff.StampsAs nodeId (.float fix.ts)) :=
  .bind (Prog.only_store.mpr (.inr rfl)) fun _ ↦ .bind (Prog.only_store.mpr (.inr rfl)) fun _ ↦
    .bind stamps_noteRadio fun _ ↦ .bind (Prog.only_publish.mpr (.inl rfl)) fun _ ↦
    stamps_republishState

theorem stamps_applyBattery {nodeId ts pct voltage : PyVal} {source : String} :
    (StateAggregator.applyBattery num nodeId ts pct voltage source).Only
      (Eff.StampsAs nodeId ts) :=
  .bind (Prog.only_store.mpr (.inl rfl)) fun _ ↦ .bind (Prog.only_store.mpr (.inr rfl)) fun _ ↦
    .bind (Prog.only_publish.mpr (.inl rfl)) fun _ ↦ stamps_republishState

/-- A time is the given one, or read from the clock. -/
theorem within_orTime {P : Eff → Prop} (hP : P .time) (v : PyVal) :
    (orTime v).Within (Clocked B) P fun ts ↦
      (v.truthy = true ∧ ts = v) ∨ ∃ t, B t ∧ ts = .float (.fin t) := by
  unfold orTime
  by_cases hv : v.truthy = true
  · rw [if_pos hv]
    exact .inl ⟨hv, rfl⟩
  · rw [if_neg hv]
    exact ⟨hP, fun t ht ↦ .inr ⟨t, ht t rfl, rfl⟩⟩

theorem within_as {α : Type} {x : Prog α} {nodeId ts : PyVal} (hx : x.Only (Eff.StampsAs nodeId ts))
    (habout : job.About loads nodeId)
    (htime : job.Carries num loads nodeId ts ∨ ∃ t, B t ∧ ts = .float (.fin t)) :
    x.Within (Clocked B) (job.Stamps num loads B) fun _ ↦ True :=
  .of_only (hx.mono fun _ he ↦ .of_as habout htime he)

theorem within_time : Prog.time.Within (Clocked B) (job.Stamps num loads B) B :=
  ⟨.free rfl, fun t ht ↦ ht t rfl⟩

/-! ## The events of the gateway -/

section Events

variable {msg : Message} {kvs : List (String × PyVal)}

theorem within_eventTime (habout : ∀ nodeId, msg.About loads nodeId → job.About loads nodeId)
    (hcarries : ∀ nodeId ts, msg.Carries loads nodeId ts → job.Carries num loads nodeId ts)
    (hevent : Transport.IsEvent loads msg kvs) {f : PyVal → Prog Unit}
    (hf : ∀ ts, (f ts).Only (Eff.StampsAs (Transport.eventNode kvs) ts)) :
    (orTime (getKey kvs "ts") >>= f).Within (Clocked B) (job.Stamps num loads B) fun _ ↦ True := by
  refine .bind (within_orTime (.free rfl) _) fun ts hts ↦ ?_
  refine within_as (hf ts) (habout _ (.event kvs hevent)) ?_
  obtain ⟨htruthy, rfl⟩ | hclock := hts
  · exact .inl (hcarries _ _ ⟨kvs, hevent, rfl, htruthy, rfl⟩)
  · exact .inr hclock

theorem within_routeEvent (habout : ∀ nodeId, msg.About loads nodeId → job.About loads nodeId)
    (hcarries : ∀ nodeId ts, msg.Carries loads nodeId ts → job.Carries num loads nodeId ts) :
    (Transport.routeEvent num loads msg.topic msg.payload).Within (Clocked B)
      (job.Stamps num loads B) fun _ ↦ True := by
  have hfree {o : Except PyExc (List (String × PyVal))} {f : List (String × PyVal) → Prog Unit}
      (hf : ∀ kvs, o = .ok kvs → (f kvs).Within (Clocked B) (job.Stamps num loads B) fun _ ↦ True) :
      ((.ofOutcome o : Prog (List (String × PyVal))) >>= f).Within (Clocked B)
        (job.Stamps num loads B) fun _ ↦ True :=
    .bind (.ofOutcome fun _ h ↦ h) hf
  have hdict {data : PyVal} {kvs : List (String × PyVal)} (h : Transport.asDict data = .ok kvs) :
      data = .dict kvs := by
    cases data with
    | dict kvs' =>
        cases h
        rfl
    | _ => cases h
  unfold Transport.routeEvent
  split
  · rename_i hdirect
    refine .bind (.ofOutcome (S := fun _ ↦ True) fun _ _ ↦ trivial) fun radio _ ↦
      .bind within_time fun now hnow ↦ ?_
    exact within_as stamps_applySeen (habout _ (.direct hdirect)) (.inr ⟨now, hnow, rfl⟩)
  · split
    · rename_i htopic
      refine .bind (.ofOutcome fun _ h ↦ h) fun data hjson ↦ ?_
      split
      · refine hfree fun kvs hkvs ↦ ?_
        rw [hdict hkvs] at hjson
        dsimp only
        split
        · rename_i hnode
          exact within_eventTime habout hcarries ⟨.inl htopic, hjson, hnode⟩ fun ts ↦
            stamps_applyBattery
        · exact True.intro
      · exact True.intro
    · split
      · rename_i htopic
        refine .bind (.ofOutcome fun _ h ↦ h) fun data hjson ↦ ?_
        split
        · refine hfree fun kvs hkvs ↦ ?_
          rw [hdict hkvs] at hjson
          dsimp only
          split
          · rename_i hnode
            exact within_eventTime habout hcarries ⟨.inr htopic, hjson, hnode⟩ fun ts ↦
              stamps_applySeen
          · exact True.intro
        · exact True.intro
      · exact True.intro

theorem stamps_maybeCache (msg : Message) :
    (Transport.maybeCache loads msg).Only fun e ↦ e.stamps? = none := by
  unfold Transport.maybeCache
  split
  · exact True.intro
  · split
    · exact .bind (Prog.only_cacheGatewaySnapshot.mpr rfl) fun _ ↦
        .tryCatch (Prog.only_store.mpr rfl) fun _ ↦ True.intro
    · split <;> exact True.intro

theorem within_dispatch (habout : ∀ nodeId, msg.About loads nodeId → job.About loads nodeId)
    (hcarries : ∀ nodeId ts, msg.Carries loads nodeId ts → job.Carries num loads nodeId ts) :
    (Transport.dispatch num loads msg).Within (Clocked B) (job.Stamps num loads B)
      fun _ ↦ True := by
  unfold Transport.dispatch
  split
  · exact .of_only (Prog.only_createTask.mpr (.free rfl))
  · split
    · exact .tryCatch (within_routeEvent habout hcarries) fun _ ↦ True.intro
    · exact True.intro

theorem within_consumeLoop {msgs : List Message}
    (habout : ∀ msg ∈ msgs, ∀ nodeId, msg.About loads nodeId → job.About loads nodeId)
    (hcarries : ∀ msg ∈ msgs, ∀ nodeId ts, msg.Carries loads nodeId ts →
      job.Carries num loads nodeId ts) :
    (Transport.consumeLoop num loads msgs).Within (Clocked B) (job.Stamps num loads B)
      fun _ ↦ True := by
  induction msgs with
  | nil => exact True.intro
  | cons msg rest ih =>
      obtain ⟨habout, habouts⟩ := List.forall_mem_cons.mp habout
      obtain ⟨hcarries, hcarriess⟩ := List.forall_mem_cons.mp hcarries
      refine .bind (.of_only ((stamps_maybeCache msg).mono fun _ he ↦ .free he)) fun _ _ ↦
        .bind (within_dispatch habout hcarries) fun _ _ ↦ ?_
      exact ih habouts hcarriess

end Events

/-! ## Requests -/

section Requests

open Handlers

variable {request : Request}

theorem within_nodeLocationReport (htype : request.type = "node.location.report")
    (habout : job.About loads (.str request.from_))
    (hcarries : ∀ ts, request.Carries num (.str request.from_) ts →
      job.Carries num loads (.str request.from_) ts) :
    (nodeLocationReport num request).Within (Clocked B) (job.Stamps num loads B)
      fun _ ↦ True := by
  have hrequire {c : Prop} [Decidable c] {err : PyExc} :
      (require c err).Within (Clocked B) (job.Stamps num loads B) fun _ ↦ c := by
    unfold require
    by_cases hc : c
    · rw [if_pos hc]
      exact hc
    · rw [if_neg hc]
      exact True.intro
  refine .bind hrequire fun _ hnumbers ↦ .bind hrequire fun _ hrange ↦
    .bind (within_orTime (.free rfl) _) fun ts hts ↦ .bind (.ofOutcome fun _ h ↦ h) fun fix hfix ↦
    .bind (within_as stamps_applyLocation habout ?_) fun _ _ ↦ True.intro
  obtain ⟨htruthy, rfl⟩ | ⟨t, ht, rfl⟩ := hts
  · refine .inl (hcarries _ ⟨htype, rfl, htruthy, fix, ?_, rfl⟩)
    rw [acceptedFix, if_pos ⟨hnumbers, hrange⟩, PyVal.or, if_pos htruthy, hfix]
    rfl
  · refine .inr ⟨t, ht, ?_⟩
    unfold reportedFix at hfix
    obtain ⟨lat, hlat, hfix⟩ := except_bind_ok hfix
    obtain ⟨lon, hlon, hfix⟩ := except_bind_ok hfix
    obtain ⟨ts, hts, hfix⟩ := except_bind_ok hfix
    iterate 4 obtain ⟨_, _, hfix⟩ := except_bind_ok hfix
    cases hts
    cases hfix
    rfl

theorem within_handler {geo : Geo} {handler : Handler}
    (hrouter : (defaultRouter num geo).resolve request.type = some handler)
    (habout : job.About loads (.str request.from_))
    (hcarries : ∀ ts, request.Carries num (.str request.from_) ts →
      job.Carries num loads (.str request.from_) ts) :
    (handler.handle request).Within (Clocked B) (job.Stamps num loads B) fun _ ↦ True := by
  by_cases htype : request.type = "node.location.report"
  · rw [htype] at hrouter
    rw [resolve_report num geo hrouter]
    exact within_nodeLocationReport htype habout hcarries
  · exact .of_only ((defaultRouter_reads num geo hrouter htype request).mono fun _ he ↦
      .free he.stamps)

/-- The rule for `wait_for`: an effect in time counts as the effect itself. -/
theorem within_waitFor {α : Type} {x : Prog α} {ttlS : ℤ} {A : Exchange Eff.Answer → Prop}
    {P : Eff → Prop} {S : α → Prop}
    (hx : x.Within (fun y ↦ A ⟨.underTtl ttlS y.1, some y.2⟩) (fun e ↦ P (.underTtl ttlS e)) S) :
    (waitFor ttlS x letThrough).Within A P S := by
  refine waitFor_cases (C := fun y ↦ y.Within A P S) True.intro ?_
  induction x with
  | ret a => exact hx
  | raise err => exact True.intro
  | await e next ih =>
      rw [guarded]
      refine ⟨hx.1, fun r hr ↦ ?_⟩
      cases r with
      | none => exact True.intro
      | some r => exact ih r (hx.2 r hr)

theorem within_processRequest {geo : Geo} {policy : TimeoutPolicy}
    (habout : job.About loads (.str request.from_))
    (hcarries : ∀ ts, request.Carries num (.str request.from_) ts →
      job.Carries num loads (.str request.from_) ts) :
    (processRequest policy (defaultRouter num geo) request).Within (Clocked B)
      (job.Stamps num loads B) fun _ ↦ True := by
  have hfinal (response : Response) (finalState : FinalState) (errorCode : Option String) :
      (publishAndFinalize request response finalState errorCode).Within (Clocked B)
        (job.Stamps num loads B) fun _ ↦ True := by
    refine .of_only (.bind (.tryCatch (.bind (Prog.only_emit.mpr (.free rfl)) fun _ ↦
      Prog.only_store.mpr (.free rfl)) fun _ ↦ True.intro) fun _ ↦ Prog.only_store.mpr (.free rfl))
  have hevent (state : EventState) (detail : Option String) :
      (recordEvent request state detail).Within (Clocked B) (job.Stamps num loads B)
        fun _ ↦ True :=
    .of_only (Prog.only_store.mpr (.free rfl))
  refine .bind (S := fun _ ↦ True) (.of_only (.attempt (Prog.only_store.mpr (.free rfl))))
    fun received _ ↦ ?_
  cases received with
  | error err => exact hfinal ..
  | ok fresh =>
      cases fresh with
      | false => exact .bind (hevent ..) fun _ _ ↦ hfinal ..
      | true =>
          refine .bind (hevent ..) fun _ _ ↦ .bind within_time fun now hnow ↦
            .bind (within_as (Prog.only_store.mpr (.inr rfl)) habout (.inr ⟨now, hnow, rfl⟩))
              fun _ _ ↦ ?_
          cases hrouter : (defaultRouter num geo).resolve request.type with
          | none => exact .bind (hevent ..) fun _ _ ↦ hfinal ..
          | some handler =>
              have hhandler : (handler.timed request
                  (policy.resolve request.type request.ttl)).Within (Clocked B)
                    (job.Stamps num loads B) fun _ ↦ True := by
                rw [defaultRouter_timed_eq num geo hrouter]
                exact within_waitFor ((within_handler hrouter habout hcarries).mono
                  (fun _ h ↦ h) (fun _ h ↦ h) fun _ h ↦ h)
              have hrun : (runWithTimeout (handler.handle request) (handler.unwind request)
                  (policy.resolve request.type request.ttl)).Within (Clocked B)
                    (job.Stamps num loads B) fun _ ↦ True :=
                .bind (.of_only (Prog.only_inc.mpr (.free rfl))) fun _ _ ↦
                  .bind (.attempt hhandler) fun _ _ ↦
                  .bind (.of_only (Prog.only_dec.mpr (.free rfl))) fun _ _ ↦
                  .ofOutcome fun _ _ ↦ trivial
              refine .bind (hevent ..) fun _ _ ↦ .bind (.attempt hrun) fun outcome _ ↦ ?_
              cases outcome with
              | ok response => exact hfinal ..
              | error err =>
                  cases err with
                  | timeoutError => exact .bind (hevent ..) fun _ _ ↦ hfinal ..
                  | rpcError code message => exact hfinal ..
                  | other typeName => exact hfinal ..

end Requests

end Programs

/-! ## The tasks of the service -/

theorem Service.pool_within {ι : Type} (service : Service ι) (B : ℚ → Prop) (i : ι) :
    (service.pool i).Within (Clocked B) ((service.job i).Stamps service.num service.loads B)
      fun _ ↦ True := by
  unfold Service.pool
  cases hjob : service.job i with
  | consume msgs =>
      refine .bind (within_consumeLoop (fun msg hmem nodeId h ↦ ?_)
        fun msg hmem nodeId ts h ↦ ?_) fun _ _ ↦ True.intro
      · exact .message hmem h
      · exact .message hmem h
  | request request =>
      exact .bind (within_processRequest (.request request) fun ts h ↦ .request h) fun _ _ ↦
        True.intro
  | sweep ticks =>
      exact .bind (.of_only (only_sweeper _ ticks (.free rfl) fun _ ↦ .free rfl)) fun _ _ ↦
        True.intro
  | beat beats =>
      exact .bind (.of_only (only_heartbeat beats (.free rfl) fun _ _ _ ↦ .free rfl)) fun _ _ ↦
        True.intro
  | ask request =>
      dsimp only
      cases hrouter : service.router.resolve request.type with
      | none => exact True.intro
      | some handler =>
          exact .bind (within_handler hrouter (.ask request) fun ts h ↦ .ask h) fun _ _ ↦
            True.intro

theorem Service.stamps_event {ι : Type} [DecidableEq ι] {service : Service ι}
    {W : World Db ι Eff.Answer ℚ Empty} {s₀ s : Db} {tr : List (Event ι Eff.Answer ℚ Empty)}
    {p : ι → Prog (Option Response)} {i : ι} {now : ℚ} {x : Exchange Eff.Answer} {B : ℚ → Prop}
    (h : Run W service.pool s₀ (tr ++ [.task i now x]) p s)
    (hB : ∀ y ∈ exchangesOf i tr, Clocked B y) :
    (service.job i).Stamps service.num service.loads B x.1 := by
  have hsteps := h.steps i
  rw [exchangesOf_append, exchangesOf_task_self, exchangesOf_nil] at hsteps
  obtain ⟨e, r⟩ := x
  obtain ⟨next, hbefore, _⟩ := hsteps.await_of_snoc
  exact ((service.pool_within B i).steps hbefore hB).1

/-- The loop stamps a node in handling a message about it. -/
theorem handles_of_consumeLoop {num : Numerals} {loads : Loads} {msgs : List Message} {tr : Trace}
    {e : Eff} {next : e.Answer → Prog Unit} {nodeId ts : PyVal}
    (h : Steps (Transport.consumeLoop num loads msgs) tr (.await e next))
    (hstamps : e.stamps? = some (nodeId, ts)) :
    (Job.consume msgs).Handles num loads e tr nodeId := by
  obtain ⟨done, msg, rest, before, within, next', hmsgs, rfl, hbefore, hwithin⟩ :=
    Transport.consumeLoop_at _ _ h
  have hone : (Transport.consumeLoop num loads [msg]).Within (Clocked fun _ ↦ True)
      ((Job.consume [msg]).Stamps num loads fun _ ↦ True) fun _ ↦ True :=
    within_consumeLoop (fun _ hmem _ h ↦ .message hmem h) fun _ hmem _ _ h ↦ .message hmem h
  obtain ⟨habout, _⟩ := (hone.steps hwithin fun _ _ _ _ ↦ trivial).1 _ _ hstamps
  cases habout with
  | message hmem habout =>
      obtain rfl := List.mem_singleton.mp hmem
      exact .message hmsgs hbefore hwithin habout

/-- A node is stamped in handling a message from or about it. -/
theorem Service.handles_event {ι : Type} [DecidableEq ι] {service : Service ι}
    {W : World Db ι Eff.Answer ℚ Empty} {s₀ s : Db} {tr : List (Event ι Eff.Answer ℚ Empty)}
    {p : ι → Prog (Option Response)} {i : ι} {now : ℚ} {x : Exchange Eff.Answer}
    (h : Run W service.pool s₀ (tr ++ [.task i now x]) p s) {nodeId ts : PyVal}
    (hstamps : x.1.stamps? = some (nodeId, ts)) :
    (service.job i).Handles service.num service.loads x.1 (exchangesOf i tr) nodeId := by
  obtain ⟨habout, _⟩ := Service.stamps_event (B := fun _ ↦ True) h (fun _ _ _ _ ↦ trivial) _ _
    hstamps
  cases hjob : service.job i with
  | consume msgs =>
      have hsteps := h.steps i
      rw [exchangesOf_append, exchangesOf_task_self, exchangesOf_nil] at hsteps
      obtain ⟨e, r⟩ := x
      obtain ⟨next, hpool, _⟩ := hsteps.await_of_snoc
      have hloop : service.pool i =
          Transport.consumeLoop service.num service.loads msgs >>= fun _ ↦ pure none := by
        simp only [Service.pool, hjob]
      rw [hloop] at hpool
      obtain ⟨next', hat⟩ | ⟨_, _, _, _, _, hpure⟩ := hpool.of_bind_await
      · exact handles_of_consumeLoop hat hstamps
      · cases (Steps.ret_iff.mp hpure).2
  | request request =>
      rw [hjob] at habout
      cases habout
      exact .request request _
  | ask request =>
      rw [hjob] at habout
      cases habout
      exact .ask request _
  | sweep ticks =>
      rw [hjob] at habout
      cases habout
  | beat beats =>
      rw [hjob] at habout
      cases habout

end MeshcoreRpc
