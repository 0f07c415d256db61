import MeshcoreRpc.State

/-!
# The consume loop

`MqttBus.messages` with its status cache and `Service._consume_loop` with the
event routes.  The messages of one connection are a list; decoding a payload
(`payload.decode("utf-8", errors="replace")` and `json.loads`) is a parameter.
-/

namespace MeshcoreRpc

open Tables Coroutine Coro

structure Message where
  topic : String
  payload : List UInt8

/-- The JSON value of a payload, or what `json.loads` raises on it. -/
abbrev Loads := List UInt8 → Except PyExc PyVal

namespace Transport

/-! ## The status cache of the bus -/

/-- The `state`, `detail` and `since` of a gateway status; no payload counts as
an empty object. -/
def parseStatus (loads : Loads) (payload : List UInt8) : Except PyExc (PyVal × PyVal × PyVal) := do
  let parsed ← if payload = [] then .ok (.dict []) else loads payload
  match parsed with
  | .dict kvs =>
    return ((kvs.lookup "state").getD (.str "unknown"), getKey kvs "detail", getKey kvs "since")
  | _ => .error .attributeError

def maybeCache (loads : Loads) (msg : Message) : Prog Unit :=
  if msg.topic ≠ Topics.gatewayStatus then pure ()
  else
    match parseStatus loads msg.payload with
    | .ok (state, detail, since) => do
      Prog.cacheGatewaySnapshot state detail since
      tryCatch (Prog.store (.recordGatewaySnapshot state detail since)) fun _ ↦ pure ()
    | .error err => if err = .jsonDecodeError then pure () else throw err

/-! ## The event routes -/

section Routes

variable (num : Numerals) (loads : Loads)

/-- `_safe_json`: a `JSONDecodeError` is a `ValueError`. -/
def safeJson (payload : List UInt8) : Except PyExc PyVal :=
  match loads payload with
  | .ok v => .ok v
  | .error err => if err = .jsonDecodeError ∨ err = .valueError then .ok .none else .error err

/-- `inner.get(upper) if upper in inner else inner.get(lower)` -/
def eitherKey (inner : List (String × PyVal)) (upper lower : String) : PyVal :=
  match inner.lookup upper with
  | some v => v
  | none => getKey inner lower

def extractRadioMetadata (payload : List UInt8) : Except PyExc (Option ℤ × Option PyFloat) := do
  match ← safeJson loads payload with
  | .dict data =>
    let inner :=
      match getKey data "payload" with
      | .dict inner => inner
      | _ => data
    let rssiRaw := eitherKey inner "RSSI" "rssi"
    let snrRaw := eitherKey inner "SNR" "snr"
    let rssi ← if rssiRaw.isNumber then rssiRaw.numberToInt.map some else .ok none
    let snr ← optFloat snrRaw
    return (rssi, snr)
  | _ => return (none, none)

/-- The dict an event must be for `data.get`. -/
def asDict : PyVal → Except PyExc (List (String × PyVal))
  | .dict kvs => .ok kvs
  | _ => .error .attributeError

def handleBatteryEvent (data : PyVal) : Prog Unit := do
  let kvs ← .ofOutcome (asDict data)
  let nodeId := (getKey kvs "pubkey").or (getKey kvs "node_id")
  if nodeId.truthy then
    let ts ← orTime (getKey kvs "ts")
    StateAggregator.applyBattery num nodeId ts
      ((getKey kvs "pct").or (getKey kvs "battery_pct")) (getKey kvs "voltage") "telemetry"

def handleTelemetryEvent (data : PyVal) : Prog Unit := do
  let kvs ← .ofOutcome (asDict data)
  let nodeId := (getKey kvs "pubkey").or (getKey kvs "node_id")
  if nodeId.truthy then
    let ts ← orTime (getKey kvs "ts")
    StateAggregator.applySeen num nodeId ts none none

def directPrefix : String := Topics.gatewayNativePrefix ++ "/message/direct/"

def batteryTopic : String := Topics.gatewayNativeBattery Topics.gatewayNativePrefix

def telemetryTopic : String := Topics.gatewayNativeTelemetry Topics.gatewayNativePrefix

def routeEvent (topic : String) (payload : List UInt8) : Prog Unit := do
  if Topics.startsWith topic directPrefix then
    let (rssi, snr) ← .ofOutcome (extractRadioMetadata loads payload)
    let now ← Prog.time
    StateAggregator.applySeen num (.str (Topics.dropPrefix topic directPrefix)) (.float (.fin now))
      rssi snr
  else if topic = batteryTopic then
    let data ← .ofOutcome (safeJson loads payload)
    if data.truthy then handleBatteryEvent num data
  else if topic = telemetryTopic then
    let data ← .ofOutcome (safeJson loads payload)
    if data.truthy then handleTelemetryEvent num data

/-- One turn of `_consume_loop`. -/
def dispatch (msg : Message) : Prog Unit :=
  if msg.topic = Topics.rpcRequest then Prog.createTask msg.payload
  else if Topics.startsWith msg.topic directPrefix ∨
      msg.topic = batteryTopic ∨ msg.topic = telemetryTopic then
    tryCatch (routeEvent num loads msg.topic msg.payload) fun _ ↦ pure ()
  else pure ()

def consumeLoop : List Message → Prog Unit
  | [] => pure ()
  | msg :: rest => do
    maybeCache loads msg
    dispatch num loads msg
    consumeLoop rest

/-- Where the loop waits, it has gone through the messages before one and waits for that. -/
theorem consumeLoop_at {msgs : List Message} {ex : Trace} {e : Eff} {next : e.Answer → Prog Unit}
    (h : Steps (consumeLoop num loads msgs) ex (.await e next)) :
    ∃ done msg rest before within, ∃ next' : e.Answer → Prog Unit, msgs = done ++ msg :: rest ∧
      ex = before ++ within ∧ Steps (consumeLoop num loads done) before (.ret ()) ∧
      Steps (consumeLoop num loads [msg]) within (.await e next') := by
  induction msgs generalizing ex with
  | nil => cases (Steps.ret_iff.mp h).2
  | cons msg rest ih =>
      rw [consumeLoop] at h
      obtain ⟨next', hcache⟩ | ⟨_, tr₁, tr₂, rfl, hcache, h⟩ := h.of_bind_await
      · exact ⟨[], msg, rest, [], ex, _, rfl, rfl, .refl _, hcache.bind _⟩
      obtain ⟨next', hdispatch⟩ | ⟨_, tr₃, tr₄, rfl, hdispatch, h⟩ := h.of_bind_await
      · exact ⟨[], msg, rest, [], tr₁ ++ tr₂, _, rfl, rfl, .refl _,
          (hcache.bind _).append (hdispatch.bind _)⟩
      obtain ⟨done, msg', rest', before, within, next', rfl, rfl, hbefore, hwithin⟩ := ih h
      refine ⟨msg :: done, msg', rest', tr₁ ++ (tr₃ ++ before), within, next', rfl, by simp, ?_,
        hwithin⟩
      exact (hcache.bind _).append ((hdispatch.bind _).append hbefore)

/-! ## What a route awaits -/

theorem only_handleBatteryEvent {data : PyVal} :
    (handleBatteryEvent num data).Only Eff.NodeSide := by
  refine .bind (Only.ofOutcome_iff.mpr True.intro) fun kvs ↦ ?_
  dsimp only
  split
  · exact .bind (only_orTime _) fun ts ↦ StateAggregator.only_applyBattery num
  · exact True.intro

theorem only_handleTelemetryEvent {data : PyVal} :
    (handleTelemetryEvent num data).Only Eff.NodeSide := by
  refine .bind (Only.ofOutcome_iff.mpr True.intro) fun kvs ↦ ?_
  dsimp only
  split
  · exact .bind (only_orTime _) fun ts ↦ StateAggregator.only_applySeen num
  · exact True.intro

theorem only_routeEvent {topic : String} {payload : List UInt8} :
    (routeEvent num loads topic payload).Only Eff.NodeSide := by
  unfold routeEvent
  split
  · refine .bind (Only.ofOutcome_iff.mpr True.intro) fun radio ↦
      .bind (Prog.only_time.mpr trivial) fun now ↦ ?_
    exact StateAggregator.only_applySeen num
  · split
    · refine .bind (Only.ofOutcome_iff.mpr True.intro) fun data ↦ ?_
      split
      · exact only_handleBatteryEvent num
      · exact True.intro
    · split
      · refine .bind (Only.ofOutcome_iff.mpr True.intro) fun data ↦ ?_
        split
        · exact only_handleTelemetryEvent num
        · exact True.intro
      · exact True.intro

end Routes

/-! ## What a turn of the loop leaves -/

/-- The payloads handed to tasks, in order. -/
def spawned (tr : Trace) : List (List UInt8) :=
  tr.filterMap fun
    | ⟨.createTask payload, _⟩ => some payload
    | _ => none

/-- The statuses written to the cached snapshot, in order. -/
def cached (tr : Trace) : List (PyVal × PyVal × PyVal) :=
  tr.filterMap fun
    | ⟨.cacheGatewaySnapshot state detail since, _⟩ => some (state, detail, since)
    | _ => none

@[simp] theorem spawned_nil : spawned [] = [] := rfl

@[simp] theorem cached_nil : cached [] = [] := rfl

@[simp] theorem spawned_append (tr tr' : Trace) : spawned (tr ++ tr') = spawned tr ++ spawned tr' :=
  List.filterMap_append

@[simp] theorem cached_append (tr tr' : Trace) : cached (tr ++ tr') = cached tr ++ cached tr' :=
  List.filterMap_append

theorem nodeSide_leaves {tr : Trace} (h : ∀ x ∈ tr, x.1.NodeSide) :
    spawned tr = [] ∧ cached tr = [] := by
  constructor
  · refine List.filterMap_eq_nil_iff.mpr fun x hx ↦ ?_
    obtain ⟨e, r⟩ := x
    have he := h _ hx
    cases e with
    | createTask payload => exact he.elim
    | _ => rfl
  · refine List.filterMap_eq_nil_iff.mpr fun x hx ↦ ?_
    obtain ⟨e, r⟩ := x
    have he := h _ hx
    cases e with
    | cacheGatewaySnapshot => exact he.elim
    | _ => rfl

section Turn

variable {num : Numerals} {loads : Loads}

/-- The gateway status of a message: that of a JSON object on the status topic,
no payload being an empty one. -/
def statusOf (loads : Loads) (msg : Message) : Option (PyVal × PyVal × PyVal) :=
  if msg.topic ≠ Topics.gatewayStatus then none
  else if msg.payload = [] then some (.str "unknown", .none, .none)
  else
    match loads msg.payload with
    | .ok (.dict kvs) =>
      some ((kvs.lookup "state").getD (.str "unknown"), getKey kvs "detail", getKey kvs "since")
    | _ => none

/-- The request of a message, to be handled by a task of its own. -/
def requestOf (msg : Message) : Option (List UInt8) :=
  if msg.topic = Topics.rpcRequest then some msg.payload else none

/-- On the status topic a message has no payload, a JSON object, or text that is
not JSON. -/
def Readable (loads : Loads) (msg : Message) : Prop :=
  msg.topic = Topics.gatewayStatus → msg.payload = [] ∨
    (∃ kvs, loads msg.payload = .ok (.dict kvs)) ∨ loads msg.payload = .error .jsonDecodeError

theorem cacheStatus_spec (state detail since : PyVal) :
    (do
      Prog.cacheGatewaySnapshot state detail since
      tryCatch (Prog.store (.recordGatewaySnapshot state detail since)) fun _ ↦ pure () :
        Prog Unit).wp fun tr o ↦
      o = .ok () ∧ spawned tr = [] ∧ cached tr = [(state, detail, since)] := by
  simp only [wp_bind, Prog.wp_cacheGatewaySnapshot, wp_tryCatch, Prog.store, wp_await, wp_ofOutcome]
  intro r
  cases r with
  | ok a => simp [spawned, cached]
  | error err => simp [spawned, cached]

theorem maybeCache_spec (loads : Loads) (msg : Message) :
    (maybeCache loads msg).wp fun tr o ↦ spawned tr = [] ∧
      cached tr = (statusOf loads msg).toList ∧ (o = .ok () ↔ Readable loads msg) := by
  by_cases htopic : msg.topic = Topics.gatewayStatus
  · by_cases hpayload : msg.payload = []
    · have hparse : parseStatus loads msg.payload = .ok (.str "unknown", .none, .none) := by
        rw [parseStatus, if_pos hpayload]
        rfl
      simp only [maybeCache, htopic, hparse, ne_eq, not_true_eq_false, if_false]
      refine wp_mono (cacheStatus_spec _ _ _) fun tr o h ↦ ?_
      simp [statusOf, Readable, htopic, hpayload, h]
    · have hparse : parseStatus loads msg.payload =
          (loads msg.payload >>= fun parsed ↦ match parsed with
            | .dict kvs => .ok ((kvs.lookup "state").getD (.str "unknown"), getKey kvs "detail",
                getKey kvs "since")
            | _ => .error .attributeError) := by
        rw [parseStatus, if_neg hpayload]
        rfl
      simp only [maybeCache, htopic, hparse, ne_eq, not_true_eq_false, if_false]
      cases hloads : loads msg.payload with
      | error err =>
          by_cases herr : err = .jsonDecodeError
          · simp [Bind.bind, Except.bind, statusOf, Readable, htopic, hpayload, hloads, herr]
          · simp [Bind.bind, Except.bind, statusOf, Readable, htopic, hpayload, hloads, herr]
      | ok parsed =>
          cases parsed with
          | dict kvs =>
              refine wp_mono (cacheStatus_spec ((kvs.lookup "state").getD (.str "unknown"))
                (getKey kvs "detail") (getKey kvs "since")) fun tr o h ↦ ?_
              simp [statusOf, Readable, htopic, hpayload, hloads, h]
          | _ => simp [Bind.bind, Except.bind, statusOf, Readable, htopic, hpayload, hloads]
  · simp [maybeCache, statusOf, Readable, htopic]

theorem dispatch_spec (num : Numerals) (loads : Loads) (msg : Message) :
    (dispatch num loads msg).wp fun tr o ↦ o = .ok () ∧
      spawned tr = (requestOf msg).toList ∧ cached tr = [] := by
  unfold dispatch
  by_cases htopic : msg.topic = Topics.rpcRequest
  · rw [if_pos htopic, Prog.wp_createTask]
    exact ⟨rfl, by simp [spawned, requestOf, htopic], rfl⟩
  · have hrequest : (requestOf msg).toList = [] := by simp [requestOf, htopic]
    rw [if_neg htopic, hrequest]
    split
    · rw [wp_tryCatch]
      refine wp_iff.mpr fun tr o hsteps ↦ ?_
      have hleaves := nodeSide_leaves ((only_routeEvent num loads).steps hsteps).1
      cases o with
      | ok _ => exact ⟨rfl, hleaves⟩
      | error err => simpa only [wp_pure, List.append_nil, true_and] using hleaves
    · exact ⟨rfl, rfl, rfl⟩

/-- The loop gets through its messages, every request in a task of its own and
every status of the cache from a JSON object, just when every status payload is
readable. -/
theorem consumeLoop_spec (num : Numerals) (loads : Loads) (msgs : List Message) :
    (consumeLoop num loads msgs).wp fun tr o ↦
      (o = .ok () ∧ spawned tr = msgs.filterMap requestOf ∧
        cached tr = msgs.filterMap (statusOf loads)) ↔ ∀ msg ∈ msgs, Readable loads msg := by
  induction msgs with
  | nil => simp [consumeLoop]
  | cons msg rest ih =>
      simp only [consumeLoop, wp_bind]
      refine wp_mono (maybeCache_spec loads msg) ?_
      rintro tr o ⟨hspawned, hcached, ho⟩
      cases o with
      | error err =>
          have hnot : ¬ Readable loads msg := fun hr ↦ by cases ho.mpr hr
          simp [hnot]
      | ok _ =>
          have hreadable := ho.mp rfl
          refine wp_mono (dispatch_spec num loads msg) ?_
          rintro tr' o' ⟨rfl, hspawned', hcached'⟩
          refine wp_mono ih fun tr'' o'' hrest ↦ ?_
          rw [spawned_append, spawned_append, cached_append, cached_append, hspawned, hcached,
            hspawned', hcached', List.forall_mem_cons, ← hrest]
          cases hr : requestOf msg <;> cases hs : statusOf loads msg <;> simp [hr, hs, hreadable]

end Turn

/-- The loop gets through its messages exactly when every status payload is
readable. -/
theorem consumeLoop_survives_iff {num : Numerals} {loads : Loads} {msgs : List Message} {tr : Trace}
    {o : Except PyExc Unit} (h : Steps (consumeLoop num loads msgs) tr (ofOutcome o)) :
    (o = .ok () ∧ spawned tr = msgs.filterMap requestOf ∧
      cached tr = msgs.filterMap (statusOf loads)) ↔ ∀ msg ∈ msgs, Readable loads msg :=
  wp_iff.mp (consumeLoop_spec num loads msgs) tr o h

/-- `json.loads` on an empty object, an empty array and text that is neither. -/
def sampleLoads : Loads
  | [0x7b, 0x7d] => .ok (.dict [])
  | [0x5b, 0x5d] => .ok (.list [])
  | _ => .error .jsonDecodeError

/-- A status, then a request. -/
def statusThenRequest (status : List UInt8) : List Message :=
  [⟨Topics.gatewayStatus, status⟩, ⟨Topics.rpcRequest, [0x7b, 0x7d]⟩]

def loopTrace (status : List UInt8) : Trace :=
  (consumeLoop .plain sampleLoads (statusThenRequest status)).exchanges
    (Eff.respond .plain 0 fun _ ↦ none) Db.empty

def loopOutcome (status : List UInt8) : Except PyExc Unit :=
  ((consumeLoop .plain sampleLoads (statusThenRequest status)).eval
    (Eff.respond .plain 0 fun _ ↦ none) Db.empty).1

theorem loopTrace_steps (status : List UInt8) :
    Steps (consumeLoop .plain sampleLoads (statusThenRequest status)) (loopTrace status)
      (ofOutcome (loopOutcome status)) :=
  steps_exchanges _ _

/-- After the status `{}` the request is dispatched. -/
theorem object_status_passes : spawned (loopTrace [0x7b, 0x7d]) = [[0x7b, 0x7d]] := by
  have hreadable : ∀ msg ∈ statusThenRequest [0x7b, 0x7d], Readable sampleLoads msg := by
    intro msg hmsg htopic
    simp only [statusThenRequest, List.mem_cons, List.not_mem_nil, or_false] at hmsg
    rcases hmsg with rfl | rfl
    · exact .inr (.inl ⟨[], rfl⟩)
    · exact absurd htopic (by decide)
  exact ((consumeLoop_survives_iff (loopTrace_steps [0x7b, 0x7d])).mpr hreadable).2.1

/-- The status `[]` ends the loop. -/
theorem array_status_ends_loop :
    ¬ ∀ num loads msgs tr o, Steps (consumeLoop num loads msgs) tr (ofOutcome o) →
      o = .ok () ∧ spawned tr = msgs.filterMap requestOf ∧
        cached tr = msgs.filterMap (statusOf loads) := by
  intro h
  have hraised : loopOutcome [0x5b, 0x5d] = .error .attributeError := rfl
  have hsteps := hraised ▸ loopTrace_steps [0x5b, 0x5d]
  cases (h _ _ _ _ _ hsteps).1

end Transport

end MeshcoreRpc
