import MeshcoreRpc.Geo
import MeshcoreRpc.Router
import MeshcoreRpc.State

/-!
# The handlers

The ten request handlers of `handlers/`, and the registry.  The two functions of
`geo.py` come in as a parameter, which `Libm.geo` fills.
-/

namespace MeshcoreRpc

open Tables Coroutine Coro

namespace Handlers

variable (num : Numerals) (geo : Geo)

/-- `request.args.get(k)` -/
def arg (request : Request) (k : String) : PyVal := getKey request.args k

/-- The node a request asks about: its `node` argument, else the requester. -/
def target (request : Request) : String :=
  match arg request "node" with
  | .str s => if s = "" then request.from_ else s
  | _ => request.from_

def unavailable (message : String) : PyExc := .rpcError Errors.unavailable message

def stale (message : String) : PyExc := .rpcError Errors.stale message

/-- `if not c: raise err` -/
def require (c : Prop) [Decidable c] (err : PyExc) : Prog Unit :=
  if c then pure () else throw err

@[simp] theorem wp_require {c : Prop} [Decidable c] {err : PyExc}
    {Q : Trace → Except PyExc Unit → Prop} :
    (require c err).wp Q ↔ (c → Q [] (.ok ())) ∧ (¬ c → Q [] (.error err)) := by
  unfold require
  by_cases hc : c
  · simp [hc]
  · simp [hc]

def pingMaxEcho : ℕ := 64

def ping (request : Request) : Prog Response :=
  match arg request "echo" with
  | .str s =>
    if s = "" then pure (Response.ok request [("msg", .str "pong")])
    else pure (Response.ok request
      [("msg", .str "pong"), ("echo", .str (String.ofList (s.toList.take pingMaxEcho)))])
  | _ => pure (Response.ok request [("msg", .str "pong")])

def echoMaxLen : ℕ := 180

def echo (request : Request) : Prog Response :=
  let msg :=
    match arg request "msg" with
    | .str s => s
    | _ => ""
  pure (Response.ok request [("msg", .str (String.ofList (msg.toList.take echoMaxLen)))])

def timeNow (request : Request) : Prog Response := do
  let now ← Prog.time
  let date ← .ofOutcome (DateTime.ofSeconds now)
  return Response.ok request
    [("ts", .float (.fin now)), ("iso", .str (DateTime.isoSeconds date))]

/-- `Store.counts` -/
def counts : Prog (List (String × PyVal)) := do
  let byState ← (Prog.store .countByFinalState : Prog (List (String × ℕ)))
  let pending ← (Prog.store .countPending : Prog ℕ)
  return byState.map (fun kn ↦ (kn.1, .int kn.2)) ++ [("pending", .int pending)]

/-- `counts.get(k, 0)` -/
def count (cs : List (String × PyVal)) (k : String) : PyVal := (cs.lookup k).getD (.int 0)

/-- The age of the cached snapshot, if there is one. -/
def snapAge : Option ℚ → Prog PyVal
  | none => pure .none
  | some snappedAt => do
    let now ← Prog.time
    let age ← .ofOutcome (ageS now (.float (.fin snappedAt)))
    return .int age

def gatewayStatus (request : Request) : Prog Response := do
  let snap ← Prog.getGatewaySnapshot
  let cs ← counts
  let snapAgeS ← snapAge snap.snappedAt
  return Response.ok request
    [("state", snap.state.or (.str "unknown")), ("detail", snap.detail), ("since", snap.since),
      ("snap_age_s", snapAgeS), ("pending", count cs "pending"),
      ("ok", count cs FinalState.completedOk.text),
      ("err", count cs FinalState.completedError.text),
      ("to", count cs EventState.timeout.text)]

def nodeLastSeen (request : Request) : Prog Response := do
  let node := target request
  match ← (Prog.store (.getLastSeen (.str node)) : Prog (Option PyFloat)) with
  | none =>
    return Response.ok request [("node", .str node), ("ts", .none), ("age_s", .none)]
  | some ts => do
    let now ← Prog.time
    let age ← .ofOutcome (ageS now (.float ts))
    return Response.ok request [("node", .str node), ("ts", .float ts), ("age_s", .int age)]

/-- The fix a location report carries, once its coordinates are accepted. -/
def reportedFix (request : Request) (ts : PyVal) : Except PyExc LocationFix := do
  let lat ← (arg request "lat").toFloat num
  let lon ← (arg request "lon").toFloat num
  let ts ← ts.toFloat num
  let alt ← optFloat (arg request "alt")
  let acc ← optFloat (arg request "acc")
  let spd ← optFloat (arg request "spd")
  let hdg ← optFloat (arg request "hdg")
  return { lat, lon, ts, alt, acc, fix := optInt (arg request "fix"), spd, hdg }

def nodeLocationReport (request : Request) : Prog Response := do
  require ((arg request "lat").isNumber ∧ (arg request "lon").isNumber)
    (.rpcError Errors.badRequest "lat and lon are required floats")
  require ((arg request "lat").between (-90) 90 ∧ (arg request "lon").between (-180) 180)
    (.rpcError Errors.badRequest "lat/lon out of range")
  let ts ← orTime (arg request "ts")
  let fix ← .ofOutcome (reportedFix num request ts)
  StateAggregator.applyLocation num (.str request.from_) fix "report" none none
  return Response.ok request [("ack", .bool true), ("ts", .float fix.ts)]

def baseMaxAgeS : ℤ := 600

def baseLocation (request : Request) : Prog Response := do
  match ← StateAggregator.getBaseLocation with
  | none => throw (unavailable "Base has no GPS fix yet")
  | some loc =>
    let now ← Prog.time
    let age ← .ofOutcome (ageS now ((loc.lookup "ts").getD (.int 0)))
    require (age ≤ baseMaxAgeS) (stale ("Base fix is " ++ toString age ++ "s old"))
    let lat ← .ofOutcome (item loc "lat")
    let lon ← .ofOutcome (item loc "lon")
    let ts ← .ofOutcome (item loc "ts")
    return Response.ok request
      [("lat", lat), ("lon", lon), ("ts", ts), ("age_s", .int age), ("fix", getKey loc "fix")]

def nodeLocation (request : Request) : Prog Response := do
  let node := target request
  match ← StateAggregator.getNodeLocation (.str node) with
  | none => throw (unavailable ("No location for " ++ node))
  | some loc =>
    let now ← Prog.time
    let age ← .ofOutcome (ageS now (getKey loc "ts"))
    return Response.ok request
      [("node", .str node), ("lat", getKey loc "lat"), ("lon", getKey loc "lon"),
        ("ts", getKey loc "ts"), ("age_s", .int age)]

def nodeStatus (request : Request) : Prog Response := do
  let node := target request
  match ← StateAggregator.getNodeState (.str node) with
  | none => throw (unavailable ("No state for " ++ node))
  | some st =>
    let body :=
      [("id", getKey st "id"), ("online", getKey st "online"),
        ("last_seen_age_s", getKey st "last_seen_age_s")]
    return Response.ok request
      (if (getKey st "bat_pct").isNone then body
        else body ++ [("bat_pct", getKey st "bat_pct")])

def returnToBaseMaxAgeS : ℤ := 600

/-- Where the caller is, and how old that is. -/
def callerPosition (request : Request) : Prog (PyVal × PyVal × ℤ) := do
  if (arg request "lat").isNumber ∧ (arg request "lon").isNumber then
    let lat ← .ofOutcome (arg request "lat").numberToFloat
    let lon ← .ofOutcome (arg request "lon").numberToFloat
    return (.float lat, .float lon, 0)
  else
    match ← StateAggregator.getNodeLocation (.str request.from_) with
    | none => throw (unavailable "Caller has no reported location")
    | some loc =>
      let now ← Prog.time
      let age ← .ofOutcome (ageS now (getKey loc "ts"))
      require (age ≤ returnToBaseMaxAgeS)
        (stale ("Caller's last fix is " ++ toString age ++ "s old"))
      return (getKey loc "lat", getKey loc "lon", age)

def returnToBase (request : Request) : Prog Response := do
  let (fromLat, fromLon, fromAgeS) ← callerPosition request
  match ← StateAggregator.getBaseLocation with
  | none => throw (unavailable "Base has no fix")
  | some base =>
    let now ← Prog.time
    let baseTs ← .ofOutcome (item base "ts")
    let baseAgeS ← .ofOutcome (ageS now baseTs)
    require (baseAgeS ≤ returnToBaseMaxAgeS)
      (stale ("Base's last fix is " ++ toString baseAgeS ++ "s old"))
    let lat ← .ofOutcome (item base "lat")
    let lon ← .ofOutcome (item base "lon")
    let bearing ← .ofOutcome ((geo.initialBearingDeg fromLat fromLon lat lon).mapError .other)
    let dist ← .ofOutcome ((geo.haversineM fromLat fromLon lat lon).mapError .other)
    let bearing ← .ofOutcome bearing.roundToInt
    let dist ← .ofOutcome dist.roundToInt
    return Response.ok request
      [("bearing", .int bearing), ("dist_m", .int dist),
        ("base", .dict [("lat", lat), ("lon", lon), ("age_s", .int baseAgeS)]),
        ("from", .dict [("lat", fromLat), ("lon", fromLon), ("age_s", .int fromAgeS)])]

/-! ## What the handlers await -/

theorem only_outcome {α : Type} {P : Eff → Prop} {o : Except PyExc α} :
    (Coro.ofOutcome o : Prog α).Only P :=
  Only.ofOutcome_iff.mpr True.intro

theorem only_require {P : Eff → Prop} {c : Prop} [Decidable c] {err : PyExc} :
    (require c err).Only P := by
  unfold require
  split <;> exact True.intro

theorem reads_time : Prog.time.Only Eff.Reads := Prog.only_time.mpr trivial

theorem reads_ping (request : Request) : (ping request).Only Eff.Reads := by
  unfold ping
  split
  · split <;> exact True.intro
  · exact True.intro

theorem reads_echo (request : Request) : (echo request).Only Eff.Reads := True.intro

theorem reads_timeNow (request : Request) : (timeNow request).Only Eff.Reads := by
  refine .bind reads_time fun now ↦ .bind only_outcome fun date ↦ ?_
  exact True.intro

theorem reads_gatewayStatus (request : Request) : (gatewayStatus request).Only Eff.Reads := by
  have hcounts : counts.Only Eff.Reads := by
    refine .bind (Prog.only_store.mpr rfl) fun byState ↦
      .bind (Prog.only_store.mpr rfl) fun pending ↦ ?_
    exact True.intro
  refine .bind (Prog.only_getGatewaySnapshot.mpr trivial) fun snap ↦ .bind hcounts fun cs ↦
    .bind ?_ fun snapAgeS ↦ ?_
  · cases snap.snappedAt with
    | none => exact True.intro
    | some snappedAt =>
        refine .bind reads_time fun now ↦ .bind only_outcome fun age ↦ ?_
        exact True.intro
  · exact True.intro

theorem reads_nodeLastSeen (request : Request) : (nodeLastSeen request).Only Eff.Reads := by
  refine .bind (Prog.only_store.mpr rfl) fun ts ↦ ?_
  cases ts with
  | none => exact True.intro
  | some ts => exact .bind reads_time fun _ ↦ .bind only_outcome fun _ ↦ True.intro

theorem reads_baseLocation (request : Request) : (baseLocation request).Only Eff.Reads := by
  refine .bind StateAggregator.reads_getBaseLocation fun loc ↦ ?_
  cases loc with
  | none => exact True.intro
  | some loc =>
      refine .bind reads_time fun now ↦ .bind only_outcome fun age ↦ .bind only_require fun _ ↦
        .bind only_outcome fun lat ↦ .bind only_outcome fun lon ↦ .bind only_outcome fun ts ↦ ?_
      exact True.intro

theorem reads_nodeLocation (request : Request) : (nodeLocation request).Only Eff.Reads := by
  refine .bind StateAggregator.reads_getNodeLocation fun loc ↦ ?_
  cases loc with
  | none => exact True.intro
  | some loc => exact .bind reads_time fun _ ↦ .bind only_outcome fun _ ↦ True.intro

theorem reads_nodeStatus (request : Request) : (nodeStatus request).Only Eff.Reads := by
  refine .bind StateAggregator.reads_getNodeState fun st ↦ ?_
  cases st with
  | none => exact True.intro
  | some st => exact True.intro

theorem reads_callerPosition (request : Request) :
    (callerPosition request).Only Eff.Reads := by
  unfold callerPosition
  split
  · exact .bind only_outcome fun _ ↦ .bind only_outcome fun _ ↦ True.intro
  · refine .bind StateAggregator.reads_getNodeLocation fun loc ↦ ?_
    cases loc with
    | none => exact True.intro
    | some loc =>
        refine .bind reads_time fun now ↦ .bind only_outcome fun age ↦
          .bind only_require fun _ ↦ ?_
        exact True.intro

theorem reads_returnToBase (request : Request) :
    (returnToBase geo request).Only Eff.Reads := by
  refine .bind (reads_callerPosition request) fun caller ↦
    .bind StateAggregator.reads_getBaseLocation fun base ↦ ?_
  cases base with
  | none => exact True.intro
  | some base =>
      refine .bind reads_time fun now ↦ .bind only_outcome fun ts ↦ .bind only_outcome fun age ↦
        .bind only_require fun _ ↦ .bind only_outcome fun lat ↦ .bind only_outcome fun lon ↦
        .bind only_outcome fun _ ↦ .bind only_outcome fun _ ↦ .bind only_outcome fun bearing ↦
        .bind only_outcome fun dist ↦ ?_
      exact True.intro

theorem only_of_reads {α : Type} {x : Prog α} (h : x.Only Eff.Reads) : x.Only Eff.NodeSide :=
  h.mono fun _ he ↦ he.nodeSide

theorem only_ping (request : Request) : (ping request).Only Eff.NodeSide :=
  only_of_reads (reads_ping request)

theorem only_echo (request : Request) : (echo request).Only Eff.NodeSide :=
  only_of_reads (reads_echo request)

theorem only_timeNow (request : Request) : (timeNow request).Only Eff.NodeSide :=
  only_of_reads (reads_timeNow request)

theorem only_gatewayStatus (request : Request) : (gatewayStatus request).Only Eff.NodeSide :=
  only_of_reads (reads_gatewayStatus request)

theorem only_nodeLastSeen (request : Request) : (nodeLastSeen request).Only Eff.NodeSide :=
  only_of_reads (reads_nodeLastSeen request)

theorem only_baseLocation (request : Request) : (baseLocation request).Only Eff.NodeSide :=
  only_of_reads (reads_baseLocation request)

theorem only_nodeLocation (request : Request) : (nodeLocation request).Only Eff.NodeSide :=
  only_of_reads (reads_nodeLocation request)

theorem only_nodeStatus (request : Request) : (nodeStatus request).Only Eff.NodeSide :=
  only_of_reads (reads_nodeStatus request)

theorem only_returnToBase (request : Request) : (returnToBase geo request).Only Eff.NodeSide :=
  only_of_reads (reads_returnToBase geo request)

theorem only_nodeLocationReport (request : Request) :
    (nodeLocationReport num request).Only Eff.NodeSide := by
  refine .bind only_require fun _ ↦ .bind only_require fun _ ↦ .bind (only_orTime _) fun ts ↦
    .bind only_outcome fun fix ↦ .bind (StateAggregator.only_applyLocation num) fun _ ↦ ?_
  exact True.intro

/-! ## What the handlers return -/

section Answers

variable {request : Request}

theorem ping_answers : (ping request).Returns fun r ↦ r.Answers request := by
  unfold ping
  split
  · split <;> exact Response.ok_answers ..
  · exact Response.ok_answers ..

theorem echo_answers : (echo request).Returns fun r ↦ r.Answers request :=
  Response.ok_answers ..

theorem timeNow_answers : (timeNow request).Returns fun r ↦ r.Answers request :=
  .bind fun _ ↦ .bind fun _ ↦ Response.ok_answers ..

theorem gatewayStatus_answers : (gatewayStatus request).Returns fun r ↦ r.Answers request :=
  .bind fun _ ↦ .bind fun _ ↦ .bind fun _ ↦ Response.ok_answers ..

theorem nodeLastSeen_answers : (nodeLastSeen request).Returns fun r ↦ r.Answers request := by
  refine .bind fun ts ↦ ?_
  cases ts with
  | none => exact Response.ok_answers ..
  | some ts => exact .bind fun _ ↦ .bind fun _ ↦ Response.ok_answers ..

theorem nodeLocationReport_answers :
    (nodeLocationReport num request).Returns fun r ↦ r.Answers request :=
  .bind fun _ ↦ .bind fun _ ↦ .bind fun _ ↦ .bind fun _ ↦ .bind fun _ ↦ Response.ok_answers ..

theorem baseLocation_answers : (baseLocation request).Returns fun r ↦ r.Answers request := by
  refine .bind fun loc ↦ ?_
  cases loc with
  | none => exact True.intro
  | some loc =>
      exact .bind fun _ ↦ .bind fun _ ↦ .bind fun _ ↦ .bind fun _ ↦ .bind fun _ ↦ .bind fun _ ↦
        Response.ok_answers ..

theorem nodeLocation_answers : (nodeLocation request).Returns fun r ↦ r.Answers request := by
  refine .bind fun loc ↦ ?_
  cases loc with
  | none => exact True.intro
  | some loc => exact .bind fun _ ↦ .bind fun _ ↦ Response.ok_answers ..

theorem nodeStatus_answers : (nodeStatus request).Returns fun r ↦ r.Answers request := by
  refine .bind fun st ↦ ?_
  cases st with
  | none => exact True.intro
  | some st => exact Response.ok_answers ..

theorem returnToBase_answers : (returnToBase geo request).Returns fun r ↦ r.Answers request := by
  refine .bind fun _ ↦ .bind fun base ↦ ?_
  cases base with
  | none => exact True.intro
  | some base =>
      exact .bind fun _ ↦ .bind fun _ ↦ .bind fun _ ↦ .bind fun _ ↦ .bind fun _ ↦ .bind fun _ ↦
        .bind fun _ ↦ .bind fun _ ↦ .bind fun _ ↦ .bind fun _ ↦ Response.ok_answers ..

end Answers

/-! ## The registry -/

/-- A handler that serves nodes and nothing else. -/
def nodeSide (type : String) (handle : Request → Prog Response)
    (h : ∀ request, (handle request).Only Eff.NodeSide) : Handler where
  type := type
  handle := handle
  quiet request := (h request).mono fun _ he ↦ he.quiet
  quiet_unwind _ := only_letThrough

/-- `DEFAULT_HANDLERS` -/
def defaultHandlers : List Handler :=
  [nodeSide "ping" ping only_ping, nodeSide "echo" echo only_echo,
    nodeSide "time.now" timeNow only_timeNow,
    nodeSide "gateway.status" gatewayStatus only_gatewayStatus,
    nodeSide "node.last_seen" nodeLastSeen only_nodeLastSeen,
    nodeSide "node.location.report" (nodeLocationReport num) (only_nodeLocationReport num),
    nodeSide "base.location" baseLocation only_baseLocation,
    nodeSide "node.location" nodeLocation only_nodeLocation,
    nodeSide "node.status" nodeStatus only_nodeStatus,
    nodeSide "return_to_base" (returnToBase geo) (only_returnToBase geo)]

/-- `Router(DEFAULT_HANDLERS)`, which raises for no type. -/
def defaultRouter : Router where
  rows := defaultHandlers num geo
  nodup := by
    change ["ping", "echo", "time.now", "gateway.status", "node.last_seen",
      "node.location.report", "base.location", "node.location", "node.status",
      "return_to_base"].Nodup
    decide

theorem defaultRouter_only {type : String} {handler : Handler}
    (h : (defaultRouter num geo).resolve type = some handler) (request : Request) :
    (handler.handle request).Only Eff.NodeSide := by
  have hmem : handler ∈ defaultHandlers num geo := (Table.find?_eq_some.mp h).1
  simp only [defaultHandlers, List.mem_cons, List.not_mem_nil, or_false] at hmem
  rcases hmem with rfl | rfl | rfl | rfl | rfl | rfl | rfl | rfl | rfl | rfl
  · exact only_ping request
  · exact only_echo request
  · exact only_timeNow request
  · exact only_gatewayStatus request
  · exact only_nodeLastSeen request
  · exact only_nodeLocationReport num request
  · exact only_baseLocation request
  · exact only_nodeLocation request
  · exact only_nodeStatus request
  · exact only_returnToBase geo request

/-- Only the location report does more than read. -/
theorem defaultRouter_reads {type : String} {handler : Handler}
    (h : (defaultRouter num geo).resolve type = some handler)
    (htype : type ≠ "node.location.report")
    (request : Request) : (handler.handle request).Only Eff.Reads := by
  obtain ⟨hmem, hkey⟩ : handler ∈ defaultHandlers num geo ∧ handler.type = type :=
    Table.find?_eq_some.mp h
  simp only [defaultHandlers, List.mem_cons, List.not_mem_nil, or_false] at hmem
  rcases hmem with rfl | rfl | rfl | rfl | rfl | rfl | rfl | rfl | rfl | rfl
  · exact reads_ping request
  · exact reads_echo request
  · exact reads_timeNow request
  · exact reads_gatewayStatus request
  · exact reads_nodeLastSeen request
  · exact absurd hkey.symm htype
  · exact reads_baseLocation request
  · exact reads_nodeLocation request
  · exact reads_nodeStatus request
  · exact reads_returnToBase geo request

theorem resolve_report {handler : Handler}
    (h : (defaultRouter num geo).resolve "node.location.report" = some handler) :
    handler.handle = nodeLocationReport num := by
  obtain ⟨hmem, hkey⟩ : handler ∈ defaultHandlers num geo ∧
      handler.type = "node.location.report" := Table.find?_eq_some.mp h
  simp only [defaultHandlers, List.mem_cons, List.not_mem_nil, or_false] at hmem
  rcases hmem with rfl | rfl | rfl | rfl | rfl | rfl | rfl | rfl | rfl | rfl
  all_goals first | rfl | exact absurd hkey (by simp [nodeSide])

/-- A default handler that its TTL cancels lets the cancellation through. -/
theorem defaultRouter_unwind {type : String} {handler : Handler}
    (h : (defaultRouter num geo).resolve type = some handler) :
    handler.unwind = fun _ ↦ letThrough := by
  have hmem : handler ∈ defaultHandlers num geo := (Table.find?_eq_some.mp h).1
  simp only [defaultHandlers, List.mem_cons, List.not_mem_nil, or_false] at hmem
  rcases hmem with rfl | rfl | rfl | rfl | rfl | rfl | rfl | rfl | rfl | rfl <;> rfl

theorem defaultRouter_timed_eq {type : String} {handler : Handler}
    (h : (defaultRouter num geo).resolve type = some handler) (request : Request) (ttlS : ℤ) :
    handler.timed request ttlS = waitFor ttlS (handler.handle request) letThrough := by
  rw [Handler.timed, defaultRouter_unwind num geo h]

/-- What the effects of a default handler under its TTL have in common. -/
theorem defaultRouter_timed {type : String} {handler : Handler} {P : Eff → Prop}
    (h : (defaultRouter num geo).resolve type = some handler) (request : Request) {ttlS : ℤ}
    (hP : ∀ e, e.NodeSide → P (.underTtl ttlS e)) : (handler.timed request ttlS).Only P := by
  rw [defaultRouter_timed_eq num geo h]
  exact only_waitFor ((defaultRouter_only num geo h request).mono hP) only_letThrough

/-- Every default handler builds its response from the request it received. -/
theorem defaultRouter_answers {type : String} {handler : Handler}
    (h : (defaultRouter num geo).resolve type = some handler) (request : Request) :
    handler.Answers request := by
  refine ⟨?_, fun done e ↦ ?_⟩
  swap
  · rw [defaultRouter_unwind num geo h]
    exact fun _ hnone ↦ by cases hnone
  have hmem : handler ∈ defaultHandlers num geo := (Table.find?_eq_some.mp h).1
  simp only [defaultHandlers, List.mem_cons, List.not_mem_nil, or_false] at hmem
  rcases hmem with rfl | rfl | rfl | rfl | rfl | rfl | rfl | rfl | rfl | rfl
  · exact ping_answers
  · exact echo_answers
  · exact timeNow_answers
  · exact gatewayStatus_answers
  · exact nodeLastSeen_answers
  · exact nodeLocationReport_answers num
  · exact baseLocation_answers
  · exact nodeLocation_answers
  · exact nodeStatus_answers
  · exact returnToBase_answers geo

theorem router_defaultHandlers :
    Router.ofHandlers (defaultHandlers num geo) = .ok (defaultRouter num geo) := by
  rfl

end Handlers

end MeshcoreRpc
