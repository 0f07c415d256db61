import MeshcoreRpc.Core.Lifecycle
import MeshcoreRpc.Handlers
import MeshcoreRpc.Transport.Shutdown
import MeshcoreRpc.Transport.Wire

/-!
# A request from end to end

`Service._handle_one` and `Service._emit`, and `scripts/send_request.py` at the
other end of the broker.  How pydantic writes a response is a parameter.
-/

namespace MeshcoreRpc

open Tables Coroutine Coro

namespace Transport

/-! ## The service -/

section Service

variable (num : Numerals) (py : Pydantic) (loads : String → Except PyExc PyVal)
  (policy : TimeoutPolicy) (router : Router)

/-- `_handle_one` -/
def handleOne (topic : String) (payload : List UInt8) : Prog Unit :=
  match inboundToRequest num py loads topic (.bytes payload) with
  | .error err => throw err
  | .ok env =>
    match env.request with
    | none =>
      match env.errorResponse with
      | none => pure ()
      | some response => tryCatch (Prog.emit response.to_ response) fun _ ↦ pure ()
    | some request => processRequest policy router request

end Service

theorem emissions_append (tr tr' : Trace) : emissions (tr ++ tr') = emissions tr ++ emissions tr' :=
  List.filterMap_append

/-- A finished call emits once, unless a store call raised before. -/
theorem emissions_of_course {ttlS : ℤ} {router : Router} {request : Request} {tr : Trace}
    {o : Except PyExc Unit} (h : Course ttlS router request tr o) :
    (emissions tr = [] ∧ ∃ err c, ∃ r : Except PyExc (StoreCall.Answer c),
      o = .error err ∧ ⟨.store c, r⟩ ∈ tr ∧ r = .error err) ∨
    ∃ (verdict : Verdict) (r : Except PyExc Unit), verdict.Decided ttlS router request tr ∧
      emissions tr = [(request.from_, verdict.response request ttlS, r)] := by
  have hvisible : emissions tr = emissions (visible tr) :=
    filterMap_visible (fun _ ↦ rfl) (fun _ _ _ ↦ rfl) (fun _ _ ↦ rfl) tr
  cases h with
  | cut verdict seenAt pre err htr hpre =>
      left
      refine ⟨?_, ?_⟩
      · rw [hvisible, htr, emissions, List.filterMap_cons]
        exact emissions_before hpre
      · obtain ⟨x, hx, hes, hraised⟩ := hpre.exists_raised
        obtain ⟨c, r, rfl, rfl⟩ := raised_store hes hraised
        exact ⟨err, c, .error err, rfl,
          mem_of_visible (htr ▸ List.mem_cons_of_mem _ hx), rfl⟩
  | through verdict seenAt pre fin o htr hpre hfin hdecided =>
      right
      have hfront : emissions tr = emissions fin := by
        rw [hvisible, htr, emissions, List.filterMap_cons, List.filterMap_append]
        exact congrArg (· ++ emissions fin) (emissions_before hpre)
      cases hfin with
      | published logged completed => exact ⟨verdict, .ok (), hdecided, hfront⟩
      | dropped err completed => exact ⟨verdict, .error err, hdecided, hfront⟩

/-- The router's handlers answer the request they are given. -/
def AnswersRequest (router : Router) (request : Request) : Prop :=
  ∀ handler, router.resolve request.type = some handler → handler.Answers request

/-- However far a call has got, it has emitted nothing, or one response to its sender. -/
theorem processRequest_emissions {policy : TimeoutPolicy} {router : Router} {request : Request}
    (hanswers : AnswersRequest router request) {tr : Trace} {y : Prog Unit}
    (h : Steps (processRequest policy router request) tr y) :
    emissions tr = [] ∨ ∃ response r,
      emissions tr = [(request.from_, response, r)] ∧ response.Answers request := by
  obtain ⟨rest, o, hcourse⟩ := course_of_steps h
  rcases emissions_of_course hcourse with ⟨hnone, -⟩ | ⟨verdict, r, hdecided, hone⟩
  · left
    rw [emissions_append] at hnone
    exact (List.append_eq_nil_iff.mp hnone).1
  · rw [emissions_append] at hone
    rcases List.append_eq_singleton_iff.mp hone with ⟨hnone, -⟩ | ⟨hone, -⟩
    · exact .inl hnone
    · exact .inr ⟨_, r, hone, hdecided.answers hanswers⟩

/-- A finished call emits one response to its sender, unless a store call raised before. -/
theorem processRequest_finished {policy : TimeoutPolicy} {router : Router} {request : Request}
    (hanswers : AnswersRequest router request) {tr : Trace} {o : Except PyExc Unit}
    (h : Steps (processRequest policy router request) tr (ofOutcome o)) :
    (∃ response r, emissions tr = [(request.from_, response, r)] ∧ response.Answers request) ∨
    (emissions tr = [] ∧ ∃ err c, ∃ r : Except PyExc (StoreCall.Answer c),
      o = .error err ∧ ⟨.store c, r⟩ ∈ tr ∧ r = .error err) := by
  have hcourse := wp_iff.mp (processRequest_course policy router request) tr o h
  rcases emissions_of_course hcourse with hcut | ⟨verdict, r, hdecided, hone⟩
  · exact .inr hcut
  · exact .inl ⟨_, r, hone, hdecided.answers hanswers⟩

section Handled

variable {num : Numerals} {py : Pydantic} {loads : String → Except PyExc PyVal}
  {policy : TimeoutPolicy} {router : Router} {topic : String} {payload : List UInt8}

theorem handleOne_request {request : Request} {error : Option Response} {source : String}
    (h : inboundToRequest num py loads topic (.bytes payload) = .ok ⟨some request, error, source⟩) :
    handleOne num py loads policy router topic payload = processRequest policy router request := by
  simp only [handleOne, h]

theorem handleOne_refused {response : Response} {source : String}
    (h : inboundToRequest num py loads topic (.bytes payload) = .ok ⟨none, some response, source⟩) :
    handleOne num py loads policy router topic payload =
      tryCatch (Prog.emit response.to_ response) fun _ ↦ pure () := by
  simp only [handleOne, h]

theorem handleOne_dropped {source : String}
    (h : inboundToRequest num py loads topic (.bytes payload) = .ok ⟨none, none, source⟩) :
    handleOne num py loads policy router topic payload = pure () := by
  simp only [handleOne, h]

end Handled

/-- The one attempt to report a bad request. -/
theorem steps_report {response : Response} {tr : Trace} {o : Except PyExc Unit}
    (h : Steps (tryCatch (Prog.emit response.to_ response) fun _ ↦ pure ()) tr (ofOutcome o)) :
    (∃ r, tr = [⟨.emit response.to_ response, r⟩]) ∧ o = .ok () := by
  have hspec : (tryCatch (Prog.emit response.to_ response) fun _ ↦ (pure () : Prog Unit)).wp
      fun tr o ↦ (∃ r, tr = [⟨.emit response.to_ response, r⟩]) ∧ o = .ok () := by
    simp only [wp_tryCatch, Prog.wp_emit]
    intro r
    cases r with
    | ok a => exact ⟨⟨_, rfl⟩, trivial⟩
    | error err => exact ⟨⟨.error err, rfl⟩, rfl⟩
  exact wp_iff.mp hspec tr o h

theorem emissions_report {response : Response} {tr : Trace} {y : Prog Unit}
    (h : Steps (tryCatch (Prog.emit response.to_ response) fun _ ↦ pure ()) tr y) :
    emissions tr = [] ∨ ∃ r, emissions tr = [(response.to_, response, r)] := by
  obtain ⟨rest, o, hfinish⟩ := h.extend Eff.answer_nonempty
  obtain ⟨⟨r, hr⟩, -⟩ := steps_report hfinish
  have hboth : emissions tr ++ emissions rest = [(response.to_, response, r)] := by
    rw [← emissions_append, hr]
    rfl
  rcases List.append_eq_singleton_iff.mp hboth with ⟨hnone, -⟩ | ⟨hone, -⟩
  · exact .inl hnone
  · exact .inr ⟨r, hone⟩

/-- Every message on the request topic gets one attempted answer to its sender, under the id and
type it came with, or is reported to the sender it names, or is dropped; only an exception
of the store keeps a request without an answer. -/
theorem handleOne_answers_once (num : Numerals) (geo : Geo) (py : Pydantic)
    (loads : String → Except PyExc PyVal) (policy : TimeoutPolicy) (topic : String)
    (payload : List UInt8) {tr : Trace} {o : Except PyExc Unit}
    (h : Steps (handleOne num py loads policy (Handlers.defaultRouter num geo) topic payload) tr
      (ofOutcome o)) :
    (∀ request, inboundToRequest num py loads topic (.bytes payload) =
        .ok ⟨some request, none, topic⟩ →
      (∃ response r, emissions tr = [(request.from_, response, r)] ∧ response.Answers request) ∨
      (emissions tr = [] ∧ ∃ err c, ∃ r : Except PyExc (StoreCall.Answer c),
        o = .error err ∧ ⟨.store c, r⟩ ∈ tr ∧ r = .error err)) ∧
    (∀ response, inboundToRequest num py loads topic (.bytes payload) =
        .ok ⟨none, some response, topic⟩ →
      (∃ r, tr = [⟨.emit response.to_ response, r⟩]) ∧ o = .ok ()) ∧
    (inboundToRequest num py loads topic (.bytes payload) = .ok ⟨none, none, topic⟩ →
      tr = [] ∧ o = .ok ()) := by
  refine ⟨fun request hin ↦ ?_, fun response hin ↦ ?_, fun hin ↦ ?_⟩
  · rw [handleOne_request hin] at h
    exact processRequest_finished (fun handler hrouter ↦
      Handlers.defaultRouter_answers num geo hrouter request) h
  · rw [handleOne_refused hin] at h
    exact steps_report h
  · rw [handleOne_dropped hin] at h
    have hspec : (pure () : Prog Unit).wp fun tr o ↦ tr = [] ∧ o = .ok () := ⟨rfl, rfl⟩
    exact wp_iff.mp hspec tr o h

/-! ## The response leaves -/

def statusText : Status → String
  | .ok => "ok"
  | .error => "error"

/-- `model_dump(exclude_none=True)` of a response. -/
def responseDict (response : Response) : List (String × PyVal) :=
  [("v", .int response.v), ("id", .str response.id), ("type", .str response.type),
    ("to", .str response.to_), ("status", .str (statusText response.status))] ++
  (response.body.map fun body ↦ ("body", PyVal.dict body)).toList ++
  (response.error.map fun error ↦
    ("error", PyVal.dict [("code", .str error.code), ("message", .str error.message)])).toList

/-- `_emit` up to the broker, with pydantic's `model_dump_json`: topic and payload. -/
def emitted (dumpJson : List (String × PyVal) → String) (nodeId : String) (response : Response) :
    Except PyExc (String × List UInt8) := do
  let topic ← emitTopic nodeId response
  return (topic, encode (dumpJson (responseDict response)))

/-! ## The client -/

/-- The options of the script. -/
structure SendOptions where
  type : String
  from_ : String
  id : Option String := none
  ttl : ℤ := 10
  args : String := "\x7b\x7d"

namespace SendOptions

variable (ft : FloatText) (limit : ℕ) (opts : SendOptions)

/-- `opts.id or uuid.uuid4().hex[:8]` -/
def reqId (fresh : String) : String :=
  match opts.id with
  | none => fresh
  | some id => if id = "" then fresh else id

def requestObject (id : String) (args : PyVal) : List (String × PyVal) :=
  [("v", .int 1), ("id", .str id), ("type", .str opts.type), ("from", .str opts.from_),
    ("ttl", .int opts.ttl), ("args", args)]

/-- What `main` publishes, `none` when it complains about the arguments instead. -/
def sendRequest (fresh : String) : Except PyExc (Option (List UInt8)) :=
  match loads ft limit opts.args with
  | .error err => if err = .jsonDecodeError then .ok none else .error err
  | .ok args =>
    .ok (some (encode (dumps ft .default (.dict (opts.requestObject (opts.reqId fresh) args)))))

def responseTopic : String := Topics.rpcResponsePrefix ++ "/" ++ opts.from_

/-- `on_message`: the body of the response to the request. -/
def onMessage (fresh : String) (payload : List UInt8) : Option (List (String × PyVal)) :=
  match decodeStrict payload >>= loads ft limit with
  | .error _ => none
  | .ok body =>
    match body with
    | .dict kvs =>
      match kvs.lookup "id" with
      | some (.str id) => if id = opts.reqId fresh then some kvs else none
      | _ => none
    | _ => none

/-- The request the service should see. -/
def request? (id : String) (args : PyVal) : Option Request :=
  match args with
  | .dict kvs =>
    if h : FieldLength id ∧ FieldLength opts.type ∧ FieldLength opts.from_ ∧ 1 ≤ opts.ttl then
      some ⟨1, id, opts.type, opts.from_, some opts.ttl, kvs, h.1, h.2.1, h.2.2.1,
        by simpa using h.2.2.2⟩
    else none
  | _ => none

end SendOptions

/-- Pydantic takes an integer and a string as they are. -/
structure Plain (py : Pydantic) : Prop where
  int : ∀ n, py.int (.int n) = some n
  str : ∀ s, py.str (.str s) = some s

theorem ofObject_requestObject {py : Pydantic} (hpy : Plain py) (opts : SendOptions) (id : String)
    (args : PyVal) : Request.ofObject py (opts.requestObject id args) = opts.request? id args := by
  have hkeys : ∀ kv ∈ opts.requestObject id args,
      kv.1 ∈ ["v", "id", "type", "from", "ttl", "args"] := by
    simp [SendOptions.requestObject]
  have hfrom : Request.fromKey (opts.requestObject id args) = "from" := by
    simp [Request.fromKey, SendOptions.requestObject, List.lookup_cons]
  have hv : Request.vField py (opts.requestObject id args) = some 1 := by
    simp [Request.vField, SendOptions.requestObject, hpy.int]
  have hbounded (k s : String) (hk : (opts.requestObject id args).lookup k = some (.str s)) :
      Request.boundedField py (opts.requestObject id args) k =
        if h : FieldLength s then some ⟨s, h⟩ else none := by
    simp [Request.boundedField, hk, hpy.str]
  have hid := hbounded "id" id (by simp [SendOptions.requestObject, List.lookup_cons])
  have htype := hbounded "type" opts.type (by simp [SendOptions.requestObject, List.lookup_cons])
  have hsender := hbounded "from" opts.from_ (by simp [SendOptions.requestObject, List.lookup_cons])
  have httl : Request.ttlField py (opts.requestObject id args) =
      if h : 1 ≤ opts.ttl then some ⟨some opts.ttl, by simpa using h⟩ else none := by
    simp [Request.ttlField, SendOptions.requestObject, List.lookup_cons, hpy.int]
  have hlookup : (opts.requestObject id args).lookup "args" = some args := by
    simp [SendOptions.requestObject, List.lookup_cons]
  have hargs : Request.argsField (opts.requestObject id args) =
      match args with
      | .dict kvs => some kvs
      | _ => none := by
    rw [Request.argsField, hlookup]
    cases args <;> rfl
  rw [Request.ofObject, hfrom, guard, if_pos hkeys, hv, hid, htype, hsender, httl, hargs]
  clear hkeys hfrom hv hbounded hid htype hsender httl hlookup hargs
  cases args with
  | dict kvs =>
      rw [SendOptions.request?]
      by_cases h1 : FieldLength id <;> by_cases h2 : FieldLength opts.type <;>
        by_cases h3 : FieldLength opts.from_ <;> by_cases h4 : 1 ≤ opts.ttl <;>
        simp [h1, h2, h3, h4]
  | _ =>
      by_cases h1 : FieldLength id <;> by_cases h2 : FieldLength opts.type <;>
        by_cases h3 : FieldLength opts.from_ <;> by_cases h4 : 1 ≤ opts.ttl <;>
        simp [SendOptions.request?, h1, h2, h3, h4]

/-! ## The request arrives -/

namespace SendOptions

variable {ft : FloatText} {limit limit' : ℕ} {opts : SendOptions} {fresh : String}
  {payload : List UInt8} {py : Pydantic}

/-- What the service makes of the request: the request itself, or a report to the sender. -/
def envelope (opts : SendOptions) (id : String) (args : PyVal) : InboundEnvelope :=
  match opts.request? id args with
  | some request => ⟨some request, none, Topics.rpcRequest⟩
  | none =>
    ⟨none,
      if opts.from_ = "" then none
      else some (Response.makeError id (if opts.type = "" then "unknown" else opts.type) opts.from_
        Errors.badRequest "Request payload failed validation"),
      Topics.rpcRequest⟩

theorem dumpable_requestObject {id : String} {args : PyVal}
    (httl : (Nat.toDigits 10 opts.ttl.natAbs).length ≤ 4300) (hargs : Dumpable ft limit args)
    (hlimit : limit < limit') : Dumpable ft limit' (.dict (opts.requestObject id args)) := by
  obtain ⟨depth, rfl⟩ := Nat.exists_eq_succ_of_ne_zero (by omega : limit' ≠ 0)
  refine ⟨by simp [requestObject], fun kv hkv ↦ ?_⟩
  simp only [requestObject, List.mem_cons, List.not_mem_nil, or_false] at hkv
  rcases hkv with rfl | rfl | rfl | rfl | rfl | rfl
  · cases depth <;> exact (by decide : (Nat.toDigits 10 1).length ≤ 4300)
  · cases depth <;> trivial
  · cases depth <;> trivial
  · cases depth <;> trivial
  · cases depth <;> exact httl
  · exact hargs.mono (by omega)

theorem reqId_ne_empty (hfresh : fresh ≠ "") : opts.reqId fresh ≠ "" := by
  unfold reqId
  split
  · exact hfresh
  · split_ifs with hid
    · exact hfresh
    · exact hid

theorem build_requestObject {num : Numerals} {id : String} {args : PyVal} (hid : id ≠ "") :
    tryBuildBadRequestResponse num (.dict (opts.requestObject id args)) =
      if opts.from_ = "" then none
      else some (Response.makeError id (if opts.type = "" then "unknown" else opts.type) opts.from_
        Errors.badRequest "Request payload failed validation") := by
  have hget (k : String) (s : String) (hk : (opts.requestObject id args).lookup k = some (.str s)) :
      getKey (opts.requestObject id args) k = .str s := by
    rw [getKey, hk, Option.getD_some]
  have hkid := hget "id" id (by simp [requestObject, List.lookup_cons])
  have hktype := hget "type" opts.type (by simp [requestObject, List.lookup_cons])
  have hkfrom := hget "from" opts.from_ (by simp [requestObject, List.lookup_cons])
  simp only [tryBuildBadRequestResponse, hkid, hktype, hkfrom, PyVal.truthy]
  by_cases hfrom : opts.from_ = ""
  · simp [hfrom]
  · by_cases htype : opts.type = ""
    · simp [hid, hfrom, htype, PyVal.or, PyVal.truthy, PyVal.toStr]
    · simp [hid, hfrom, htype, PyVal.or, PyVal.truthy, PyVal.toStr]

/-- What `send_request.py` sends, the service reads as it was meant. -/
theorem inbound_of_sendRequest (num : Numerals) (hpy : Plain py) (hft : ft.Faithful)
    (hlimit : limit < limit')
    (httl : (Nat.toDigits 10 opts.ttl.natAbs).length ≤ 4300) (hfresh : fresh ≠ "")
    (h : opts.sendRequest ft limit fresh = .ok (some payload)) :
    ∃ args, loads ft limit opts.args = .ok args ∧
      inboundToRequest num py (loads ft limit') Topics.rpcRequest (.bytes payload) =
        .ok (opts.envelope (opts.reqId fresh) args) := by
  cases hargs : loads ft limit opts.args with
  | error err =>
      simp only [sendRequest, hargs] at h
      split_ifs at h
      cases h
  | ok args =>
      refine ⟨args, rfl, ?_⟩
      simp only [sendRequest, hargs] at h
      obtain rfl := Option.some.inj (Except.ok.inj h)
      have hread := (dumpable_requestObject httl (dumpable_of_loads hft hargs) hlimit :
        Dumpable ft limit' (.dict (opts.requestObject (opts.reqId fresh) args)))
      rw [inboundToRequest, decode_encode, loads_dumps hread]
      simp only [Request.modelValidate, ofObject_requestObject hpy, envelope]
      cases opts.request? (opts.reqId fresh) args with
      | some request => rfl
      | none =>
          simp only [if_true]
          rw [build_requestObject (reqId_ne_empty hfresh)]

theorem lookup_responseDict (response : Response) :
    (responseDict response).lookup "id" = some (.str response.id) := by
  simp [responseDict, List.lookup_cons]

/-- A response to the request goes to the topic the client listens to, and is taken for it. -/
theorem heard {dumpJson : List (String × PyVal) → String} {nodeId : String} {response : Response}
    (hto : response.to_ = opts.from_) (hid : response.id = opts.reqId fresh)
    (hfrom : opts.from_ ≠ "")
    (hdump : loads ft limit (dumpJson (responseDict response)) =
      .ok (.dict (responseDict response))) :
    ∃ bytes, emitted dumpJson nodeId response = .ok (opts.responseTopic, bytes) ∧
      opts.onMessage ft limit fresh bytes = some (responseDict response) := by
  refine ⟨encode (dumpJson (responseDict response)), ?_, ?_⟩
  · have htopic : emitTopic nodeId response = .ok opts.responseTopic := by
      rw [emitTopic, hto, if_neg hfrom, Topics.rpcResponseTopic, if_neg hfrom, responseTopic]
    rw [emitted, htopic]
    rfl
  · have hread : decodeStrict (encode (dumpJson (responseDict response))) >>= loads ft limit =
        .ok (.dict (responseDict response)) := by
      rw [decodeStrict_encode]
      exact hdump
    simp only [onMessage, hread, lookup_responseDict, hid, if_true]

theorem request?_eq_some {id : String} {args : PyVal} {request : Request}
    (h : opts.request? id args = some request) :
    request.id = id ∧ request.from_ = opts.from_ := by
  cases args with
  | dict kvs =>
      rw [request?] at h
      split_ifs at h with hvalid
      obtain rfl := Option.some.inj h
      exact ⟨rfl, rfl⟩
  | _ => simp [request?] at h

end SendOptions

/-- A request of the client, however far its handling has got: at most one response has been
attempted, on the topic the client listens to, and the client takes it for the answer. -/
theorem client_hears (ft : FloatText) (limit limit' : ℕ) (num : Numerals) (geo : Geo)
    (py : Pydantic) (policy : TimeoutPolicy) (opts : SendOptions) (fresh : String)
    (dumpJson : List (String × PyVal) → String) {payload : List UInt8} {tr : Trace} {y : Prog Unit}
    (hft : ft.Faithful) (hpy : Plain py) (hlimit : limit < limit') (hfresh : fresh ≠ "")
    (httl : (Nat.toDigits 10 opts.ttl.natAbs).length ≤ 4300)
    (hsent : opts.sendRequest ft limit fresh = .ok (some payload))
    (hsteps : Steps (handleOne num py (loads ft limit') policy (Handlers.defaultRouter num geo)
      Topics.rpcRequest payload) tr y) :
    (emissions tr).length ≤ 1 ∧ ∀ nodeId response r, (nodeId, response, r) ∈ emissions tr →
      loads ft limit (dumpJson (responseDict response)) = .ok (.dict (responseDict response)) →
      ∃ bytes, emitted dumpJson nodeId response = .ok (opts.responseTopic, bytes) ∧
        opts.onMessage ft limit fresh bytes = some (responseDict response) := by
  obtain ⟨args, -, hin⟩ := SendOptions.inbound_of_sendRequest num hpy hft hlimit httl
    hfresh hsent
  rw [SendOptions.envelope] at hin
  cases hrequest : opts.request? (opts.reqId fresh) args with
  | some request =>
      rw [hrequest] at hin
      obtain ⟨hid, hfrom⟩ := SendOptions.request?_eq_some hrequest
      rw [handleOne_request hin] at hsteps
      have hanswers : AnswersRequest (Handlers.defaultRouter num geo) request :=
        fun handler hrouter ↦ Handlers.defaultRouter_answers num geo hrouter request
      have hsender : opts.from_ ≠ "" := by
        rintro hempty
        have hlength := request.from_length.1
        rw [hfrom, hempty] at hlength
        simp at hlength
      rcases processRequest_emissions hanswers hsteps with hnone | ⟨response, r, hone, hanswer⟩
      · simp [hnone]
      · rw [hone]
        refine ⟨by simp, fun nodeId response' r' hmem hdump ↦ ?_⟩
        obtain ⟨rfl, rfl, rfl⟩ : nodeId = request.from_ ∧ response' = response ∧ r' = r := by
          simpa using hmem
        exact SendOptions.heard (hanswer.2.2.trans hfrom) (hanswer.1.trans hid) hsender hdump
  | none =>
      rw [hrequest] at hin
      by_cases hsender : opts.from_ = ""
      · rw [if_pos hsender] at hin
        rw [handleOne_dropped hin] at hsteps
        obtain rfl : tr = [] := (Steps.ret_iff.mp hsteps).1
        simp [emissions]
      · rw [if_neg hsender] at hin
        rw [handleOne_refused hin] at hsteps
        rcases emissions_report hsteps with hnone | ⟨r, hone⟩
        · simp [hnone]
        · rw [hone]
          refine ⟨by simp, fun nodeId response' r' hmem hdump ↦ ?_⟩
          obtain ⟨rfl, rfl, rfl⟩ := Prod.mk.inj (List.mem_singleton.mp hmem)
          exact SendOptions.heard rfl rfl hsender hdump

theorem wholeFloats_faithful : wholeFloats.Faithful := by
  intro whole fraction exponent q h
  obtain rfl : ((intValue whole : ℤ) : ℚ) = q := PyFloat.fin.inj h
  exact wholeFloats_exact _

theorem plain_samplePydantic : Plain samplePydantic := ⟨fun _ ↦ rfl, fun _ ↦ rfl⟩

def pingOptions : SendOptions where
  type := "ping"
  from_ := "node-a"
  id := some "r1"

/-- The payload of `send_request.py --type ping --from node-a --id r1`. -/
def pingPayload : List UInt8 :=
  encode (dumps wholeFloats .default (.dict (pingOptions.requestObject "r1" (.dict []))))

theorem loads_pingArgs : loads wholeFloats 8 pingOptions.args = .ok (.dict []) := by
  have htext : dumps wholeFloats .compact (.dict []) = pingOptions.args := by decide +kernel
  rw [← htext]
  exact loads_dumps ⟨List.nodup_nil, by simp⟩

theorem sendRequest_ping :
    pingOptions.sendRequest wholeFloats 8 "f" = .ok (some pingPayload) := by
  rw [SendOptions.sendRequest, loads_pingArgs]
  rfl

/-- The ping needs no distances. -/
def unusedGeo : Geo := ⟨fun _ _ _ _ ↦ .ok .nan, fun _ _ _ _ ↦ .ok .nan⟩

/-- The ping, answered by a database of its own. -/
def pingTrace : Trace :=
  (handleOne .plain samplePydantic (loads wholeFloats 9) {}
    (Handlers.defaultRouter .plain unusedGeo)
    Topics.rpcRequest pingPayload).exchanges (Eff.respond .plain 0 fun _ ↦ none) Db.empty

theorem client_hears_ping : (emissions pingTrace).length ≤ 1 ∧
    ∀ nodeId response r, (nodeId, response, r) ∈ emissions pingTrace →
      loads wholeFloats 8 (dumps wholeFloats .compact (.dict (responseDict response))) =
        .ok (.dict (responseDict response)) →
      ∃ bytes, emitted (fun d ↦ dumps wholeFloats .compact (.dict d)) nodeId response =
          .ok (pingOptions.responseTopic, bytes) ∧
        pingOptions.onMessage wholeFloats 8 "f" bytes = some (responseDict response) :=
  client_hears wholeFloats 8 9 .plain unusedGeo samplePydantic {} pingOptions "f"
    (fun d ↦ dumps wholeFloats .compact (.dict d)) wholeFloats_faithful plain_samplePydantic
    (by decide) (by decide) (by decide) sendRequest_ping (steps_exchanges _ _)

def pingRequest : Request where
  id := "r1"
  type := "ping"
  from_ := "node-a"
  ttl := some 10
  id_length := length_r1
  type_length := length_ping
  from_length := length_nodeA
  ttl_ge := by simp

/-- The ping is accepted, and gets its one answer unless the store raises. -/
theorem ping_answered_once :
    (∃ response r, emissions pingTrace = [("node-a", response, r)] ∧
      response.Answers pingRequest) ∨
    (emissions pingTrace = [] ∧ ∃ err c, ∃ r : Except PyExc (StoreCall.Answer c),
      ((handleOne .plain samplePydantic (loads wholeFloats 9) {}
        (Handlers.defaultRouter .plain unusedGeo) Topics.rpcRequest pingPayload).eval
          (Eff.respond .plain 0 fun _ ↦ none) Db.empty).1 = .error err ∧
        ⟨.store c, r⟩ ∈ pingTrace ∧ r = .error err) := by
  obtain ⟨args, hargs, hin⟩ := SendOptions.inbound_of_sendRequest .plain plain_samplePydantic
    wholeFloats_faithful (by decide : 8 < 9) (by decide) (by decide : "f" ≠ "") sendRequest_ping
  obtain rfl : PyVal.dict [] = args := Except.ok.inj (loads_pingArgs.symm.trans hargs)
  exact (handleOne_answers_once .plain unusedGeo samplePydantic (loads wholeFloats 9) {}
    Topics.rpcRequest pingPayload (steps_exchanges _ _)).1 pingRequest hin

end Transport

end MeshcoreRpc
