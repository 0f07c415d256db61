import MeshcoreRpc.Python

/-!
# The contract: requests, responses, error codes, lifecycle states, topics

The plain data of `schemas.py`, `errors.py`, `lifecycle.py` and
`mqtt/topics.py`.
-/

namespace MeshcoreRpc

namespace Errors

def badRequest : String := "bad_request"
def unknownType : String := "unknown_type"
def duplicate : String := "duplicate"
def timeout : String := "timeout"
def internal : String := "internal"
def stale : String := "stale"
def unavailable : String := "unavailable"

end Errors

/-! ## Lifecycle states -/

inductive EventState where
  | received
  | validated
  | rejected
  | handlerStarted
  | responsePublished
  | timeout
  deriving DecidableEq

def EventState.text : EventState → String
  | received => "received"
  | validated => "validated"
  | rejected => "rejected"
  | handlerStarted => "handler_started"
  | responsePublished => "response_published"
  | timeout => "timeout"

inductive FinalState where
  | completedOk
  | completedError
  deriving DecidableEq

def FinalState.text : FinalState → String
  | completedOk => "completed_ok"
  | completedError => "completed_error"

/-! ## Requests and responses -/

def schemaVersion : ℤ := 1

/-- What `Field(min_length=1, max_length=128)` admits. -/
def FieldLength (s : String) : Prop := 1 ≤ s.length ∧ s.length ≤ 128

instance : DecidablePred FieldLength := fun s ↦
  inferInstanceAs (Decidable (1 ≤ s.length ∧ s.length ≤ 128))

/-- A validated request. -/
structure Request where
  v : ℤ := schemaVersion
  id : String
  type : String
  from_ : String
  ttl : Option ℤ := none
  args : List (String × PyVal) := []
  id_length : FieldLength id
  type_length : FieldLength type
  from_length : FieldLength from_
  ttl_ge : ∀ t ∈ ttl, 1 ≤ t

/-- `(node_id, id)`: what makes a request unique. -/
abbrev RequestKey := String × String

def Request.key (request : Request) : RequestKey := (request.from_, request.id)

/-- What pydantic makes of a JSON value for a field of a primitive type. -/
structure Pydantic where
  int : PyVal → Option ℤ
  str : PyVal → Option String

namespace Request

variable (py : Pydantic)

/-- A field of one to 128 characters. -/
def boundedField (kvs : List (String × PyVal)) (k : String) : Option { s // FieldLength s } := do
  let s ← py.str (← kvs.lookup k)
  if h : FieldLength s then some ⟨s, h⟩ else none

def vField (kvs : List (String × PyVal)) : Option ℤ :=
  match kvs.lookup "v" with
  | none => some schemaVersion
  | some v => py.int v

def ttlField (kvs : List (String × PyVal)) :
    Option { ttl : Option ℤ // ∀ t ∈ ttl, 1 ≤ t } :=
  match kvs.lookup "ttl" with
  | none => some ⟨none, by simp⟩
  | some .none => some ⟨none, by simp⟩
  | some v => do
    let t ← py.int v
    if h : 1 ≤ t then some ⟨some t, by simpa using h⟩ else none

def argsField (kvs : List (String × PyVal)) : Option (List (String × PyVal)) :=
  match kvs.lookup "args" with
  | none => some []
  | some (.dict args) => some args
  | some _ => none

/-- The key the sender is read from: the alias, else the name of the field. -/
def fromKey (kvs : List (String × PyVal)) : String :=
  if (kvs.lookup "from").isSome then "from" else "from_"

/-- The request an object stands for; no other key is allowed in it. -/
def ofObject (kvs : List (String × PyVal)) : Option Request := do
  guard (∀ kv ∈ kvs, kv.1 ∈ ["v", "id", "type", fromKey kvs, "ttl", "args"])
  let v ← vField py kvs
  let id ← boundedField py kvs "id"
  let type ← boundedField py kvs "type"
  let from_ ← boundedField py kvs (fromKey kvs)
  let ttl ← ttlField py kvs
  let args ← argsField kvs
  return ⟨v, id, type, from_, ttl, args, id.2, type.2, from_.2, ttl.2⟩

/-- `Request.model_validate` -/
def modelValidate (data : PyVal) : Except PyExc Request :=
  match data with
  | .dict kvs =>
    match ofObject py kvs with
    | some request => .ok request
    | none => .error .validationError
  | _ => .error .validationError

theorem modelValidate_error {data : PyVal} {err : PyExc}
    (h : modelValidate py data = .error err) : err = .validationError := by
  unfold modelValidate at h
  split at h
  · split at h
    · cases h
    · exact (Except.error.inj h).symm
  · exact (Except.error.inj h).symm

end Request

/-- A request without arguments. -/
def Request.simple (id type from_ : String) (hid : FieldLength id) (htype : FieldLength type)
    (hfrom : FieldLength from_) : Request where
  id := id
  type := type
  from_ := from_
  id_length := hid
  type_length := htype
  from_length := hfrom
  ttl_ge := by simp

structure ErrorBody where
  code : String
  message : String
  deriving DecidableEq

inductive Status where
  | ok
  | error
  deriving DecidableEq

structure Response where
  v : ℤ := schemaVersion
  id : String
  type : String
  to_ : String
  status : Status
  body : Option (List (String × PyVal)) := none
  error : Option ErrorBody := none

namespace Response

def ok (request : Request) (body : List (String × PyVal)) : Response where
  id := request.id
  type := request.type
  to_ := request.from_
  status := .ok
  body := some body

def makeError (requestId requestType to_ code message : String) : Response where
  id := requestId
  type := requestType
  to_ := to_
  status := .error
  error := some ⟨code, message⟩

/-- The response answers the request: it repeats its id and type and goes back
to its sender. -/
def Answers (response : Response) (request : Request) : Prop :=
  response.id = request.id ∧ response.type = request.type ∧ response.to_ = request.from_

theorem ok_answers (request : Request) (body : List (String × PyVal)) :
    (ok request body).Answers request := ⟨rfl, rfl, rfl⟩

theorem makeError_answers (request : Request) (code message : String) :
    (makeError request.id request.type request.from_ code message).Answers request :=
  ⟨rfl, rfl, rfl⟩

end Response

theorem length_r1 : FieldLength "r1" := by decide
theorem length_ping : FieldLength "ping" := by decide
theorem length_nodeA : FieldLength "node-a" := by decide
theorem length_nodeB : FieldLength "node-b" := by decide

def samplePing : Request := .simple "r1" "ping" "node-a" length_r1 length_ping length_nodeA

/-! ## Topics -/

namespace Topics

def rpcRequest : String := "mc/rpc/req"
def rpcResponsePrefix : String := "mc/rpc/resp"
def gatewayStatus : String := "mc/gateway/status"
def svcHealth : String := "mc/svc/health"
def nodePrefix : String := "mc/node"
def basePrefix : String := "mc/base"
def baseLocation : String := basePrefix ++ "/location"

def rpcResponseTopic (nodeId : String) : Except PyExc String :=
  if nodeId = "" then .error .valueError else .ok (rpcResponsePrefix ++ "/" ++ nodeId)

def nodeLocationTopic (nodeId : String) : String := nodePrefix ++ "/" ++ nodeId ++ "/location"
def nodeBatteryTopic (nodeId : String) : String := nodePrefix ++ "/" ++ nodeId ++ "/battery"
def nodeStateTopic (nodeId : String) : String := nodePrefix ++ "/" ++ nodeId ++ "/state"

def gatewayNativePrefix : String := "meshcore"

def gatewayNativeBattery (pre : String) : String := pre ++ "/" ++ "battery"
def gatewayNativeTelemetry (pre : String) : String := pre ++ "/" ++ "telemetry"

/-- `t.startswith(p)` -/
def startsWith (t p : String) : Bool := p.toList.isPrefixOf t.toList

/-- `t.endswith(s)` -/
def endsWith (t s : String) : Bool := s.toList.isSuffixOf t.toList

/-- `t[len(p):]` -/
def dropPrefix (t p : String) : String := String.ofList (t.toList.drop p.length)

end Topics

end MeshcoreRpc
