import MeshcoreRpc.Schemas
import MeshcoreRpc.Tak.Cot

/-!
# The TAK bridge

`tak/bridge.py`.  Nothing suspends inside the handling of one message or inside
one pass of the heartbeat, `TakSink.send` included, so each of them is a
function of the two maps of the bridge.  It returns the maps it leaves, the
events handed to the sink in order, and how it ended.
-/

namespace MeshcoreRpc.Tak

open Tables

/-- The `tak` section of the configuration. -/
structure TakBridgeConfig where
  /-- `callsign_template.format(id=...)` of a template that formats; any other one raises
  there. -/
  callsignTemplate : String → String := fun id ↦ "MC-" ++ id
  fieldNodeCotType : String := "a-f-G-U-C"
  baseCotType : String := "a-f-G-U-C-I"
  staleAfterS : ℤ := 300
  removeAfterOfflineS : ℤ := 600

/-- What `time.time()` and `datetime.now(timezone.utc)` say during one step. -/
structure Clock where
  time : ℚ
  utc : DateTime

def Clock.epoch : Clock := ⟨0, ⟨0, by decide, by decide⟩⟩

/-- A message with the outcome of `json.loads(msg.payload.decode("utf-8"))`. -/
structure MqttMessage where
  topic : String
  payload : Except PyExc PyVal

structure Bridge where
  state : Dict String PyDict
  offlineSince : Dict String ℚ

/-- The maps after a step, the events sent, and how the step ended. -/
structure Step where
  bridge : Bridge
  sent : List CotEvent
  outcome : Except PyExc Unit

namespace Bridge

def init : Bridge := ⟨.empty, .empty⟩

def nodePrefixSlash : String := Topics.nodePrefix ++ "/"

/-- `_BASE_KEY` -/
def baseKey : String := "__base__"

/-- `_extract_node_id` -/
def extractNodeId (topic suffix : String) : Option String :=
  if Topics.endsWith topic suffix then
    let head := String.ofList (topic.toList.take (topic.length - suffix.length))
    if Topics.startsWith head nodePrefixSlash then
      let nodeId := Topics.dropPrefix head nodePrefixSlash
      if nodeId = "" ∨ '/' ∈ nodeId.toList then none else some nodeId
    else none
  else none

/-- `_key_for`, for the topics that get so far. -/
def keyFor (topic : String) : String :=
  if topic = Topics.baseLocation then baseKey
  else String.ofList ((topic.toList.splitOn '/')[2]?.getD [])

/-- `{k: v for k, v in data.items() if v is not None}` -/
def present (data : PyDict) : List (String × PyVal) := data.rows.filter fun kv ↦ !kv.2.isNone

def mergeState (now : ℚ) (key : String) (data : PyDict) (kind : String) (b : Bridge) : Bridge :=
  let cur := (b.state.get? key).getD (Dict.set .empty "_kind" (.str kind))
  { b with
    state := b.state.set key ((cur.update (present data)).set "_updated" (.float (.fin now))) }

def updateOfflineTracking (now : ℚ) (nodeId : String) (data : PyDict) (b : Bridge) : Bridge :=
  match data.get "online" with
  | .bool true => { b with offlineSince := b.offlineSince.erase nodeId }
  | .bool false =>
    if (b.offlineSince.get? nodeId).isSome then b
    else { b with offlineSince := b.offlineSince.set nodeId now }
  | _ => b

section Emission

variable (cfg : TakBridgeConfig) (clock : Clock)

/-- `isinstance(lat, (int, float)) and isinstance(lon, (int, float))` -/
def hasPosition (record : PyDict) : Bool :=
  (record.get "lat").isNumber && (record.get "lon").isNumber

def cotType (key : String) : String :=
  if key = baseKey then cfg.baseCotType else cfg.fieldNodeCotType

def uidOf (key : String) : String :=
  "meshcore." ++ if key = baseKey then "base" else key

def callsignOf (key : String) : String :=
  if key = baseKey then "MC-base"
  else cfg.callsignTemplate (String.ofList (key.toList.take 6))

/-- A remark on a field, made when the field holds a number. -/
def remark {α : Type} (v : PyVal) (conv : PyVal → Except PyExc α) (make : α → Remark) :
    Except PyExc (List Remark) :=
  if v.isNumber then (conv v).map fun a ↦ [make a] else .ok []

def remarksOf (key : String) (record : PyDict) : Except PyExc (List Remark) :=
  if key = baseKey then .ok [] else do
    let age ← remark (record.get "last_seen_age_s") PyVal.numberToInt .lastSeenAge
    let bat ← remark (record.get "bat_pct") PyVal.numberToInt .battery
    let rssi ← remark (record.get "rssi") PyVal.numberToInt .rssi
    let snr ← remark (record.get "snr") PyVal.numberToFloat .snr
    return age ++ bat ++ rssi ++ snr

/-- The position timestamp, or the wall clock without one. -/
def timeOf (record : PyDict) : Except PyExc DateTime :=
  let tsField := record.get "ts"
  if tsField.isNumber then DateTime.fromTimestamp tsField else .ok clock.utc

/-- The event of a record with a position. -/
def cotOf (key : String) (record : PyDict) : Except PyExc CotEvent := do
  let time ← timeOf clock record
  let remarks ← remarksOf key record
  let lat ← (record.get "lat").numberToFloat
  let lon ← (record.get "lon").numberToFloat
  let alt ← optFloat (record.get "alt")
  let spd ← optFloat (record.get "spd")
  let hdg ← optFloat (record.get "hdg")
  let acc ← optFloat (record.get "acc")
  buildCot (uidOf key) (cotType cfg key) lat lon time cfg.staleAfterS (callsignOf cfg key)
    alt spd hdg acc remarks

/-- `_publish_one`: the events it sends. -/
def publishOne (key : String) (b : Bridge) : Except PyExc (List CotEvent) :=
  match b.state.get? key with
  | none => .ok []
  | some record =>
    if hasPosition record then (cotOf cfg clock key record).map fun cot ↦ [cot] else .ok []

/-- Publish one key after the other, as far as that goes. -/
def publishKeys (b : Bridge) : List String → List CotEvent × Except PyExc Unit
  | [] => ([], .ok ())
  | key :: rest =>
    match publishOne cfg clock key b with
    | .ok sent =>
      let (later, outcome) := publishKeys b rest
      (sent ++ later, outcome)
    | .error err => ([], .error err)

def republishAll (b : Bridge) : Step :=
  let (sent, outcome) := publishKeys cfg clock b b.state.keys
  ⟨b, sent, outcome⟩

def publishDrop (nodeId : String) (b : Bridge) : Except PyExc (List CotEvent) :=
  match b.state.get? nodeId with
  | none => .ok []
  | some record =>
    if hasPosition record then do
      let lat ← (record.get "lat").numberToFloat
      let lon ← (record.get "lon").numberToFloat
      return [buildDropCot (uidOf nodeId) (cotType cfg nodeId) lat lon clock.utc]
    else .ok []

/-- Drop one node after the other from both maps, as far as that goes. -/
def evictNodes : List String → Bridge → Step
  | [], b => ⟨b, [], .ok ()⟩
  | nodeId :: rest, b =>
    match publishDrop cfg clock nodeId b with
    | .ok sent =>
      let later := evictNodes rest
        { b with state := b.state.erase nodeId, offlineSince := b.offlineSince.erase nodeId }
      ⟨later.bridge, sent ++ later.sent, later.outcome⟩
    | .error err => ⟨b, [], .error err⟩

/-- The nodes whose offline streak has reached the threshold. -/
def toEvict (b : Bridge) : List String :=
  (b.offlineSince.rows.filter fun row ↦
    decide ((cfg.removeAfterOfflineS : ℚ) ≤ clock.time - row.2)).map Prod.fst

def evictLongOffline (b : Bridge) : Step :=
  if cfg.removeAfterOfflineS ≤ 0 then ⟨b, [], .ok ()⟩
  else evictNodes cfg clock (toEvict cfg clock b) b

/-- One pass of `_heartbeat` after its sleep. -/
def heartbeat (b : Bridge) : Step :=
  let evicted := evictLongOffline cfg clock b
  match evicted.outcome with
  | .ok _ =>
    let published := republishAll cfg clock evicted.bridge
    ⟨published.bridge, evicted.sent ++ published.sent, published.outcome⟩
  | .error err => ⟨evicted.bridge, evicted.sent, .error err⟩

/-- The publication that ends the handling of a message. -/
def publishChange (topic : String) (b : Bridge) : Step :=
  match publishOne cfg clock (keyFor topic) b with
  | .ok sent => ⟨b, sent, .ok ()⟩
  | .error err => ⟨b, [], .error err⟩

/-- The maps after a message with a JSON object, `none` for a topic that is
none of the bridge's. -/
def ingest (now : ℚ) (topic : String) (data : PyDict) (b : Bridge) : Option Bridge :=
  if topic = Topics.baseLocation then
    some (mergeState now baseKey data "base" b)
  else if Topics.startsWith topic nodePrefixSlash ∧ Topics.endsWith topic "/location" then
    match extractNodeId topic "/location" with
    | some nodeId => some (mergeState now nodeId data "node" b)
    | none => some b
  else if Topics.startsWith topic nodePrefixSlash ∧ Topics.endsWith topic "/state" then
    match extractNodeId topic "/state" with
    | some nodeId =>
      some (updateOfflineTracking now nodeId data (mergeState now nodeId data "node" b))
    | none => some b
  else none

def handleMqttMessage (msg : MqttMessage) (b : Bridge) : Step :=
  match msg.payload with
  | .ok (.dict kvs) =>
    match ingest clock.time msg.topic (PyDict.ofPairs kvs) b with
    | some b' => publishChange cfg clock msg.topic b'
    | none => ⟨b, [], .ok ()⟩
  | .ok _ => ⟨b, [], .ok ()⟩
  | .error err =>
    if err = .unicodeDecodeError ∨ err = .jsonDecodeError then ⟨b, [], .ok ()⟩
    else ⟨b, [], .error err⟩

end Emission

end Bridge

end MeshcoreRpc.Tak
