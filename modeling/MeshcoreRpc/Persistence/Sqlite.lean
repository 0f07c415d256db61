import MeshcoreRpc.Lib.SharedConnection
import MeshcoreRpc.Schemas

/-!
# The store

The tables of `schema.sql`, the SQL statements of `persistence/sqlite.py` with
their parameter binding, column affinities and constraints, and the `_sync_*`
methods as transaction bodies over those statements.  `StoreCall.exec` is a
store method run with the connection to itself, which is how the pipeline and
the handlers see it.
-/

namespace MeshcoreRpc

open Tables Coroutine SharedConnection

/-! ## Values in columns -/

inductive SqlValue where
  | null
  | integer (n : ℤ)
  | real (q : ℚ)
  | realInf (negative : Bool)
  | text (s : String)
  deriving DecidableEq

namespace SqlValue

/-- Binding a Python value to a statement parameter. -/
def bind : PyVal → Except PyExc SqlValue
  | .none => .ok null
  | .bool b => .ok (integer (if b then 1 else 0))
  | .int n =>
    if -2 ^ 63 ≤ n ∧ n < 2 ^ 63 then .ok (integer n) else .error .overflowError
  | .float .nan => .ok null
  | .float (.inf negative) => .ok (realInf negative)
  | .float (.fin q) => .ok (real q)
  | .str s => .ok (text s)
  | .list _ => .error .programmingError
  | .dict _ => .error .programmingError

/-- `REAL` affinity: an integer is rounded, and a text that is no number stays text. -/
def toReal (num : Numerals) : SqlValue → SqlValue
  | integer n => real (Binary64.round n)
  | text s =>
    match num.sqliteNumber s with
    | some (.fin q) => real q
    | some (.inf negative) => realInf negative
    | _ => text s
  | v => v

/-- An integral number of 64 bits is an integer, any other a `REAL`. -/
def ofNumber (q : ℚ) : SqlValue :=
  if q.den = 1 ∧ -2 ^ 63 ≤ q.num ∧ q.num < 2 ^ 63 then integer q.num else real q

/-- `INTEGER` affinity. -/
def toInteger (num : Numerals) : SqlValue → SqlValue
  | real q => ofNumber q
  | text s =>
    match num.sqliteNumber s with
    | some (.fin q) => ofNumber q
    | some (.inf negative) => realInf negative
    | _ => text s
  | v => v

/-- `TEXT` affinity. -/
def toText (num : Numerals) : SqlValue → SqlValue
  | integer n => text (toString n)
  | real q => text (num.sqliteText (.fin q))
  | realInf negative => text (num.sqliteText (.inf negative))
  | v => v

/-- The value as the `sqlite3` module hands it back. -/
def toPython : SqlValue → PyVal
  | null => .none
  | integer n => .int n
  | real q => .float (.fin q)
  | realInf negative => .float (.inf negative)
  | text s => .str s

/-- `MAX(a, b)`: null if either is, and every text ranks above every number. -/
def max : SqlValue → SqlValue → SqlValue
  | null, _ => null
  | _, null => null
  | text a, text b => if a < b then text b else text a
  | text a, _ => text a
  | _, text b => text b
  | realInf true, b => b
  | a, realInf true => a
  | realInf false, _ => realInf false
  | _, realInf false => realInf false
  | integer m, integer n => if m < n then integer n else integer m
  | integer m, real q => if (m : ℚ) < q then real q else integer m
  | real p, integer n => if p < (n : ℚ) then integer n else real p
  | real p, real q => if p < q then real q else real p

end SqlValue

/-- A value bound for a `REAL`, `INTEGER` or `TEXT` column. -/
def bindReal (num : Numerals) (v : PyVal) : Except PyExc SqlValue :=
  (SqlValue.bind v).map (SqlValue.toReal num)

def bindInteger (num : Numerals) (v : PyVal) : Except PyExc SqlValue :=
  (SqlValue.bind v).map (SqlValue.toInteger num)

def bindText (num : Numerals) (v : PyVal) : Except PyExc SqlValue :=
  (SqlValue.bind v).map (SqlValue.toText num)

/-- `NOT NULL` -/
def notNull (v : SqlValue) : Except PyExc SqlValue :=
  if v = .null then .error .integrityError else .ok v

def optText : Option String → PyVal
  | some s => .str s
  | none => .none

def optReal : Option PyFloat → PyVal
  | some f => .float f
  | none => .none

def optInteger : Option ℤ → PyVal
  | some n => .int n
  | none => .none

/-! ## Tables -/

/-- A row of `requests`; the JSON columns hold the values that were dumped. -/
structure RequestRow where
  id : String
  nodeId : String
  type : String
  ttlS : ℤ
  receivedAt : ℚ
  completedAt : Option ℚ := none
  finalState : Option FinalState := none
  errorCode : Option String := none
  requestJson : Request
  responseJson : Option Response := none

def RequestRow.key (row : RequestRow) : RequestKey := (row.nodeId, row.id)

/-- A row of `request_events`; its autoincremented id is its place in the list. -/
structure EventRow where
  requestId : String
  nodeId : String
  state : EventState
  detail : Option String
  ts : ℚ
  deriving DecidableEq

def EventRow.key (row : EventRow) : RequestKey := (row.nodeId, row.requestId)

structure GatewaySnapshotRow where
  ts : ℚ
  status : SqlValue
  health : SqlValue
  state : SqlValue
  detail : SqlValue
  sinceTs : SqlValue

structure NodeRow where
  nodeId : String
  lastSeen : SqlValue

structure NodeLocationRow where
  nodeId : String
  lat : SqlValue
  lon : SqlValue
  alt : SqlValue
  acc : SqlValue
  fix : SqlValue
  spd : SqlValue
  hdg : SqlValue
  ts : SqlValue
  source : SqlValue
  rssi : SqlValue
  snr : SqlValue

structure NodeBatteryRow where
  nodeId : String
  pct : SqlValue
  voltage : SqlValue
  ts : SqlValue
  source : SqlValue

/-- `value_json` holds the dict that was dumped. -/
structure BaseStateRow where
  key : String
  valueJson : List (String × PyVal)
  ts : ℚ

structure Db where
  requests : Table RequestRow.key
  requestEvents : List EventRow
  gatewaySnapshots : List GatewaySnapshotRow
  nodes : Table NodeRow.nodeId
  nodeLocations : Table NodeLocationRow.nodeId
  nodeBattery : Table NodeBatteryRow.nodeId
  baseState : Table BaseStateRow.key

def Db.empty : Db := ⟨.empty, [], [], .empty, .empty, .empty, .empty⟩

/-- `LocationFix` of `state.py` -/
structure LocationFix where
  lat : PyFloat
  lon : PyFloat
  ts : PyFloat
  alt : Option PyFloat := none
  acc : Option PyFloat := none
  fix : Option ℤ := none
  spd : Option PyFloat := none
  hdg : Option PyFloat := none

/-! ## Statements -/

inductive Stmt where
  | insertRequest (row : RequestRow)
  | insertEvent (row : EventRow)
  | updateRequest (key : RequestKey) (completedAt : ℚ) (finalState : FinalState)
      (errorCode : Option String) (responseJson : Option Response)
  | upsertNode (nodeId ts : PyVal)
  | insertSnapshot (ts : ℚ) (state detail since : PyVal)
  | upsertLocation (nodeId : PyVal) (fix : LocationFix) (source : Option String)
      (rssi : Option ℤ) (snr : Option PyFloat)
  | upsertBattery (nodeId ts pct voltage source : PyVal)
  | upsertBase (key : String) (value : List (String × PyVal)) (ts : ℚ)
  | deleteRequests (cutoff : ℚ)
  | deleteEvents (cutoff : ℚ)
  | deleteSnapshots (cutoff : ℚ)

namespace RequestRow

/-- The `SET` clause of `record_completion`. -/
def complete (completedAt : ℚ) (finalState : FinalState) (errorCode : Option String)
    (responseJson : Option Response) (row : RequestRow) : RequestRow :=
  { row with
    completedAt := some completedAt
    finalState := some finalState
    errorCode := errorCode
    responseJson := responseJson }

@[simp] theorem key_complete (completedAt : ℚ) (finalState : FinalState)
    (errorCode : Option String) (responseJson : Option Response) (row : RequestRow) :
    (row.complete completedAt finalState errorCode responseJson).key = row.key := rfl

/-- `completed_at IS NOT NULL AND completed_at < cutoff` -/
def expired (cutoff : ℚ) (row : RequestRow) : Bool :=
  match row.completedAt with
  | some t => decide (t < cutoff)
  | none => false

end RequestRow

/-- `ts < cutoff AND request_id NOT IN (SELECT id FROM requests)` -/
def EventRow.orphaned (cutoff : ℚ) (requests : Table RequestRow.key) (row : EventRow) : Bool :=
  decide (row.ts < cutoff) && !(requests.rows.map RequestRow.id).contains row.requestId

/-- The text of a node id in a `TEXT` column, `none` for `NULL`. -/
def nodeKey (num : Numerals) (nodeId : PyVal) : Except PyExc (Option String) := do
  match ← bindText num nodeId with
  | .text s => return some s
  | _ => return none

/-- Upsert a row under a node id; a `NULL` id makes a row no query finds, which
is left out. -/
def upsertUnder {ρ : Type} {key : ρ → String} (t : Table key) (nodeId : Option String)
    (row : String → ρ) (merge : ρ → ρ) (hm : ∀ old, key (merge old) = key old) : Table key :=
  match nodeId with
  | some s => t.upsert (row s) merge hm
  | none => t

namespace Stmt

/-- What a statement does to the database and its row count. -/
def apply (num : Numerals) : Stmt → Db → Except PyExc (Db × ℕ)
  | insertRequest row, db =>
    let (requests, inserted) := db.requests.insertOrIgnore row
    .ok ({ db with requests := requests }, if inserted then 1 else 0)
  | insertEvent row, db => .ok ({ db with requestEvents := db.requestEvents ++ [row] }, 1)
  | updateRequest key completedAt finalState errorCode responseJson, db =>
    .ok ({ db with
            requests := db.requests.modify key
              (RequestRow.complete completedAt finalState errorCode responseJson) fun _ ↦ rfl },
          if (db.requests.find? key).isSome then 1 else 0)
  | upsertNode nodeId ts, db => do
    let node ← nodeKey num nodeId
    let seen ← bindReal num ts >>= notNull
    return ({ db with
              nodes := upsertUnder db.nodes node (fun s ↦ ⟨s, seen⟩)
                (fun old ↦ { old with lastSeen := old.lastSeen.max seen }) fun _ ↦ rfl }, 1)
  | insertSnapshot ts state detail since, db => do
    let state ← bindText num state
    let detail ← bindText num detail
    let since ← bindReal num since
    return ({ db with
              gatewaySnapshots :=
                db.gatewaySnapshots ++ [⟨ts, state, .null, state, detail, since⟩] }, 1)
  | upsertLocation nodeId fix source rssi snr, db => do
    let node ← nodeKey num nodeId
    let lat ← bindReal num (.float fix.lat) >>= notNull
    let lon ← bindReal num (.float fix.lon) >>= notNull
    let alt ← bindReal num (optReal fix.alt)
    let acc ← bindReal num (optReal fix.acc)
    let fixType ← bindInteger num (optInteger fix.fix)
    let spd ← bindReal num (optReal fix.spd)
    let hdg ← bindReal num (optReal fix.hdg)
    let ts ← bindReal num (.float fix.ts) >>= notNull
    let source ← bindText num (optText source)
    let rssi ← bindInteger num (optInteger rssi)
    let snr ← bindReal num (optReal snr)
    let row (s : String) : NodeLocationRow :=
      ⟨s, lat, lon, alt, acc, fixType, spd, hdg, ts, source, rssi, snr⟩
    return ({ db with
              nodeLocations := upsertUnder db.nodeLocations node row
                (fun old ↦ row old.nodeId) fun _ ↦ rfl }, 1)
  | upsertBattery nodeId ts pct voltage source, db => do
    let node ← nodeKey num nodeId
    let pct ← bindInteger num pct
    let voltage ← bindReal num voltage
    let ts ← bindReal num ts >>= notNull
    let source ← bindText num source
    let row (s : String) : NodeBatteryRow := ⟨s, pct, voltage, ts, source⟩
    return ({ db with
              nodeBattery := upsertUnder db.nodeBattery node row
                (fun old ↦ row old.nodeId) fun _ ↦ rfl }, 1)
  | upsertBase key value ts, db =>
    .ok ({ db with
            baseState := db.baseState.upsert ⟨key, value, ts⟩
              (fun old ↦ ⟨old.key, value, ts⟩) fun _ ↦ rfl }, 1)
  | deleteRequests cutoff, db =>
    .ok ({ db with requests := db.requests.deleteWhere (RequestRow.expired cutoff) },
          (db.requests.rows.filter (RequestRow.expired cutoff)).length)
  | deleteEvents cutoff, db =>
    .ok ({ db with
            requestEvents :=
              db.requestEvents.filter fun row ↦ !row.orphaned cutoff db.requests },
          (db.requestEvents.filter fun row ↦ row.orphaned cutoff db.requests).length)
  | deleteSnapshots cutoff, db =>
    .ok ({ db with
            gatewaySnapshots := db.gatewaySnapshots.filter fun row ↦ !decide (row.ts < cutoff) },
          (db.gatewaySnapshots.filter fun row ↦ decide (row.ts < cutoff)).length)

end Stmt

/-! ## The `_sync_*` methods -/

abbrev StoreTx := Tx Stmt ℕ PyExc

def syncRecordReceived (now : ℚ) (request : Request) (ttlS : ℤ) : StoreTx Bool := do
  let rowcount ← execute (.insertRequest
    { id := request.id
      nodeId := request.from_
      type := request.type
      ttlS := ttlS
      receivedAt := now
      requestJson := request })
  if rowcount ≠ 1 then
    return false
  let _ ← execute (.insertEvent ⟨request.id, request.from_, .received, none, now⟩)
  return true

def syncRecordEvent (now : ℚ) (requestId nodeId : String) (state : EventState)
    (detail : Option String) : StoreTx Unit := do
  let _ ← execute (.insertEvent ⟨requestId, nodeId, state, detail, now⟩)

def syncRecordCompletion (now : ℚ) (requestId nodeId : String) (finalState : FinalState)
    (response : Option Response) (errorCode : Option String) : StoreTx Unit := do
  let _ ← execute (.updateRequest (nodeId, requestId) now finalState errorCode response)

def syncMarkNodeSeen (nodeId ts : PyVal) : StoreTx Unit := do
  let _ ← execute (.upsertNode nodeId ts)

def syncRecordGatewaySnapshot (now : ℚ) (state detail since : PyVal) : StoreTx Unit := do
  let _ ← execute (.insertSnapshot now state detail since)

def syncUpsertNodeLocation (nodeId : PyVal) (fix : LocationFix) (source : Option String)
    (rssi : Option ℤ) (snr : Option PyFloat) : StoreTx Unit := do
  let _ ← execute (.upsertLocation nodeId fix source rssi snr)

def syncUpsertNodeBattery (nodeId ts pct voltage source : PyVal) : StoreTx Unit := do
  let _ ← execute (.upsertBattery nodeId ts pct voltage source)

def syncUpsertBaseState (now : ℚ) (key : String) (value : List (String × PyVal)) :
    StoreTx Unit := do
  let _ ← execute (.upsertBase key value now)

def syncPurgeBefore (cutoffTs : ℚ) : StoreTx ℕ := do
  let deleted ← execute (.deleteRequests cutoffTs)
  let _ ← execute (.deleteEvents cutoffTs)
  let _ ← execute (.deleteSnapshots cutoffTs)
  return deleted

namespace Db

def syncCountByFinalState (db : Db) : List (String × ℕ) :=
  [FinalState.completedError, .completedOk].filterMap fun state ↦
    match db.requests.rows.countP fun row ↦ row.finalState = some state with
    | 0 => none
    | n + 1 => some (state.text, n + 1)

def syncCountPending (db : Db) : ℕ :=
  db.requests.rows.countP fun row ↦ row.finalState.isNone

/-- The row a `WHERE node_id = ?` selects. -/
def selectNode {ρ : Type} {key : ρ → String} (num : Numerals) (t : Table key) (nodeId : PyVal) :
    Except PyExc (Option ρ) := do
  match ← nodeKey num nodeId with
  | some s => return t.find? s
  | none => return none

def syncGetLastSeen (num : Numerals) (nodeId : PyVal) (db : Db) :
    Except PyExc (Option PyFloat) := do
  match ← selectNode num db.nodes nodeId with
  | some row => return some (← row.lastSeen.toPython.toFloat num)
  | none => return none

def syncGetNodeLocation (num : Numerals) (nodeId : PyVal) (db : Db) :
    Except PyExc (Option (List (String × PyVal))) := do
  match ← selectNode num db.nodeLocations nodeId with
  | some row =>
    return some
      [("lat", row.lat.toPython), ("lon", row.lon.toPython), ("alt", row.alt.toPython),
        ("acc", row.acc.toPython), ("fix", row.fix.toPython), ("spd", row.spd.toPython),
        ("hdg", row.hdg.toPython), ("ts", row.ts.toPython), ("source", row.source.toPython),
        ("rssi", row.rssi.toPython), ("snr", row.snr.toPython)]
  | none => return none

def syncGetNodeBattery (num : Numerals) (nodeId : PyVal) (db : Db) :
    Except PyExc (Option (List (String × PyVal))) := do
  match ← selectNode num db.nodeBattery nodeId with
  | some row =>
    return some
      [("pct", row.pct.toPython), ("voltage", row.voltage.toPython), ("ts", row.ts.toPython),
        ("source", row.source.toPython)]
  | none => return none

def syncGetBaseState (key : String) (db : Db) : Option (List (String × PyVal)) :=
  (db.baseState.find? key).map BaseStateRow.valueJson

end Db

/-! ## Store methods as atomic calls -/

/-- The calls on a `Store`, each handed to a worker thread as one piece. -/
inductive StoreCall where
  | recordReceived (request : Request) (ttlS : ℤ)
  | recordEvent (requestId nodeId : String) (state : EventState) (detail : Option String)
  | recordCompletion (requestId nodeId : String) (finalState : FinalState)
      (response : Option Response) (errorCode : Option String)
  | countByFinalState
  | countPending
  | markNodeSeen (nodeId ts : PyVal)
  | getLastSeen (nodeId : PyVal)
  | recordGatewaySnapshot (state detail since : PyVal)
  | upsertNodeLocation (nodeId : PyVal) (fix : LocationFix) (source : Option String)
      (rssi : Option ℤ) (snr : Option PyFloat)
  | getNodeLocation (nodeId : PyVal)
  | upsertNodeBattery (nodeId ts pct voltage source : PyVal)
  | getNodeBattery (nodeId : PyVal)
  | upsertBaseState (key : String) (value : List (String × PyVal))
  | getBaseState (key : String)
  | purgeBefore (cutoffTs : ℚ)

namespace StoreCall

abbrev Answer : StoreCall → Type
  | recordReceived .. => Bool
  | recordEvent .. => Unit
  | recordCompletion .. => Unit
  | countByFinalState => List (String × ℕ)
  | countPending => ℕ
  | markNodeSeen .. => Unit
  | getLastSeen _ => Option PyFloat
  | recordGatewaySnapshot .. => Unit
  | upsertNodeLocation .. => Unit
  | getNodeLocation _ => Option (List (String × PyVal))
  | upsertNodeBattery .. => Unit
  | getNodeBattery _ => Option (List (String × PyVal))
  | upsertBaseState .. => Unit
  | getBaseState _ => Option (List (String × PyVal))
  | purgeBefore _ => ℕ

/-- A method with the connection to itself, at the time `now`. -/
def exec (num : Numerals) (now : ℚ) : (c : StoreCall) → Db → Except PyExc (Db × c.Answer)
  | recordReceived request ttlS => atomically (Stmt.apply num) (syncRecordReceived now request ttlS)
  | recordEvent requestId nodeId state detail =>
    atomically (Stmt.apply num) (syncRecordEvent now requestId nodeId state detail)
  | recordCompletion requestId nodeId finalState response errorCode =>
    atomically (Stmt.apply num)
      (syncRecordCompletion now requestId nodeId finalState response errorCode)
  | countByFinalState => fun db ↦ .ok (db, db.syncCountByFinalState)
  | countPending => fun db ↦ .ok (db, db.syncCountPending)
  | markNodeSeen nodeId ts => atomically (Stmt.apply num) (syncMarkNodeSeen nodeId ts)
  | getLastSeen nodeId => fun db ↦ (db.syncGetLastSeen num nodeId).map (Prod.mk db)
  | recordGatewaySnapshot state detail since =>
    atomically (Stmt.apply num) (syncRecordGatewaySnapshot now state detail since)
  | upsertNodeLocation nodeId fix source rssi snr =>
    atomically (Stmt.apply num) (syncUpsertNodeLocation nodeId fix source rssi snr)
  | getNodeLocation nodeId => fun db ↦ (db.syncGetNodeLocation num nodeId).map (Prod.mk db)
  | upsertNodeBattery nodeId ts pct voltage source =>
    atomically (Stmt.apply num) (syncUpsertNodeBattery nodeId ts pct voltage source)
  | getNodeBattery nodeId => fun db ↦ (db.syncGetNodeBattery num nodeId).map (Prod.mk db)
  | upsertBaseState key value =>
    atomically (Stmt.apply num) (syncUpsertBaseState now key value)
  | getBaseState key => fun db ↦ .ok (db, db.syncGetBaseState key)
  | purgeBefore cutoffTs => atomically (Stmt.apply num) (syncPurgeBefore cutoffTs)

end StoreCall

end MeshcoreRpc
