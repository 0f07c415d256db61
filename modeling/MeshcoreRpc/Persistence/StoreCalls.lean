import MeshcoreRpc.Persistence.Sqlite

/-!
# What a store call does to the database

The lifecycle of requests lives in two tables, `requests` and
`request_events`.  Three calls write them while a request is processed, the
retention purge deletes from them, and no other call touches them.
-/

namespace MeshcoreRpc

open Tables Coroutine Coro SharedConnection

variable {num : Numerals} {now : ℚ} {db db' : Db}

namespace StoreCall

def receivedRow (now : ℚ) (request : Request) (ttlS : ℤ) : RequestRow where
  id := request.id
  nodeId := request.from_
  type := request.type
  ttlS := ttlS
  receivedAt := now
  requestJson := request

@[simp] theorem receivedRow_key (request : Request) (ttlS : ℤ) :
    (receivedRow now request ttlS).key = request.key := rfl

@[simp] theorem receivedRow_id (request : Request) (ttlS : ℤ) :
    (receivedRow now request ttlS).id = request.id := rfl

theorem exec_recordReceived_none {request : Request} {ttlS : ℤ}
    (h : db.requests.find? request.key = none) :
    (recordReceived request ttlS).exec num now db =
      .ok ({ db with
              requests := db.requests.append (receivedRow now request ttlS) h
              requestEvents :=
                db.requestEvents ++ [⟨request.id, request.from_, .received, none, now⟩] },
            true) := by
  have hinsert : db.requests.insertOrIgnore (receivedRow now request ttlS) =
      (db.requests.append (receivedRow now request ttlS) h, true) :=
    Table.insertOrIgnore_of_none h
  simp only [receivedRow] at hinsert
  simp [exec, atomically, syncRecordReceived, answer, Stmt.apply, hinsert, receivedRow]

theorem exec_recordReceived_some {request : Request} {ttlS : ℤ} {row : RequestRow}
    (h : db.requests.find? request.key = some row) :
    (recordReceived request ttlS).exec num now db = .ok (db, false) := by
  have hinsert : db.requests.insertOrIgnore (receivedRow now request ttlS) =
      (db.requests, false) := Table.insertOrIgnore_of_some h
  simp only [receivedRow] at hinsert
  simp [exec, atomically, syncRecordReceived, answer, Stmt.apply, hinsert]

theorem exec_recordReceived {request : Request} {ttlS : ℤ} {fresh : Bool}
    (h : (recordReceived request ttlS).exec num now db = .ok (db', fresh)) :
    (fresh = true ∧ db.requests.find? request.key = none ∧
        (∀ k, db'.requests.find? k = if k = request.key then
          some (receivedRow now request ttlS) else db.requests.find? k) ∧
        db'.requestEvents =
          db.requestEvents ++ [⟨request.id, request.from_, .received, none, now⟩]) ∨
      (fresh = false ∧ (db.requests.find? request.key).isSome ∧ db' = db) := by
  cases hfind : db.requests.find? request.key with
  | none =>
      rw [exec_recordReceived_none hfind] at h
      cases h
      exact .inl ⟨rfl, rfl, fun k ↦ Table.find?_append hfind k, rfl⟩
  | some row =>
      rw [exec_recordReceived_some hfind] at h
      cases h
      exact .inr ⟨rfl, rfl, rfl⟩

theorem exec_recordEvent {requestId nodeId : String} {state : EventState}
    {detail : Option String} :
    (recordEvent requestId nodeId state detail).exec num now db =
      .ok ({ db with
              requestEvents := db.requestEvents ++ [⟨requestId, nodeId, state, detail, now⟩] },
            ()) := by
  simp [exec, atomically, syncRecordEvent, answer, Stmt.apply]

theorem exec_recordCompletion {requestId nodeId : String} {finalState : FinalState}
    {response : Option Response} {errorCode : Option String} :
    (recordCompletion requestId nodeId finalState response errorCode).exec num now db =
      .ok ({ db with
              requests := db.requests.modify (nodeId, requestId)
                (RequestRow.complete now finalState errorCode response) fun _ ↦ rfl },
            ()) := by
  simp [exec, atomically, syncRecordCompletion, answer, Stmt.apply]

theorem exec_purgeBefore {cutoffTs : ℚ} :
    (purgeBefore cutoffTs).exec num now db =
      .ok ({ db with
              requests := db.requests.deleteWhere (RequestRow.expired cutoffTs)
              requestEvents := db.requestEvents.filter fun row ↦
                !row.orphaned cutoffTs (db.requests.deleteWhere (RequestRow.expired cutoffTs))
              gatewaySnapshots :=
                db.gatewaySnapshots.filter fun row ↦ !decide (row.ts < cutoffTs) },
            (db.requests.rows.filter (RequestRow.expired cutoffTs)).length) := by
  simp [exec, atomically, syncPurgeBefore, answer, Stmt.apply]

/-- The calls that write `requests` or `request_events`. -/
def lifecycle : StoreCall → Bool
  | recordReceived .. => true
  | recordEvent .. => true
  | recordCompletion .. => true
  | purgeBefore _ => true
  | _ => false

/-- The calls that write `base_state`. -/
def writesBase : StoreCall → Bool
  | upsertBaseState .. => true
  | _ => false

/-- The calls that write nothing. -/
def reads : StoreCall → Bool
  | countByFinalState => true
  | countPending => true
  | getLastSeen _ => true
  | getNodeLocation _ => true
  | getNodeBattery _ => true
  | getBaseState _ => true
  | _ => false

theorem reads_quiet {c : StoreCall} (h : c.reads = true) :
    c.lifecycle = false ∧ c.writesBase = false := by
  cases c with
  | countByFinalState | countPending | getLastSeen | getNodeLocation | getNodeBattery
  | getBaseState => exact ⟨rfl, rfl⟩
  | _ => cases h

theorem atomically_execute {α : Type} {s : Stmt} {f : ℕ → α} {out : Db × α}
    (h : atomically (Stmt.apply num) (do let n ← execute s; return f n) db = .ok out) :
    ∃ n, s.apply num db = .ok (out.1, n) := by
  cases hs : s.apply num db with
  | error err => simp [atomically, answer, hs] at h
  | ok r =>
      simp only [atomically, eval_bind, eval_execute, answer, hs, eval_pure] at h
      cases h
      exact ⟨r.2, rfl⟩

theorem atomically_of_apply {α : Type} {s : Stmt} {f : ℕ → α} {n : ℕ}
    (h : s.apply num db = .ok (db', n)) :
    atomically (Stmt.apply num) (do let n ← execute s; return f n) db = .ok (db', f n) := by
  simp only [atomically, eval_bind, eval_execute, answer, h, eval_pure]

end StoreCall

/-! ## What is left alone -/

/-- The tables of the store. -/
inductive TableName where
  | requests
  | requestEvents
  | gatewaySnapshots
  | nodes
  | nodeLocations
  | nodeBattery
  | baseState

/-- The two databases agree on every table that `touched` does not name. -/
structure Db.SameBut (touched : TableName → Bool) (db db' : Db) : Prop where
  requests : touched .requests = false → db'.requests = db.requests
  requestEvents : touched .requestEvents = false → db'.requestEvents = db.requestEvents
  gatewaySnapshots : touched .gatewaySnapshots = false → db'.gatewaySnapshots = db.gatewaySnapshots
  nodes : touched .nodes = false → db'.nodes = db.nodes
  nodeLocations : touched .nodeLocations = false → db'.nodeLocations = db.nodeLocations
  nodeBattery : touched .nodeBattery = false → db'.nodeBattery = db.nodeBattery
  baseState : touched .baseState = false → db'.baseState = db.baseState

theorem Db.SameBut.refl (touched : TableName → Bool) (db : Db) : db.SameBut touched db := by
  constructor <;> exact fun _ ↦ rfl

theorem Db.SameBut.congr {touched touched' : TableName → Bool} (h : db.SameBut touched db')
    (heq : ∀ t, touched t = touched' t) : db.SameBut touched' db' := by
  have htouched : touched = touched' := funext heq
  rwa [← htouched]

def Stmt.touches : Stmt → TableName → Bool
  | insertRequest _, .requests => true
  | insertEvent _, .requestEvents => true
  | updateRequest .., .requests => true
  | upsertNode .., .nodes => true
  | insertSnapshot .., .gatewaySnapshots => true
  | upsertLocation .., .nodeLocations => true
  | upsertBattery .., .nodeBattery => true
  | upsertBase .., .baseState => true
  | deleteRequests _, .requests => true
  | deleteEvents _, .requestEvents => true
  | deleteSnapshots _, .gatewaySnapshots => true
  | _, _ => false

theorem Stmt.apply_same {s : Stmt} {n : ℕ} (h : s.apply num db = .ok (db', n)) :
    db.SameBut s.touches db' := by
  cases s with
  | upsertNode nodeId ts =>
      simp only [Stmt.apply] at h
      iterate 2 obtain ⟨_, _, h⟩ := except_bind_ok h
      cases h
      constructor <;> simp [touches]
  | insertSnapshot ts state detail since =>
      simp only [Stmt.apply] at h
      iterate 3 obtain ⟨_, _, h⟩ := except_bind_ok h
      cases h
      constructor <;> simp [touches]
  | upsertLocation nodeId fix source rssi snr =>
      simp only [Stmt.apply] at h
      iterate 12 obtain ⟨_, _, h⟩ := except_bind_ok h
      cases h
      constructor <;> simp [touches]
  | upsertBattery nodeId ts pct voltage source =>
      simp only [Stmt.apply] at h
      iterate 5 obtain ⟨_, _, h⟩ := except_bind_ok h
      cases h
      constructor <;> simp [touches]
  | _ =>
      cases h
      constructor <;> simp [touches]

/-- The statements that write `requests` or `request_events`. -/
def Stmt.lifecycle : Stmt → Bool
  | insertRequest _ => true
  | insertEvent _ => true
  | updateRequest .. => true
  | deleteRequests _ => true
  | deleteEvents _ => true
  | _ => false

theorem Stmt.apply_frame {s : Stmt} {n : ℕ} (hs : s.lifecycle = false)
    (h : s.apply num db = .ok (db', n)) :
    db'.requests = db.requests ∧ db'.requestEvents = db.requestEvents := by
  have hsame := apply_same h
  cases s with
  | insertRequest | insertEvent | updateRequest | deleteRequests | deleteEvents => cases hs
  | _ => exact ⟨hsame.requests rfl, hsame.requestEvents rfl⟩

namespace StoreCall

theorem of_read {ε α : Type} {x : Except ε α} {out : Db × α} (h : x.map (Prod.mk db) = .ok out) :
    out.1 = db := by
  cases x with
  | error err => cases h
  | ok a =>
      cases h
      rfl

def touches : StoreCall → TableName → Bool
  | recordReceived .., .requests => true
  | recordReceived .., .requestEvents => true
  | recordEvent .., .requestEvents => true
  | recordCompletion .., .requests => true
  | markNodeSeen .., .nodes => true
  | recordGatewaySnapshot .., .gatewaySnapshots => true
  | upsertNodeLocation .., .nodeLocations => true
  | upsertNodeBattery .., .nodeBattery => true
  | upsertBaseState .., .baseState => true
  | purgeBefore _, .requests => true
  | purgeBefore _, .requestEvents => true
  | purgeBefore _, .gatewaySnapshots => true
  | _, _ => false

theorem exec_reads {c : StoreCall} {a : c.Answer} (hc : c.reads = true)
    (h : c.exec num now db = .ok (db', a)) : db' = db := by
  cases c with
  | countByFinalState =>
      cases h
      rfl
  | countPending =>
      cases h
      rfl
  | getBaseState key =>
      cases h
      rfl
  | getLastSeen nodeId => exact of_read h
  | getNodeLocation nodeId => exact of_read h
  | getNodeBattery nodeId => exact of_read h
  | _ => cases hc

theorem exec_same {c : StoreCall} {a : c.Answer} (h : c.exec num now db = .ok (db', a)) :
    db.SameBut c.touches db' := by
  cases c with
  | recordReceived request ttlS =>
      cases hfind : db.requests.find? request.key with
      | none =>
          rw [exec_recordReceived_none hfind] at h
          cases h
          constructor <;> simp [touches]
      | some row =>
          rw [exec_recordReceived_some hfind] at h
          cases h
          exact .refl ..
  | recordEvent =>
      rw [exec_recordEvent] at h
      cases h
      constructor <;> simp [touches]
  | recordCompletion =>
      rw [exec_recordCompletion] at h
      cases h
      constructor <;> simp [touches]
  | purgeBefore cutoff =>
      rw [exec_purgeBefore] at h
      cases h
      constructor <;> simp [touches]
  | markNodeSeen nodeId ts =>
      obtain ⟨n, hn⟩ := atomically_execute h
      exact (Stmt.apply_same hn).congr fun t ↦ by cases t <;> rfl
  | recordGatewaySnapshot state detail since =>
      obtain ⟨n, hn⟩ := atomically_execute h
      exact (Stmt.apply_same hn).congr fun t ↦ by cases t <;> rfl
  | upsertNodeLocation nodeId fix source rssi snr =>
      obtain ⟨n, hn⟩ := atomically_execute h
      exact (Stmt.apply_same hn).congr fun t ↦ by cases t <;> rfl
  | upsertNodeBattery nodeId ts pct voltage source =>
      obtain ⟨n, hn⟩ := atomically_execute h
      exact (Stmt.apply_same hn).congr fun t ↦ by cases t <;> rfl
  | upsertBaseState key value =>
      have h : atomically (Stmt.apply num) (syncUpsertBaseState now key value) db =
          .ok (db', a) := h
      obtain ⟨n, hn⟩ := atomically_execute h
      exact (Stmt.apply_same hn).congr fun t ↦ by cases t <;> rfl
  | countByFinalState | countPending | getLastSeen | getNodeLocation | getNodeBattery
  | getBaseState =>
      rw [exec_reads rfl h]
      exact .refl ..

theorem exec_frame {c : StoreCall} {a : c.Answer} (hc : c.lifecycle = false)
    (h : c.exec num now db = .ok (db', a)) :
    db'.requests = db.requests ∧ db'.requestEvents = db.requestEvents := by
  have hsame := exec_same h
  cases c with
  | recordReceived | recordEvent | recordCompletion | purgeBefore => cases hc
  | _ => exact ⟨hsame.requests rfl, hsame.requestEvents rfl⟩

theorem exec_base {c : StoreCall} {a : c.Answer} (hc : c.writesBase = false)
    (h : c.exec num now db = .ok (db', a)) : db'.baseState = db.baseState := by
  have hsame := exec_same h
  cases c with
  | upsertBaseState => cases hc
  | _ => exact hsame.baseState rfl

theorem exec_upsertBaseState {key : String} {value : List (String × PyVal)} {a : Unit}
    (h : (upsertBaseState key value).exec num now db = .ok (db', a)) :
    db'.baseState.find? key = some ⟨key, value, now⟩ := by
  have h : atomically (Stmt.apply num) (syncUpsertBaseState now key value) db = .ok (db', a) := h
  obtain ⟨n, hn⟩ := atomically_execute h
  cases hn
  rw [Table.find?_upsert, if_pos rfl]
  cases hfind : db.baseState.find? key with
  | none => rfl
  | some old =>
      rw [Option.elim_some, show old.key = key from Table.key_of_find? hfind]

end StoreCall

end MeshcoreRpc
