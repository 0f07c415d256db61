import MeshcoreRpc.Persistence.StoreCalls

/-!
# The retention purge

Request ids are unique per node only, while the second delete of
`_sync_purge_before` compares the id alone.  An old event whose request is gone
therefore stays as long as a request of another node has its id.
-/

namespace MeshcoreRpc

open Tables

namespace Db

/-- What store calls at given times make of a database. -/
def after (num : Numerals) (calls : List (ℚ × StoreCall)) (db : Db) : Db :=
  calls.foldl (fun db call ↦
    match call.2.exec num call.1 db with
    | .ok (db', _) => db'
    | .error _ => db) db

/-- `requests` has a row for the event. -/
def HasRow (db : Db) (event : EventRow) : Prop :=
  (db.requests.find? event.key).isSome

instance (db : Db) (event : EventRow) : Decidable (db.HasRow event) :=
  inferInstanceAs (Decidable (_ = true))

/-- What `purge_before` leaves. -/
def purged (db : Db) (cutoff : ℚ) : Db :=
  { db with
    requests := db.requests.deleteWhere (RequestRow.expired cutoff)
    requestEvents := db.requestEvents.filter fun row ↦
      !row.orphaned cutoff (db.requests.deleteWhere (RequestRow.expired cutoff))
    gatewaySnapshots := db.gatewaySnapshots.filter fun row ↦ !decide (row.ts < cutoff) }

/-- What `purge_before` has to leave of `db`, and the number it has to return. -/
structure Retained (cutoff : ℚ) (db db' : Db) (deleted : ℕ) : Prop where
  requests : db'.requests.rows = db.requests.rows.filter fun row ↦
    decide (∀ t ∈ row.completedAt, cutoff ≤ t)
  deleted_add : deleted + db'.requests.rows.length = db.requests.rows.length
  events_sublist : db'.requestEvents.Sublist db.requestEvents
  events_kept : (db'.requestEvents.filter fun event ↦ decide (db'.HasRow event)) =
    db.requestEvents.filter fun event ↦ decide (db'.HasRow event)
  events_gone : ∀ event ∈ db'.requestEvents, event.ts < cutoff → db'.HasRow event
  snapshots : db'.gatewaySnapshots = db.gatewaySnapshots.filter fun row ↦ decide (cutoff ≤ row.ts)
  nodes : db'.nodes = db.nodes
  nodeLocations : db'.nodeLocations = db.nodeLocations
  nodeBattery : db'.nodeBattery = db.nodeBattery
  baseState : db'.baseState = db.baseState

/-- Where a row that stays has the request id of an old event, one that stays has
its node id too. -/
def OrphansApart (cutoff : ℚ) (db : Db) : Prop :=
  ∀ event ∈ db.requestEvents, event.ts < cutoff →
    ∀ row ∈ db.requests.rows, row.expired cutoff = false → row.id = event.requestId →
      ∃ own ∈ db.requests.rows, own.expired cutoff = false ∧ own.key = event.key

end Db

theorem RequestRow.not_expired (cutoff : ℚ) (row : RequestRow) :
    (!row.expired cutoff) = decide (∀ t ∈ row.completedAt, cutoff ≤ t) := by
  cases h : row.completedAt with
  | none => simp [expired, h]
  | some t =>
      simp only [expired, h, Option.mem_some_iff, forall_eq']
      rw [← decide_not, decide_eq_decide]
      exact not_lt

namespace Db

variable {num : Numerals} {now cutoff : ℚ} {db db' : Db} {deleted : ℕ}

theorem exec_purge (num : Numerals) (now cutoff : ℚ) (db : Db) :
    (StoreCall.purgeBefore cutoff).exec num now db =
      .ok (db.purged cutoff, (db.requests.rows.filter (RequestRow.expired cutoff)).length) :=
  StoreCall.exec_purgeBefore

theorem hasRow_iff {event : EventRow} :
    db.HasRow event ↔ ∃ row ∈ db.requests.rows, row.key = event.key := by
  rw [HasRow, Option.isSome_iff_exists]
  exact exists_congr fun row ↦ Table.find?_eq_some

theorem hasRow_purged {event : EventRow} :
    (db.purged cutoff).HasRow event ↔
      ∃ row ∈ db.requests.rows, row.expired cutoff = false ∧ row.key = event.key := by
  simp [hasRow_iff, purged, Table.deleteWhere, and_assoc]

theorem not_orphaned_of_hasRow {event : EventRow} (h : db.HasRow event) :
    event.orphaned cutoff db.requests = false := by
  obtain ⟨row, hrow, hkey⟩ := hasRow_iff.mp h
  have hid : row.id = event.requestId := congrArg Prod.snd hkey
  have hmem : event.requestId ∈ db.requests.rows.map RequestRow.id :=
    List.mem_map.mpr ⟨row, hrow, hid⟩
  rw [EventRow.orphaned, List.contains_iff_mem.mpr hmem]
  exact Bool.and_false _

/-- An old event stays where the request id still occurs, whatever its node. -/
theorem mem_purged_events {event : EventRow} (hold : event.ts < cutoff) :
    event ∈ (db.purged cutoff).requestEvents ↔ event ∈ db.requestEvents ∧
      ∃ row ∈ db.requests.rows, row.expired cutoff = false ∧ row.id = event.requestId := by
  simp [purged, EventRow.orphaned, hold, Table.deleteWhere, and_assoc]

theorem purged_purged (cutoff : ℚ) (db : Db) :
    (db.purged cutoff).purged cutoff = db.purged cutoff := by
  have hrequests : ((db.purged cutoff).requests.deleteWhere (RequestRow.expired cutoff)) =
      (db.purged cutoff).requests := by
    apply Table.ext_rows
    simp [purged, Table.deleteWhere]
  simp only [purged] at hrequests ⊢
  rw [hrequests]
  simp

theorem expired_purged (cutoff : ℚ) (db : Db) :
    (db.purged cutoff).requests.rows.filter (RequestRow.expired cutoff) = [] := by
  rw [List.filter_eq_nil_iff]
  intro row hrow
  have hstays := (List.mem_filter.mp hrow).2
  simpa using hstays

/-- What a purge retains, but for the old events whose request is gone. -/
theorem retained_purged_iff (cutoff : ℚ) (db : Db) :
    Retained cutoff db (db.purged cutoff)
        (db.requests.rows.filter (RequestRow.expired cutoff)).length ↔
      ∀ event ∈ (db.purged cutoff).requestEvents, event.ts < cutoff →
        (db.purged cutoff).HasRow event := by
  refine ⟨Retained.events_gone, fun hgone ↦ ⟨?_, ?_, ?_, ?_, hgone, ?_, rfl, rfl, rfl, rfl⟩⟩
  · simp only [purged, Table.deleteWhere, RequestRow.not_expired]
  · simp only [purged, Table.deleteWhere]
    rw [← List.countP_eq_length_filter, ← List.countP_eq_length_filter,
      List.length_eq_countP_add_countP (RequestRow.expired cutoff)]
    simp
  · exact List.filter_sublist
  · change List.filter _ (List.filter _ db.requestEvents) = _
    rw [List.filter_filter]
    apply List.filter_congr
    intro event _
    by_cases hrow : (db.purged cutoff).HasRow event
    · have hkeep : event.orphaned cutoff
          (db.requests.deleteWhere (RequestRow.expired cutoff)) = false :=
        not_orphaned_of_hasRow hrow
      rw [hkeep]
      exact Bool.and_true _
    · simp [hrow]
  · simp only [purged]
    apply List.filter_congr
    intro row _
    rw [← decide_not, decide_eq_decide]
    exact not_lt

/-- The old events that stay have their own request exactly where the orphans
are apart from the requests that stay. -/
theorem events_gone_iff (cutoff : ℚ) (db : Db) :
    (∀ event ∈ (db.purged cutoff).requestEvents, event.ts < cutoff →
        (db.purged cutoff).HasRow event) ↔ db.OrphansApart cutoff := by
  constructor
  · intro h event hmem hold row hrow hstays hid
    have hkept := (mem_purged_events hold).mpr ⟨hmem, row, hrow, hstays, hid⟩
    exact hasRow_purged.mp (h event hkept hold)
  · intro h event hkept hold
    obtain ⟨hmem, row, hrow, hstays, hid⟩ := (mem_purged_events hold).mp hkept
    exact hasRow_purged.mpr (h event hmem hold row hrow hstays hid)

/-! ## The purge of the store -/

/-- The purge does what it has to, and a second one changes nothing. -/
def PurgesRight (num : Numerals) (now later cutoff : ℚ) (db : Db) : Prop :=
  ∃ db' deleted, (StoreCall.purgeBefore cutoff).exec num now db = .ok (db', deleted) ∧
    Retained cutoff db db' deleted ∧
    (StoreCall.purgeBefore cutoff).exec num later db' = .ok (db', 0)

/-- The purge does what it has to exactly where no orphan shares its request id
with a request that stays. -/
theorem purge_right_iff (num : Numerals) (now later cutoff : ℚ) (db : Db) :
    db.PurgesRight num now later cutoff ↔ db.OrphansApart cutoff := by
  have hagain : (StoreCall.purgeBefore cutoff).exec num later (db.purged cutoff) =
      .ok (db.purged cutoff, 0) := by
    rw [exec_purge, purged_purged, expired_purged]
    rfl
  rw [← events_gone_iff, ← retained_purged_iff]
  constructor
  · rintro ⟨db', deleted, hexec, hretained, _⟩
    obtain ⟨rfl, rfl⟩ :=
      Prod.mk.inj (Except.ok.inj ((exec_purge num now cutoff db).symm.trans hexec))
    exact hretained
  · intro hretained
    exact ⟨_, _, exec_purge num now cutoff db, hretained, hagain⟩

end Db

/-- Two pings with the id `r1`: the one of `node-a` has ended at time 1, the one
of `node-b` is pending. -/
def reusingCalls : List (ℚ × StoreCall) :=
  [(0, .recordReceived samplePing 30),
    (1, .recordCompletion "r1" "node-a" .completedOk none none),
    (2, .recordReceived (.simple "r1" "ping" "node-b" length_r1 length_ping length_nodeB) 30)]

/-- A purge of all that is older than time 5 leaves the event of `node-a`. -/
theorem reused_id_keeps_event :
    ¬ (Db.empty.after .plain reusingCalls).PurgesRight .plain 9 9 5 := by
  rintro ⟨db', deleted, hexec, hretained, _⟩
  obtain ⟨rfl, rfl⟩ := Prod.mk.inj (Except.ok.inj ((Db.exec_purge ..).symm.trans hexec))
  have hmem : (⟨"r1", "node-a", .received, none, 0⟩ : EventRow) ∈
      ((Db.empty.after .plain reusingCalls).purged 5).requestEvents := by decide
  exact absurd (hretained.events_gone _ hmem (by decide)) (by decide)

end MeshcoreRpc
