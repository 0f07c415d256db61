import MeshcoreRpc.Persistence.StoreCalls

/-!
# The store's one connection

Every method of the store runs in a worker thread of its own, and all of them
use the one `self._conn`.  Their `with self._conn` blocks are therefore threads
on a shared connection.  A block that fails takes the statements of the others
with it, or leaves its own behind when another block has committed them;
`writes_atomic` says that nothing else can go wrong.
-/

namespace MeshcoreRpc

open Tables Coroutine Coro Interleaving SharedConnection

variable {num : Numerals}

/-! ## The blocks of the methods -/

namespace StoreCall

/-- The `with self._conn` block of a method, entered when the clock reads `now`.
The methods that only read have none. -/
def block (now : ℚ) : (c : StoreCall) → Option (StoreTx c.Answer)
  | recordReceived request ttlS => some (syncRecordReceived now request ttlS)
  | recordEvent requestId nodeId state detail =>
    some (syncRecordEvent now requestId nodeId state detail)
  | recordCompletion requestId nodeId finalState response errorCode =>
    some (syncRecordCompletion now requestId nodeId finalState response errorCode)
  | countByFinalState => none
  | countPending => none
  | markNodeSeen nodeId ts => some (syncMarkNodeSeen nodeId ts)
  | getLastSeen _ => none
  | recordGatewaySnapshot state detail since =>
    some (syncRecordGatewaySnapshot now state detail since)
  | upsertNodeLocation nodeId fix source rssi snr =>
    some (syncUpsertNodeLocation nodeId fix source rssi snr)
  | getNodeLocation _ => none
  | upsertNodeBattery nodeId ts pct voltage source =>
    some (syncUpsertNodeBattery nodeId ts pct voltage source)
  | getNodeBattery _ => none
  | upsertBaseState key value => some (syncUpsertBaseState now key value)
  | getBaseState _ => none
  | purgeBefore cutoffTs => some (syncPurgeBefore cutoffTs)

def receivedEvent (now : ℚ) (request : Request) : EventRow :=
  ⟨request.id, request.from_, .received, none, now⟩

def statements (now : ℚ) : StoreCall → List Stmt
  | recordReceived request ttlS =>
    [.insertRequest (receivedRow now request ttlS), .insertEvent (receivedEvent now request)]
  | recordEvent requestId nodeId state detail =>
    [.insertEvent ⟨requestId, nodeId, state, detail, now⟩]
  | recordCompletion requestId nodeId finalState response errorCode =>
    [.updateRequest (nodeId, requestId) now finalState errorCode response]
  | markNodeSeen nodeId ts => [.upsertNode nodeId ts]
  | recordGatewaySnapshot state detail since => [.insertSnapshot now state detail since]
  | upsertNodeLocation nodeId fix source rssi snr => [.upsertLocation nodeId fix source rssi snr]
  | upsertNodeBattery nodeId ts pct voltage source => [.upsertBattery nodeId ts pct voltage source]
  | upsertBaseState key value => [.upsertBase key value now]
  | purgeBefore cutoffTs =>
    [.deleteRequests cutoffTs, .deleteEvents cutoffTs, .deleteSnapshots cutoffTs]
  | _ => []

theorem exec_block {now : ℚ} {c : StoreCall} {body : StoreTx c.Answer}
    (h : c.block now = some body) : c.exec num now = atomically (Stmt.apply num) body := by
  cases c <;> cases h <;> rfl

theorem straight_block {now : ℚ} {c : StoreCall} {body : StoreTx c.Answer}
    (h : c.block now = some body) : Straight body (c.statements now) := by
  cases c with
  | countByFinalState => cases h
  | countPending => cases h
  | getLastSeen => cases h
  | getNodeLocation => cases h
  | getNodeBattery => cases h
  | getBaseState => cases h
  | recordReceived request ttlS =>
      cases h
      refine .execute fun rowcount ↦ ?_
      split
      · exact .ret false _
      · exact .execute fun _ ↦ .ret true _
  | purgeBefore cutoffTs =>
      cases h
      exact .execute fun deleted ↦ .execute fun _ ↦ .execute fun _ ↦ .ret deleted _
  | recordEvent =>
      cases h
      exact .execute fun _ ↦ .ret () _
  | recordCompletion =>
      cases h
      exact .execute fun _ ↦ .ret () _
  | markNodeSeen =>
      cases h
      exact .execute fun _ ↦ .ret () _
  | recordGatewaySnapshot =>
      cases h
      exact .execute fun _ ↦ .ret () _
  | upsertNodeLocation =>
      cases h
      exact .execute fun _ ↦ .ret () _
  | upsertNodeBattery =>
      cases h
      exact .execute fun _ ↦ .ret () _
  | upsertBaseState =>
      cases h
      exact .execute fun _ ↦ .ret () _

theorem insertRequest_mem {now : ℚ} {c : StoreCall} {row : RequestRow}
    (h : .insertRequest row ∈ c.statements now) :
    ∃ request ttlS, c = recordReceived request ttlS ∧ row = receivedRow now request ttlS := by
  cases c with
  | recordReceived request ttlS =>
      simp only [statements, List.mem_cons, Stmt.insertRequest.injEq, reduceCtorEq,
        List.not_mem_nil, or_false] at h
      exact ⟨request, ttlS, rfl, h⟩
  | _ => simp [statements] at h

end StoreCall

/-- What a method hands back, with the call it answers. -/
abbrev StoreCall.Outcome := (c : StoreCall) × c.Answer

/-- A method that writes, with the reading of the clock it makes. -/
structure Write where
  call : StoreCall
  now : ℚ
  block : StoreTx call.Answer
  isBlock : call.block now = some block

namespace Write

def body (w : Write) : StoreTx StoreCall.Outcome := do
  let a ← w.block
  return ⟨w.call, a⟩

/-- The method in its worker thread. -/
def thread (w : Write) : Thread Stmt ℕ PyExc StoreCall.Outcome := withConn w.body

def statements (w : Write) : List Stmt := w.call.statements w.now

theorem straight (w : Write) : Straight w.body w.statements :=
  (StoreCall.straight_block w.isBlock).bind_ret _

/-- In a thread that has the connection to itself a method returns and leaves
what `exec` says. -/
theorem thread_alone {ι : Type} (w : Write) (d₀ : Db) (i : ι) :
    (w.thread.eval (Journal.respond (Stmt.apply num) d₀ i) .start).1 =
        ((w.call.exec num w.now d₀).map fun out ↦ ⟨w.call, out.2⟩) ∧
      ((w.thread.eval (Journal.respond (Stmt.apply num) d₀ i) .start).2).stored
          (Stmt.apply num) d₀ =
        match w.call.exec num w.now d₀ with
        | .ok out => out.1
        | .error _ => d₀ := by
  obtain ⟨hout, hstored⟩ := eval_withConn (Stmt.apply num) d₀ i w.body .start
  rw [StoreCall.exec_block w.isBlock, thread, hout, hstored]
  have hview : Journal.view (ι := ι) (Stmt.apply num) d₀ .start = d₀ := rfl
  rw [hview, body, eval_bind, atomically]
  rcases w.block.eval (answer (Stmt.apply num)) d₀ with ⟨_ | a, d'⟩
  · exact ⟨rfl, rfl⟩
  · exact ⟨rfl, rfl⟩

end Write

/-! ## What a statement does to the rows of `requests` and their events -/

/-- The request has its `received` event. -/
def Db.HasReceived (db : Db) (k : RequestKey) : Prop :=
  ∃ ev ∈ db.requestEvents, ev.key = k ∧ ev.state = .received

def Stmt.deletesRequests : Stmt → Bool
  | deleteRequests _ => true
  | _ => false

namespace Stmt

variable {s : Stmt} {db db' : Db} {n : ℕ} {k : RequestKey}

theorem find?_updateRequest {key : RequestKey} {completedAt : ℚ} {finalState : FinalState}
    {errorCode : Option String} {responseJson : Option Response}
    (h : (updateRequest key completedAt finalState errorCode responseJson).apply num db =
      .ok (db', n)) (k : RequestKey) :
    (db'.requests.find? k).isSome = (db.requests.find? k).isSome := by
  cases h
  have hfind := Table.find?_modify (t := db.requests) (k := key)
    (RequestRow.key_complete completedAt finalState errorCode responseJson) k
  refine (congrArg Option.isSome hfind).trans ?_
  split
  · exact Option.isSome_map
  · rfl

theorem row_stays (hs : s.deletesRequests = false) (h : s.apply num db = .ok (db', n))
    (hrow : (db.requests.find? k).isSome) : (db'.requests.find? k).isSome := by
  have frame (heq : db'.requests = db.requests) : (db'.requests.find? k).isSome := heq ▸ hrow
  cases s with
  | deleteRequests => cases hs
  | insertRequest row =>
      cases h
      change ((db.requests.insertOrIgnore row).1.find? k).isSome
      rw [Table.find?_insertOrIgnore]
      split
      · rfl
      · exact hrow
  | updateRequest key completedAt finalState errorCode responseJson =>
      rwa [find?_updateRequest h]
  | insertEvent row =>
      cases h
      exact hrow
  | deleteEvents cutoff =>
      cases h
      exact hrow
  | upsertNode => exact frame (apply_frame rfl h).1
  | insertSnapshot => exact frame (apply_frame rfl h).1
  | upsertLocation => exact frame (apply_frame rfl h).1
  | upsertBattery => exact frame (apply_frame rfl h).1
  | upsertBase => exact frame (apply_frame rfl h).1
  | deleteSnapshots => exact frame (apply_frame rfl h).1

/-- A row is there because it was, or because this statement inserted it. -/
theorem row_origin (h : s.apply num db = .ok (db', n)) (hrow : (db'.requests.find? k).isSome) :
    (db.requests.find? k).isSome ∨ ∃ row, s = .insertRequest row ∧ row.key = k ∧ n = 1 := by
  have frame (heq : db'.requests = db.requests) : (db.requests.find? k).isSome := heq ▸ hrow
  cases s with
  | insertRequest row =>
      cases hfind : db.requests.find? row.key with
      | some old =>
          simp only [apply, Table.insertOrIgnore_of_some hfind] at h
          cases h
          exact .inl hrow
      | none =>
          simp only [apply, Table.insertOrIgnore_of_none hfind] at h
          cases h
          have hrow' : ((db.requests.append row hfind).find? k).isSome := hrow
          rw [Table.find?_append] at hrow'
          by_cases hk : k = row.key
          · exact .inr ⟨row, rfl, hk.symm, rfl⟩
          · exact .inl (by simpa [hk] using hrow')
  | updateRequest key completedAt finalState errorCode responseJson =>
      exact .inl (find?_updateRequest h k ▸ hrow)
  | deleteRequests cutoff =>
      cases h
      rw [Table.find?_deleteWhere, Option.isSome_filter] at hrow
      exact .inl (Option.isSome_of_any hrow)
  | insertEvent row =>
      cases h
      exact .inl hrow
  | deleteEvents cutoff =>
      cases h
      exact .inl hrow
  | upsertNode => exact .inl (frame (apply_frame rfl h).1)
  | insertSnapshot => exact .inl (frame (apply_frame rfl h).1)
  | upsertLocation => exact .inl (frame (apply_frame rfl h).1)
  | upsertBattery => exact .inl (frame (apply_frame rfl h).1)
  | upsertBase => exact .inl (frame (apply_frame rfl h).1)
  | deleteSnapshots => exact .inl (frame (apply_frame rfl h).1)

theorem row_inserted {row : RequestRow} (h : (insertRequest row).apply num db = .ok (db', n)) :
    (db'.requests.find? row.key).isSome := by
  cases h
  change ((db.requests.insertOrIgnore row).1.find? row.key).isSome
  rw [Table.find?_insertOrIgnore, if_pos rfl]
  rfl

/-- The events of a row stay as long as the row does: the purge deletes those of
requests that are gone. -/
theorem received_stays (h : s.apply num db = .ok (db', n)) (hrow : (db'.requests.find? k).isSome)
    (hev : db.HasReceived k) : db'.HasReceived k := by
  have frame (heq : db'.requestEvents = db.requestEvents) : db'.HasReceived k := by
    rw [Db.HasReceived, heq]
    exact hev
  cases s with
  | deleteEvents cutoff =>
      cases h
      obtain ⟨ev, hmem, hkey, hstate⟩ := hev
      obtain ⟨row, hfind⟩ := Option.isSome_iff_exists.mp hrow
      obtain ⟨hrowMem, hrowKey⟩ := Table.find?_eq_some.mp hfind
      have hid : row.id = ev.requestId := by
        have heq : row.key = ev.key := hrowKey.trans hkey.symm
        exact congrArg Prod.snd heq
      have hpresent : ev.requestId ∈ db.requests.rows.map RequestRow.id :=
        hid ▸ List.mem_map_of_mem hrowMem
      refine ⟨ev, List.mem_filter.mpr ⟨hmem, ?_⟩, hkey, hstate⟩
      simp [EventRow.orphaned, hpresent]
  | insertEvent row =>
      cases h
      obtain ⟨ev, hmem, hkey⟩ := hev
      exact ⟨ev, List.mem_append_left _ hmem, hkey⟩
  | insertRequest =>
      cases h
      exact hev
  | updateRequest =>
      cases h
      exact hev
  | deleteRequests =>
      cases h
      exact hev
  | upsertNode => exact frame (apply_frame rfl h).2
  | insertSnapshot => exact frame (apply_frame rfl h).2
  | upsertLocation => exact frame (apply_frame rfl h).2
  | upsertBattery => exact frame (apply_frame rfl h).2
  | upsertBase => exact frame (apply_frame rfl h).2
  | deleteSnapshots => exact frame (apply_frame rfl h).2

end Stmt

/-! ## Every interleaving of the methods -/

/-- How a `record_received` returns: the row was there already, or both of its
statements have been executed. -/
def ReceivedReturns (w : Write) (request : Request) (ttlS : ℤ)
    (tr : List (Exchange (Sql.Answer (S := Stmt) ℕ PyExc))) (out : StoreCall.Outcome) : Prop :=
  (out = ⟨.recordReceived request ttlS, false⟩ ∧
      ⟨.execute (.insertRequest (StoreCall.receivedRow w.now request ttlS)), Except.ok 1⟩ ∉ tr) ∨
    (out = ⟨.recordReceived request ttlS, true⟩ ∧ executedIn tr = w.statements)

theorem receivedReturns {w : Write} {request : Request} {ttlS : ℤ}
    {tr : List (Exchange (Sql.Answer (S := Stmt) ℕ PyExc))} {out : StoreCall.Outcome}
    (hcall : w.call = .recordReceived request ttlS) (hsteps : Steps w.thread tr (.ret out)) :
    ReceivedReturns w request ttlS tr out := by
  have hwp : w.thread.wp fun tr o ↦ ∀ out, o = .ok out → ReceivedReturns w request ttlS tr out := by
    obtain ⟨call, now, block, isBlock⟩ := w
    subst hcall
    cases isBlock
    simp only [Write.thread, wp_withConn, Write.body, syncRecordReceived, wp_bind, wp_execute]
    intro r
    cases r with
    | error err =>
        intro out hout
        cases hout
    | ok rowcount =>
        by_cases hone : rowcount = 1
        · subst hone
          simp only [ne_eq, not_true_eq_false, if_false, wp_bind, wp_execute]
          intro r'
          cases r' with
          | error err =>
              intro out hout
              cases hout
          | ok _ =>
              rintro out ⟨⟩
              exact .inr ⟨rfl, rfl⟩
        · simp only [ne_eq, hone, not_false_eq_true, if_true, wp_pure]
          rintro out ⟨⟩
          refine .inl ⟨rfl, ?_⟩
          simp [blockExchanges, Ne.symm hone]
  exact wp_iff.mp hwp tr (.ok out) hsteps out rfl

abbrev StoreTrace (ι : Type) := List (Event ι (Sql.Answer (S := Stmt) ℕ PyExc) Unit Empty)

section Runs

variable {ι : Type} [DecidableEq ι] {writes : ι → Write} {d₀ : Db}
  {tr : StoreTrace ι}
  {p : ι → Thread Stmt ℕ PyExc StoreCall.Outcome} {j : Journal ι Stmt} {log : List (ι × Stmt)}

variable (num writes) in
/-- The methods `writes` in their threads on one connection to `d₀`, step by step. -/
abbrev StoreRun (d₀ : Db) : StoreTrace ι →
    (ι → Thread Stmt ℕ PyExc StoreCall.Outcome) → Journal ι Stmt → Prop :=
  Run (Connection (Stmt.apply num) d₀) (fun i ↦ (writes i).thread) .start

variable (writes) in
/-- Every row has its `received` event, or comes from a block that has not got
as far as that. -/
def Announced (tr : StoreTrace ι)
    (log : List (ι × Stmt)) (db : Db) : Prop :=
  ∀ k, (db.requests.find? k).isSome → db.HasReceived k ∨
    ∃ i request ttlS, (writes i).call = .recordReceived request ttlS ∧ request.key = k ∧
      ⟨.execute (.insertRequest (StoreCall.receivedRow (writes i).now request ttlS)),
        Except.ok 1⟩ ∈ exchangesOf i tr ∧
      (i, .insertRequest (StoreCall.receivedRow (writes i).now request ttlS)) ∈ log ∧
      (i, .insertEvent (StoreCall.receivedEvent (writes i).now request)) ∉ log

theorem announced (h₀ : ∀ k, (d₀.requests.find? k).isSome → d₀.HasReceived k)
    (hlog : Logged (Stmt.apply num) d₀ tr log)
    (hsub : ∀ i, (own i log).Sublist (writes i).statements) :
    Announced writes tr log (replay (Stmt.apply num) d₀ log) := by
  induction hlog with
  | nil => exact fun k hrow ↦ .inl (h₀ k hrow)
  | @snoc log d' i s n past happly hmem ih =>
      have hbefore (i' : ι) : (own i' log).Sublist (writes i').statements := by
        have := hsub i'
        rw [own_append] at this
        exact (List.sublist_append_left _ _).trans this
      rw [replay_snoc happly]
      intro k hrow
      rcases Stmt.row_origin happly hrow with hold | ⟨row, rfl, rfl, rfl⟩
      · rcases ih hbefore k hold with hev | ⟨i', request, ttlS, hcall, rfl, hins, hlog, hnot⟩
        · exact .inl (Stmt.received_stays happly hrow hev)
        · by_cases hthis : (i', .insertEvent (StoreCall.receivedEvent (writes i').now request)) =
            (i, s)
          · cases hthis
            cases happly
            exact .inl ⟨_, List.mem_append_right _ (List.mem_singleton_self _), rfl, rfl⟩
          · exact .inr ⟨i', request, ttlS, hcall, rfl, hins, List.mem_append_left _ hlog,
              by simp [hnot, hthis]⟩
      · have hown := hsub i
        rw [own_append, own_singleton_self] at hown
        obtain ⟨request, ttlS, hcall, rfl⟩ : ∃ request ttlS,
            (writes i).call = .recordReceived request ttlS ∧
              row = StoreCall.receivedRow (writes i).now request ttlS :=
          StoreCall.insertRequest_mem (hown.subset (by simp))
        refine .inr ⟨i, request, ttlS, hcall, rfl, hmem, by simp, fun hlogged ↦ ?_⟩
        -- the event would come before the row in the block
        have hev : .insertEvent (StoreCall.receivedEvent (writes i).now request) ∈ own i log :=
          mem_own.mpr (by simpa using hlogged)
        rw [Write.statements, hcall] at hown
        have horder := ((List.singleton_sublist.mpr hev).append_right _).trans hown
        cases horder with
        | cons _ hshort => simpa using hshort.length_le

theorem inserted_row_stays {i : ι} {row : RequestRow}
    (hlog : Logged (Stmt.apply num) d₀ tr log) (hmem : (i, .insertRequest row) ∈ log)
    (hkeep : ∀ entry ∈ log, entry.2.deletesRequests = false) :
    ((replay (Stmt.apply num) d₀ log).requests.find? row.key).isSome := by
  induction hlog with
  | nil => cases hmem
  | @snoc log _ k s _ past happly _ ih =>
      rw [replay_snoc happly]
      rcases List.mem_append.mp hmem with hearlier | hlast
      · exact Stmt.row_stays (hkeep (k, s) (by simp)) happly
          (ih hearlier fun entry hentry ↦ hkeep entry (List.mem_append_left _ hentry))
      · cases List.mem_singleton.mp hlast
        exact Stmt.row_inserted happly

/-- What the store promises of its methods at one point of a run. -/
structure Atomic (num : Numerals) (writes : ι → Write) (d₀ : Db)
    (tr : StoreTrace ι)
    (p : ι → Thread Stmt ℕ PyExc StoreCall.Outcome) (j : Journal ι Stmt) : Prop where
  /-- Whatever a method that returned has executed is in the database. -/
  returned : ∀ i out, p i = .ret out → own i j.committed = executedIn (exchangesOf i tr)
  /-- Nothing of a method that raised is. -/
  raised : ∀ i err, p i = .raise err → own i j.committed = []
  /-- A row has its `received` event, or its `record_received` is still at work. -/
  events : ∀ k, ((j.stored (Stmt.apply num) d₀).requests.find? k).isSome →
    (j.stored (Stmt.apply num) d₀).HasReceived k ∨
      ∃ i request ttlS, (writes i).call = .recordReceived request ttlS ∧ request.key = k ∧
        (p i).outcome? = none
  /-- After a fresh `record_received` its row exists until a purge. -/
  fresh : ∀ i request ttlS, p i = .ret ⟨.recordReceived request ttlS, true⟩ →
    ((j.stored (Stmt.apply num) d₀).requests.find? request.key).isSome ∨
      ∃ entry ∈ j.committed, entry.2.deletesRequests = true

theorem writes_atomic (h : StoreRun num writes d₀ tr p j)
    (hiso : IsolatedRollbacks (Stmt.apply num) d₀ tr)
    (h₀ : ∀ k, (d₀.requests.find? k).isSome → d₀.HasReceived k) :
    Atomic num writes d₀ tr p j := by
  have hlog := (logged h.evolves).left
  refine ⟨fun i out hp ↦ returned_committed h hiso hp, fun i err hp ↦ raised_absent h hiso hp,
    fun k hrow ↦ ?_, fun i request ttlS hp ↦ ?_⟩
  · have hsub (i : ι) : (own i j.committed).Sublist (writes i).statements := by
      have hexec := own_sublist h.evolves i
      rw [Journal.log, own_append] at hexec
      exact ((List.sublist_append_left _ _).trans hexec).trans
        ((writes i).straight.executedIn_prefix (h.steps i)).sublist
    rcases announced h₀ hlog hsub k hrow with hev | ⟨i, request, ttlS, hcall, hkey, hins, hin, hnot⟩
    · exact .inl hev
    refine .inr ⟨i, request, ttlS, hcall, hkey, ?_⟩
    cases hp : p i with
    | await e next => rfl
    | raise err =>
        have hnone := raised_absent h hiso hp
        exact absurd rfl (own_eq_nil.mp hnone _ hin)
    | ret out =>
        rcases receivedReturns hcall (hp ▸ h.steps i) with ⟨_, hins'⟩ | ⟨_, hall⟩
        · exact absurd hins hins'
        · refine absurd (mem_own.mp ?_) hnot
          rw [returned_committed h hiso hp, hall, Write.statements, hcall]
          simp [StoreCall.statements]
  · have hcall : (writes i).call = .recordReceived request ttlS := by
      have hreturns : (writes i).thread.Returns fun out ↦ out.1 = (writes i).call :=
        returns_withConn (Returns.bind fun _ ↦ rfl)
      have hsteps := h.steps i
      rw [hp] at hsteps
      exact (hreturns.steps hsteps).symm
    by_cases hkeep : ∀ entry ∈ j.committed, entry.2.deletesRequests = false
    · left
      rcases receivedReturns hcall (hp ▸ h.steps i) with ⟨hfalse, _⟩ | ⟨_, hall⟩
      · cases hfalse
      · have hin : .insertRequest (StoreCall.receivedRow (writes i).now request ttlS) ∈
            own i j.committed := by
          rw [returned_committed h hiso hp, hall, Write.statements, hcall]
          simp [StoreCall.statements]
        exact inserted_row_stays hlog (mem_own.mp hin) hkeep
    · right
      simpa using hkeep

end Runs

/-! ## Two methods, one of them failing -/

/-- A `record_received` and the battery report of a telemetry event whose node
id is a list, which no parameter can be bound to. -/
def pingAndBattery : Bool → Write
  | true => ⟨.recordReceived samplePing 30, 0, _, rfl⟩
  | false => ⟨.upsertNodeBattery (.list [.str "x"]) (.float (.fin 0)) .none .none .none, 0, _, rfl⟩

/-- The two threads stepped in the order given. -/
def interleaved (order : List Bool) :
    StoreTrace Bool × (Bool → Thread Stmt ℕ PyExc StoreCall.Outcome) × Journal Bool Stmt :=
  play (fun i (_ : Unit) ↦ Journal.respond (Stmt.apply .plain) Db.empty i)
    (order.map fun i ↦ (i, ())) (fun i ↦ (pingAndBattery i).thread, .start)

theorem interleaved_run (order : List Bool) :
    StoreRun .plain pingAndBattery Db.empty (interleaved order).1 (interleaved order).2.1
      (interleaved order).2.2 :=
  play_run (fun i _ ↦ Journal.respond_connection (Stmt.apply .plain) Db.empty i ()) rfl

/-- With the failing block out of the way first, the ping is recorded. -/
theorem ping_recorded :
    ((interleaved [false, false, true, true, true]).2.2.stored
      (Stmt.apply .plain) Db.empty).HasReceived samplePing.key := by
  have hiso : IsolatedRollbacks (Stmt.apply .plain) Db.empty
      (interleaved [false, false, true, true, true]).1 := isolatedRollbacks_of_test rfl
  have hatomic := writes_atomic (interleaved_run [false, false, true, true, true]) hiso
    (by simp [Db.empty])
  rcases hatomic.events samplePing.key rfl with hev | ⟨i, _, _, hcall, _, hrunning⟩
  · exact hev
  · cases i with
    | true => cases hrunning
    | false => cases hcall

/-- The failing block rolls the ping's `INSERT` back, and its `record_received`
goes on to return `True`. -/
theorem rollback_drops_insert :
    ¬ ∀ (writes : Bool → Write) (d₀ : Db) tr p j,
      (∀ k, (d₀.requests.find? k).isSome → d₀.HasReceived k) →
        StoreRun .plain writes d₀ tr p j → Atomic .plain writes d₀ tr p j := by
  intro h
  have hatomic := h _ _ _ _ _ (by simp [Db.empty])
    (interleaved_run [true, false, false, true, true])
  rcases hatomic.fresh true samplePing 30 rfl with hrow | ⟨entry, hentry, hpurge⟩
  · exact absurd hrow (by decide)
  · have hlog : (interleaved [true, false, false, true, true]).2.2.committed =
        [(true, .insertEvent (StoreCall.receivedEvent 0 samplePing))] := rfl
    rw [hlog] at hentry
    cases List.mem_singleton.mp hentry
    cases hpurge

end MeshcoreRpc
