import MeshcoreRpc.Core.Runs

/-!
# The answers on the bus

The calls with the MQTT connection beside the database.  `Service.run` closes
the bus first, waits for the calls in flight, and closes the store last;
`_emit` publishes only while the bus is connected.
-/

namespace MeshcoreRpc

open Tables Coroutine Coro Interleaving

structure Server where
  db : Db
  connected : Bool := true
  storeOpen : Bool := true
  published : List (String × Response) := []

/-- What happens beside the calls. -/
inductive Outside where
  | background (x : Background)
  /-- The block of `MqttBus.connect` is left. -/
  | disconnect
  /-- `Store.close`, once the wait for the calls is over. -/
  | close

/-- The topic `_emit` publishes a response on. -/
def emitTopic (nodeId : String) (response : Response) : Except PyExc String :=
  Topics.rpcResponseTopic (if response.to_ = "" then nodeId else response.to_)

/-- An answer that only an open store gives. -/
def Eff.needsStore : (e : Eff) → e.Answer → Bool
  | store _, .ok _ => true
  | underTtl _ e, some r => e.needsStore r
  | afterTtl e, r => e.needsStore r
  | _, _ => false

/-- An answer that only a connected bus gives. -/
def Eff.needsBus : (e : Eff) → e.Answer → Bool
  | publish .., .ok _ => true
  | underTtl _ e, some r => e.needsBus r
  | afterTtl e, r => e.needsBus r
  | _, _ => false

namespace Server

/-- What the answer `r` to the effect `e` says about the server. -/
def Transition (num : Numerals) (now : ℚ) : (e : Eff) → e.Answer → Server → Server → Prop
  | .emit nodeId response, .ok _, s, s' =>
    s.connected ∧ ∃ topic, emitTopic nodeId response = .ok topic ∧
      s' = { s with published := s.published ++ [(topic, response)] }
  | e, r, s, s' =>
    (e.needsStore r → s.storeOpen) ∧ (e.needsBus r → s.connected) ∧
      e.Transition num now r s.db s'.db ∧ s' = { s with db := s'.db }

def world (num : Numerals) (ι : Type) : World Server ι Eff.Answer ℚ Outside
  | s, .task _ now x, s' => Transition num now x.1 x.2 s s'
  | s, .env now (.background x), s' => Transition num now (.store x.1.1) x.1.2 s s'
  | s, .env _ .disconnect, s' => s' = { s with connected := false }
  | s, .env _ .close, s' => s.connected = false ∧ s' = { s with storeOpen := false }

variable {num : Numerals} {now : ℚ} {s s' : Server}

theorem Transition.db {e : Eff} {r : e.Answer} (h : Transition num now e r s s') :
    e.Transition num now r s.db s'.db := by
  cases e with
  | emit nodeId response =>
      cases r with
      | error err => exact h.2.2.1
      | ok _ =>
          obtain ⟨_, topic, _, rfl⟩ := h
          rfl
  | _ => exact h.2.2.1

theorem Transition.published {e : Eff} {r : e.Answer} {x : String × Response}
    (h : Transition num now e r s s') (hx : x ∈ s.published) : x ∈ s'.published := by
  cases e with
  | emit nodeId response =>
      cases r with
      | error err =>
          rw [h.2.2.2]
          exact hx
      | ok _ =>
          obtain ⟨_, topic, _, rfl⟩ := h
          exact List.mem_append_left _ hx
  | _ =>
      rw [h.2.2.2]
      exact hx

variable {ι : Type} {ev : Event ι Eff.Answer ℚ Outside}

theorem world_published {x : String × Response} (h : world num ι s ev s')
    (hx : x ∈ s.published) : x ∈ s'.published := by
  cases ev with
  | task i now y => exact Transition.published h hx
  | env now a =>
      cases a with
      | background y =>
          have hstep : Transition num now (.store y.1.1) y.1.2 s s' := h
          exact hstep.published hx
      | disconnect =>
          rw [show s' = _ from h]
          exact hx
      | close =>
          rw [h.2]
          exact hx

end Server

namespace Calls

variable {ι : Type} {calls : Calls ι}

/-! ## What a change keeps -/

theorem Change.completed_row {db db' : Db} {ev : Happening ι} {k : RequestKey} {row : RequestRow}
    (h : calls.Change db db' ev) (hrow : db'.requests.find? k = some row)
    (hok : row.finalState = some .completedOk) :
    db.requests.find? k = some row ∨ ∃ i now response errorCode,
      ev = .task i now (calls.completion i .completedOk response errorCode) ∧ calls.key i = k ∧
        (db.requests.find? k).isSome ∧ row.responseJson = response := by
  cases h with
  | fresh i now hfree hrows hevents =>
      rw [hrows] at hrow
      split at hrow
      · cases hrow
        cases hok
      · exact .inl hrow
  | known i now _ hdb => exact .inl (hdb ▸ hrow)
  | logged i now state detail hrows hevents => exact .inl (hrows ▸ hrow)
  | completed i now finalState response errorCode hrows hevents =>
      rw [hrows] at hrow
      split at hrow
      · next hk =>
          obtain ⟨old, hold, rfl⟩ := Option.map_eq_some_iff.mp hrow
          cases hok
          exact .inr ⟨i, now, response, errorCode, rfl, hk.symm, by rw [hold]; rfl, rfl⟩
      · exact .inl hrow
  | purged now cutoff n hc hrows hevents =>
      rw [hrows] at hrow
      exact .inl (Option.filter_eq_some_iff.mp hrow).1
  | quiet _ hev hrows hevents => exact .inl (hrows ▸ hrow)

theorem Change.event_stays {db db' : Db} {ev : Happening ι} {event : EventRow}
    (h : calls.Change db db' ev)
    (hpurge : ∀ now cutoff n hc, ev = .env now ⟨⟨.purgeBefore cutoff, Except.ok n⟩, hc⟩ →
      ¬ event.orphaned cutoff db'.requests)
    (hmem : event ∈ db.requestEvents) : event ∈ db'.requestEvents := by
  cases h with
  | fresh i now hfree hrows hevents =>
      rw [hevents]
      exact List.mem_append_left _ hmem
  | known i now _ hdb => rwa [hdb]
  | logged i now state detail hrows hevents =>
      rw [hevents]
      exact List.mem_append_left _ hmem
  | completed i now finalState response errorCode hrows hevents => rwa [hevents]
  | purged now cutoff n hc hrows hevents =>
      rw [hevents, List.mem_filter]
      exact ⟨hmem, by simpa using hpurge now cutoff n hc rfl⟩
  | quiet _ hev hrows hevents => rwa [hevents]

theorem not_orphaned_of_row {t : Table RequestRow.key} {event : EventRow} {row : RequestRow}
    {cutoff : ℚ} (hrow : t.find? event.key = some row) : ¬ event.orphaned cutoff t := by
  obtain ⟨hmem, hkey⟩ := Table.find?_eq_some.mp hrow
  have hid : event.requestId ∈ t.rows.map RequestRow.id :=
    List.mem_map.mpr ⟨row, hmem, congrArg Prod.snd hkey⟩
  simp [EventRow.orphaned, hid]

theorem not_orphaned_of_le {t : Table RequestRow.key} {event : EventRow} {cutoff : ℚ}
    (h : cutoff ≤ event.ts) : ¬ event.orphaned cutoff t := by
  simp [EventRow.orphaned, not_lt.mpr h]

/-- A step of the server either changes its database as the calls do, or leaves
it as it is. -/
theorem change_of_world {s s' : Server} {ev : Event ι Eff.Answer ℚ Outside}
    (hproper : ∀ i now x, ev = .task i now x → Eff.OfCall (calls.request i) (calls.ttl i) x.1)
    (h : Server.world calls.num ι s ev s') :
    (∃ i now x, ev = .task i now x ∧ calls.Change s.db s'.db (.task i now x)) ∨
      (∃ now x, ev = .env now (.background x) ∧ calls.Change s.db s'.db (.env now x)) ∨
      s'.db = s.db := by
  cases ev with
  | task i now x =>
      exact .inl ⟨i, now, x, rfl, change_task (hproper i now x rfl) (Server.Transition.db h)⟩
  | env now a =>
      cases a with
      | background x =>
          have hstep : Server.Transition calls.num now (.store x.1.1) x.1.2 s s' := h
          exact .inr (.inl ⟨now, x, rfl, change_env hstep.db⟩)
      | disconnect => exact .inr (.inr (by rw [show s' = _ from h]))
      | close => exact .inr (.inr (by rw [h.2]))

end Calls

/-- The answer of the completed row of `k` went out, and its event is in the log. -/
def Shown (s : Server) (k : RequestKey) (row : RequestRow) : Prop :=
  ∃ response topic, row.responseJson = some response ∧ emitTopic k.1 response = .ok topic ∧
    (topic, response) ∈ s.published ∧
    ∃ event ∈ s.db.requestEvents, event.key = k ∧ event.state = .responsePublished

/-- The two steps of an answer: `emit`, and logging that it returned. -/
def Eff.answers : Eff → Bool
  | emit .. => true
  | store (.recordEvent _ _ .responsePublished _) => true
  | _ => false

namespace Calls

variable {ι : Type} [DecidableEq ι] {calls : Calls ι} {s₀ s : Server}
  {tr : List (Event ι Eff.Answer ℚ Outside)} {p : ι → Prog Unit}

/-- Some purge in `tr` had its cutoff after the time `t`. -/
def PurgedAfter (t : ℚ) (tr : List (Event ι Eff.Answer ℚ Outside)) : Prop :=
  ∃ now cutoff n hc, .env now (.background ⟨⟨.purgeBefore cutoff, Except.ok n⟩, hc⟩) ∈ tr ∧
    t < cutoff

/-- No call completes a row as ok after one of the two steps of its answer has
raised, or after a purge that reached its `response_published`. -/
def NoDroppedAnswer (calls : Calls ι) (s₀ : Server) (tr : List (Event ι Eff.Answer ℚ Outside)) :
    Prop :=
  ∀ pre i now response errorCode post s,
    tr = pre ++ .task i now (calls.completion i .completedOk response errorCode) :: post →
      Evolves (Server.world calls.num ι) s₀ pre s → (s.db.requests.find? (calls.key i)).isSome →
        (∀ x ∈ exchangesOf i pre, x.1.answers → x.1.raised? x.2 = none) ∧
        ∀ before t after, pre = before ++ .task i t (calls.logged i .responsePublished none) ::
          after →
          ¬ PurgedAfter t after

theorem NoDroppedAnswer.left {tr' : List (Event ι Eff.Answer ℚ Outside)}
    (h : calls.NoDroppedAnswer s₀ (tr ++ tr')) : calls.NoDroppedAnswer s₀ tr := by
  intro pre i now response errorCode post s htr
  exact h pre i now response errorCode (post ++ tr') s
    (by rw [htr, List.append_assoc, List.cons_append])

theorem world_proper (h : Run (Server.world calls.num ι) calls.pool s₀ tr p s) {i : ι} {now : ℚ}
    {x : Exchange Eff.Answer} (hx : .task i now x ∈ tr) :
    Eff.OfCall (calls.request i) (calls.ttl i) x.1 :=
  ((processRequest_only ..).steps (h.steps i)).1 x (mem_exchangesOf.mpr ⟨now, hx⟩)

theorem published_of_emit {i : ι} {nodeId : String} {response : Response}
    (h : Evolves (Server.world calls.num ι) s₀ tr s)
    (hemit : ⟨.emit nodeId response, Except.ok ()⟩ ∈ exchangesOf i tr) :
    ∃ topic, emitTopic nodeId response = .ok topic ∧ (topic, response) ∈ s.published := by
  obtain ⟨now, hmem⟩ := mem_exchangesOf.mp hemit
  obtain ⟨pre, post, rfl⟩ := List.append_of_mem hmem
  obtain ⟨m, _, hrest⟩ := Evolves.append_iff.mp h
  obtain ⟨m', hstep, hpost⟩ := Evolves.cons_iff.mp hrest
  obtain ⟨_, topic, htopic, rfl⟩ := hstep
  refine ⟨topic, htopic, ?_⟩
  exact hpost.invariant (fun s ↦ (topic, response) ∈ s.published)
    (fun _ _ _ _ hx hW ↦ Server.world_published hW hx) (by simp)

omit [DecidableEq ι] in
theorem event_of_logged {i : ι} {t : ℚ} {before after : List (Event ι Eff.Answer ℚ Outside)}
    (hproper : ∀ i now x, .task i now x ∈ after → Eff.OfCall (calls.request i) (calls.ttl i) x.1)
    (h : Evolves (Server.world calls.num ι) s₀
      (before ++ .task i t (calls.logged i .responsePublished none) :: after) s)
    (hpurge : ¬ PurgedAfter t after) :
    ⟨(calls.request i).id, (calls.request i).from_, .responsePublished, none, t⟩ ∈
      s.db.requestEvents := by
  obtain ⟨m, _, hrest⟩ := Evolves.append_iff.mp h
  obtain ⟨m', hstep, hafter⟩ := Evolves.cons_iff.mp hrest
  have hlogged : ⟨(calls.request i).id, (calls.request i).from_, .responsePublished, none, t⟩ ∈
      m'.db.requestEvents := by
    have hstep : Server.Transition calls.num t (.store (.recordEvent (calls.request i).id
      (calls.request i).from_ .responsePublished none)) (Except.ok ()) m m' := hstep
    have heq := Eq.trans (Eq.symm hstep.db) StoreCall.exec_recordEvent
    rw [(Prod.mk.inj (Except.ok.inj heq)).1]
    simp
  refine hafter.invariant (fun s ↦ _ ∈ s.db.requestEvents) (fun s ev s' hev hmem hW ↦ ?_) hlogged
  rcases change_of_world (fun i now x hx ↦ hproper i now x (hx ▸ hev)) hW with
    ⟨j, now, x, rfl, hchange⟩ | ⟨now, x, rfl, hchange⟩ | hsame
  · exact hchange.event_stays (fun _ _ _ _ heq ↦ by cases heq) hmem
  · refine hchange.event_stays (fun now' cutoff n hc heq ↦ ?_) hmem
    refine not_orphaned_of_le (not_lt.mp fun hlt ↦ hpurge ?_)
    cases heq
    exact ⟨now, cutoff, n, hc, hev, hlt⟩
  · rwa [hsame]

/-- A call that completes its row as ok, its answer not dropped, leaves the row
shown. -/
theorem shown_of_completion {i : ι} {now : ℚ} {response : Option Response}
    {errorCode : Option String} {row : RequestRow} {m : Server} {p' : ι → Prog Unit}
    (h : Run (Server.world calls.num ι) calls.pool s₀
      (tr ++ [.task i now (calls.completion i .completedOk response errorCode)]) p s)
    (hpast : Run (Server.world calls.num ι) calls.pool s₀ tr p' m)
    (hstep : Server.world calls.num ι m
      (.task i now (calls.completion i .completedOk response errorCode)) s)
    (hchange : calls.Change m.db s.db
      (.task i now (calls.completion i .completedOk response errorCode)))
    (hjson : row.responseJson = response)
    (hanswer : (∀ x ∈ exchangesOf i tr, x.1.answers → x.1.raised? x.2 = none) ∧
      ∀ before t after, tr = before ++ .task i t (calls.logged i .responsePublished none) :: after →
        ¬ PurgedAfter t after) : Shown s (calls.key i) row := by
  have hsteps := h.steps i
  rw [exchangesOf_append, exchangesOf_task_self] at hsteps
  obtain ⟨given, emitted, rfl, hemit, hlogged⟩ := completion_emitted hsteps
  have hemitted : emitted = .ok () := by
    cases emitted with
    | ok _ => rfl
    | error err => cases hanswer.1 _ hemit rfl
  subst hemitted
  obtain ⟨logged, hlogged⟩ := hlogged rfl
  have hreturned : logged = .ok () := by
    cases logged with
    | ok _ => rfl
    | error err => cases hanswer.1 _ hlogged rfl
  subst hreturned
  obtain ⟨t, hmem⟩ := mem_exchangesOf.mp hlogged
  obtain ⟨before, after, htr⟩ := List.append_of_mem hmem
  obtain ⟨topic, htopic, hpublished⟩ := published_of_emit hpast.evolves hemit
  have hproper (j : ι) (t' : ℚ) (x : Exchange Eff.Answer) (hx : .task j t' x ∈ after) :
      Eff.OfCall (calls.request j) (calls.ttl j) x.1 :=
    world_proper hpast (htr ▸ List.mem_append_right _ (List.mem_cons_of_mem _ hx))
  have hevent := event_of_logged hproper (htr ▸ hpast.evolves) (hanswer.2 before t after htr)
  exact ⟨given, topic, hjson, htopic, Server.world_published hstep hpublished, _,
    hchange.event_stays (fun _ _ _ _ heq ↦ by cases heq) hevent, rfl, rfl⟩

/-- In every run in which no dropped answer is completed as ok, every row that is
completed ok has its answer on the bus and its event in the log. -/
theorem completed_ok_shown (h : Run (Server.world calls.num ι) calls.pool s₀ tr p s)
    (h₀ : ∀ k row, s₀.db.requests.find? k = some row → row.finalState = some .completedOk →
      Shown s₀ k row)
    (hanswer : calls.NoDroppedAnswer s₀ tr) (k : RequestKey) (row : RequestRow)
    (hrow : s.db.requests.find? k = some row) (hok : row.finalState = some .completedOk) :
    Shown s k row := by
  induction tr using List.reverseRecOn generalizing p s row with
  | nil =>
      cases Evolves.nil_iff.mp h.evolves
      exact h₀ k row hrow hok
  | append_singleton tr ev ih =>
      obtain ⟨p', m, hpast, hstep⟩ := h.init
      have keep (hm : Shown m k row)
          (hevents : ∀ event ∈ m.db.requestEvents, event.key = k → event ∈ s.db.requestEvents) :
          Shown s k row := by
        obtain ⟨response, topic, hjson, htopic, hmem, event, hevent, hkey, hstate⟩ := hm
        exact ⟨response, topic, hjson, htopic, Server.world_published hstep hmem, event,
          hevents event hevent hkey, hkey, hstate⟩
      have hproper (i : ι) (now : ℚ) (x : Exchange Eff.Answer) (hx : ev = .task i now x) :
          Eff.OfCall (calls.request i) (calls.ttl i) x.1 :=
        world_proper h (List.mem_append_right _ (List.mem_singleton.mpr hx.symm))
      rcases change_of_world hproper hstep with
        ⟨i, now, x, rfl, hchange⟩ | ⟨now, x, rfl, hchange⟩ | hsame
      · rcases hchange.completed_row hrow hok with
          hbefore | ⟨j, t, response, errorCode, heq, hkey, hsome, hjson⟩
        · exact keep (ih hpast hanswer.left row hbefore hok) fun event hmem _ ↦
            hchange.event_stays (fun _ _ _ _ heq ↦ by cases heq) hmem
        · cases heq
          subst hkey
          exact shown_of_completion h hpast hstep hchange hjson
            (hanswer tr i now response errorCode [] m rfl hpast.evolves hsome)
      · rcases hchange.completed_row hrow hok with hbefore | ⟨_, _, _, _, heq, _⟩
        · refine keep (ih hpast hanswer.left row hbefore hok) fun event hmem hkey ↦
            hchange.event_stays (fun _ _ _ _ _ ↦ ?_) hmem
          exact not_orphaned_of_row (hkey ▸ hrow)
        · cases heq
      · rw [hsame] at hrow
        refine keep (ih hpast hanswer.left row hrow hok) fun event hmem _ ↦ ?_
        rwa [hsame]

end Calls

namespace Server

/-- What fails for want of an open store or a connected bus. -/
def fails (s : Server) : Eff → Option PyExc
  | .store _ => if s.storeOpen then none else some .programmingError
  | .publish .. => if s.connected then none else some .runtimeError
  | _ => none

/-- Answer an effect as the server stands. -/
def respond (num : Numerals) (now : ℚ) : (e : Eff) → Server → e.Answer × Server
  | .emit nodeId response, s =>
    match s.connected, emitTopic nodeId response with
    | true, .ok topic => (.ok (), { s with published := s.published ++ [(topic, response)] })
    | true, .error err => (.error err, s)
    | false, _ => (.error .runtimeError, s)
  | e, s =>
    match e.respond num now s.fails s.db with
    | (r, db) => (r, { s with db := db })

theorem respond_needs (num : Numerals) (now : ℚ) (e : Eff) (s : Server) (db : Db) :
    (e.needsStore (e.respond num now s.fails db).1 → s.storeOpen) ∧
      (e.needsBus (e.respond num now s.fails db).1 → s.connected) := by
  induction e with
  | store c =>
      refine ⟨fun h ↦ ?_, fun h ↦ by cases h⟩
      by_cases hopen : s.storeOpen
      · exact hopen
      · simp [Eff.respond, fails, hopen, Eff.needsStore] at h
  | publish topic payload retain =>
      refine ⟨(fun h ↦ by cases h), fun h ↦ ?_⟩
      by_cases hconnected : s.connected
      · exact hconnected
      · simp [Eff.respond, fails, hconnected, Eff.needsBus] at h
  | underTtl ttlS e ih => exact ih
  | afterTtl e ih => exact ih
  | _ => exact ⟨(fun h ↦ by cases h), (fun h ↦ by cases h)⟩

theorem respond_transition (num : Numerals) (now : ℚ) (e : Eff) (s : Server) :
    Transition num now e (respond num now e s).1 s (respond num now e s).2 := by
  have quiet {e : Eff} : (e.needsStore (e.respond num now s.fails s.db).1 → s.storeOpen) ∧
      (e.needsBus (e.respond num now s.fails s.db).1 → s.connected) ∧
      e.Transition num now (e.respond num now s.fails s.db).1 s.db
        (e.respond num now s.fails s.db).2 :=
    ⟨(respond_needs num now e s s.db).1, (respond_needs num now e s s.db).2,
      Eff.respond_transition num now s.fails e s.db⟩
  cases e with
  | emit nodeId response =>
      cases hconnected : s.connected with
      | false =>
          simp only [respond, hconnected]
          exact ⟨(fun h ↦ by cases h), (fun h ↦ by cases h), rfl, rfl⟩
      | true =>
          cases htopic : emitTopic nodeId response with
          | error err =>
              simp only [respond, hconnected, htopic]
              exact ⟨(fun h ↦ by cases h), (fun h ↦ by cases h), rfl, rfl⟩
          | ok topic =>
              simp only [respond, hconnected, htopic]
              exact ⟨hconnected, topic, htopic, by rw [hconnected]⟩
  | _ => exact ⟨quiet.1, quiet.2.1, quiet.2.2, rfl⟩

end Server

/-- The first ping of the pair takes `n` steps from the server `s`. -/
def pingSteps (n : ℕ) (p : Bool → Prog Unit) (s : Server) :
    List (Event Bool Eff.Answer ℚ Outside) × (Bool → Prog Unit) × Server :=
  play (fun _ now e s ↦ Server.respond .plain now e s) (List.replicate n (true, 1)) (p, s)

theorem pingSteps_run (n : ℕ) (p : Bool → Prog Unit) (s : Server) :
    Run (Server.world pair.num Bool) p s (pingSteps n p s).1 (pingSteps n p s).2.1
      (pingSteps n p s).2.2 :=
  play_run (fun _ now e s ↦ Server.respond_transition .plain now e s) rfl

def freshServer : Server := { db := Db.empty }

/-- A ping on a connected bus, from its start to its end. -/
def pingServed : List (Event Bool Eff.Answer ℚ Outside) × (Bool → Prog Unit) × Server :=
  pingSteps 10 pair.pool freshServer

/-- The row of a ping that was served has its answer on the bus. -/
theorem ping_shown : ∃ row, pingServed.2.2.db.requests.find? samplePing.key = some row ∧
    row.finalState = some .completedOk ∧ Shown pingServed.2.2 samplePing.key row := by
  have hfind : pingServed.2.2.db.requests.find? samplePing.key =
      some (pingServed.2.2.db.requests.rows.head (by decide)) := rfl
  have hquiet : pingServed.1.all (fun ev ↦ match ev with
      | .task _ _ x => (x.1.raised? x.2).isNone
      | .env _ _ => false) = true := rfl
  refine ⟨_, hfind, rfl, Calls.completed_ok_shown (pingSteps_run 10 pair.pool freshServer)
    (fun k row hrow _ ↦ by cases hrow) ?_ _ _ hfind rfl⟩
  intro pre i now response errorCode post s htr _ _
  have hpre {ev : Event Bool Eff.Answer ℚ Outside} (hev : ev ∈ pre) : ev ∈ pingServed.1 :=
    htr ▸ List.mem_append_left _ hev
  constructor
  · intro x hx _
    obtain ⟨t, hmem⟩ := mem_exchangesOf.mp hx
    have := List.all_eq_true.mp hquiet _ (hpre hmem)
    simpa using this
  · rintro before t after hsplit ⟨now', cutoff, n, hc, hmem, _⟩
    have := List.all_eq_true.mp hquiet _
      (hpre (hsplit ▸ List.mem_append_right _ (List.mem_cons_of_mem _ hmem)))
    cases this

/-- The bus is closed while the ping is in flight: the answer is dropped and the
row is completed ok. -/
theorem closed_bus_completes_ok :
    ¬ ∀ tr p s, Run (Server.world pair.num Bool) pair.pool freshServer tr p s →
      ∀ k row, s.db.requests.find? k = some row → row.finalState = some .completedOk →
        Shown s k row := by
  intro h
  let started := pingSteps 7 pair.pool freshServer
  let ended := pingSteps 2 started.2.1 { started.2.2 with connected := false }
  have hclosed : Run (Server.world pair.num Bool) started.2.1 started.2.2
      [.env 1 Outside.disconnect] started.2.1 { started.2.2 with connected := false } :=
    .env 1 Outside.disconnect .start rfl
  have hrun := ((pingSteps_run 7 pair.pool freshServer).append hclosed).append
    (pingSteps_run 2 started.2.1 { started.2.2 with connected := false })
  have hfind : ended.2.2.db.requests.find? samplePing.key =
      some (ended.2.2.db.requests.rows.head (by decide)) := rfl
  obtain ⟨response, topic, _, _, hmem, _⟩ := h _ _ _ hrun _ _ hfind rfl
  have hnone : ended.2.2.published = [] := rfl
  have hmem : (topic, response) ∈ ended.2.2.published := hmem
  rw [hnone] at hmem
  cases hmem

end MeshcoreRpc
