import MeshcoreRpc.Nodes.Stamps
import MeshcoreRpc.Nodes.Views

/-!
# Rows that can be read

A `REAL` column takes a text that is no number and an infinity, and both stay
under `MAX`; what reads them back raises.
-/

namespace MeshcoreRpc

open Tables Coroutine Coro Interleaving

/-- What an answered effect does to the database at the time `now`.  A write may fail
for reasons of its own; a read raises what the method raises. -/
def Eff.Serves (num : Numerals) (now : ℚ) : (e : Eff) → e.Answer → Db → Db → Prop
  | .store c, r, db, db' => (∃ a, r = .ok a ∧ c.exec num now db = .ok (db', a)) ∨
      db' = db ∧ ∃ err, r = .error err ∧ (c.reads = true → c.exec num now db = .error err)
  | .time, t, db, db' => t = now ∧ db' = db
  | .underTtl _ e, some r, db, db' => e.Serves num now r db db'
  | .underTtl _ e, none, db, db' => db' = db ∨ ∃ r, e.Serves num now r db db'
  | .afterTtl e, r, db, db' => e.Serves num now r db db'
  | _, _, db, db' => db' = db

/-- The database under the tasks of the service and nothing else. -/
def Served (num : Numerals) (ι : Type) : World Db ι Eff.Answer ℚ Empty
  | db, .task _ now x, db' => x.1.Serves num now x.2 db db'
  | _, .env _ a, _ => a.elim

def Db.Timely (db : Db) : Prop :=
  (∀ n row, db.nodes.find? n = some row → ∃ q, row.lastSeen = .real q) ∧
    ∀ n row, db.nodeLocations.find? n = some row → ∃ q, row.ts = .real q

/-- The column refuses the value, or takes it as a finite number. -/
def FiniteTime (num : Numerals) (ts : PyVal) : Prop :=
  ∀ v, bindReal num ts = .ok v → v = .null ∨ ∃ q, v = .real q

theorem finiteTime_fin (num : Numerals) (q : ℚ) : FiniteTime num (.float (.fin q)) := by
  intro v hv
  cases hv
  exact .inr ⟨q, rfl⟩

/-- Recording the time spoils no row: it is finite, or the negative infinity for a node
that has been seen. -/
def Spares (num : Numerals) (db : Db) (e : Eff) (nodeId ts : PyVal) : Prop :=
  ∀ n, nodeKey num nodeId = .ok (some n) → FiniteTime num ts ∨
    e.marks? ≠ none ∧ bindReal num ts = .ok (.realInf true) ∧ db.nodes.find? n ≠ none

section Steps

variable {num : Numerals} {now : ℚ} {db db' : Db}

theorem Db.Timely.congr (h : db.Timely) (hnodes : db'.nodes = db.nodes)
    (hlocations : db'.nodeLocations = db.nodeLocations) : db'.Timely := by
  rw [Db.Timely, hnodes, hlocations]
  exact h

theorem marked_finite {node : String} {old : Option NodeRow} {seen : SqlValue}
    (hold : ∀ row, old = some row → ∃ q, row.lastSeen = .real q)
    (hseen : (∃ q, seen = .real q) ∨ seen = .realInf true ∧ old ≠ none) :
    ∃ q, (NodeRow.marked node seen old).lastSeen = .real q := by
  cases old with
  | none =>
      obtain hseen | ⟨_, hne⟩ := hseen
      · exact hseen
      · exact absurd rfl hne
  | some row =>
      obtain ⟨q, hq⟩ := hold row rfl
      rw [NodeRow.marked, Option.elim_some, hq]
      obtain ⟨q', rfl⟩ | ⟨rfl, _⟩ := hseen
      · exact ⟨max q q', SqlValue.max_real q q'⟩
      · exact ⟨q, rfl⟩

theorem Db.Timely.marked {nodeId ts : PyVal} {a : Unit} (h : db.Timely)
    (hexec : (StoreCall.markNodeSeen nodeId ts).exec num now db = .ok (db', a))
    (hts : Spares num db (.store (.markNodeSeen nodeId ts)) nodeId ts) : db'.Timely := by
  obtain ⟨node, seen, hnode, hseen, hne, hrows⟩ := StoreCall.exec_markNodeSeen hexec
  refine ⟨fun n row hrow ↦ ?_, ?_⟩
  · rw [hrows] at hrow
    by_cases hn : node = some n
    · rw [if_pos hn] at hrow
      cases hrow
      refine marked_finite (h.1 n) ?_
      obtain hfinite | ⟨_, hinf, hknown⟩ := hts n (by rw [hnode, hn])
      · obtain hnull | hreal := hfinite seen hseen
        · exact absurd hnull hne
        · exact .inl hreal
      · rw [hinf] at hseen
        cases hseen
        exact .inr ⟨rfl, hknown⟩
    · rw [if_neg hn] at hrow
      exact h.1 n row hrow
  · have hsame := (StoreCall.exec_same hexec).nodeLocations rfl
    rw [hsame]
    exact h.2

theorem Db.Timely.located {nodeId : PyVal} {fix : LocationFix} {source : Option String}
    {rssi : Option ℤ} {snr : Option PyFloat} {a : Unit} (h : db.Timely)
    (hexec : (StoreCall.upsertNodeLocation nodeId fix source rssi snr).exec num now db =
      .ok (db', a))
    (hts : Spares num db (.store (.upsertNodeLocation nodeId fix source rssi snr)) nodeId
      (.float fix.ts)) : db'.Timely := by
  refine ⟨?_, ?_⟩
  · have hsame := (StoreCall.exec_same hexec).nodes rfl
    rw [hsame]
    exact h.1
  · obtain ⟨n, hn⟩ := StoreCall.atomically_execute hexec
    obtain ⟨key, hkey, hn⟩ := except_bind_ok hn
    iterate 7 obtain ⟨_, _, hn⟩ := except_bind_ok hn
    obtain ⟨ts, htime, hn⟩ := except_bind_ok hn
    iterate 3 obtain ⟨_, _, hn⟩ := except_bind_ok hn
    obtain ⟨bound, hbound, hnull⟩ := except_bind_ok htime
    obtain ⟨rfl, hne⟩ := notNull_ok hnull
    cases key with
    | none =>
        cases hn
        exact h.2
    | some s =>
        obtain hfinite | ⟨hmarks, _⟩ := hts s hkey
        swap
        · exact absurd rfl hmarks
        obtain hnone | ⟨q, rfl⟩ := hfinite _ hbound
        · exact absurd hnone hne
        cases hn
        intro k row hrow
        simp only [upsertUnder, Table.find?_upsert] at hrow
        split at hrow
        · cases hfind : db.nodeLocations.find? k with
          | none =>
              rw [hfind] at hrow
              cases hrow
              exact ⟨q, rfl⟩
          | some old =>
              rw [hfind] at hrow
              cases hrow
              exact ⟨q, rfl⟩
        · exact h.2 k row hrow

theorem Db.Timely.exec {c : StoreCall} {a : c.Answer} (h : db.Timely)
    (hexec : c.exec num now db = .ok (db', a))
    (hts : ∀ nodeId ts, (Eff.store c).stamps? = some (nodeId, ts) →
      Spares num db (.store c) nodeId ts) :
    db'.Timely := by
  have hsame := StoreCall.exec_same hexec
  cases c with
  | markNodeSeen nodeId ts => exact h.marked hexec (hts _ _ rfl)
  | upsertNodeLocation nodeId fix source rssi snr => exact h.located hexec (hts _ _ rfl)
  | _ => exact h.congr (hsame.nodes rfl) (hsame.nodeLocations rfl)

theorem Db.Timely.serves {e : Eff} {r : e.Answer} (h : db.Timely)
    (hts : ∀ nodeId ts, e.stamps? = some (nodeId, ts) → Spares num db e nodeId ts)
    (hserves : e.Serves num now r db db') : db'.Timely := by
  induction e with
  | store c =>
      obtain ⟨a, _, hexec⟩ | ⟨rfl, _⟩ := hserves
      · exact h.exec hexec hts
      · exact h
  | time =>
      obtain ⟨_, rfl⟩ := hserves
      exact h
  | underTtl ttlS e ih =>
      cases r with
      | some r => exact ih hts hserves
      | none =>
          obtain rfl | ⟨r, hr⟩ := hserves
          · exact h
          · exact ih hts hr
  | afterTtl e ih => exact ih hts hserves
  | _ =>
      cases hserves
      exact h

end Steps

/-! ## What reads the rows -/

/-- What a read about a node finds in timely rows. -/
def ReadsWell : Exchange Eff.Answer → Prop
  | ⟨.store (.getLastSeen (.str _)), r⟩ => r = .ok none ∨ ∃ q, r = .ok (some (.fin q))
  | ⟨.store (.getNodeLocation (.str _)), r⟩ =>
    r = .ok none ∨ ∃ loc q, r = .ok (some loc) ∧ getKey loc "ts" = .float (.fin q)
  | ⟨.store (.getNodeBattery (.str _)), r⟩ => ∃ bat, r = .ok bat
  | _ => True

section Reads

variable {num : Numerals} {now : ℚ} {db db' : Db}

theorem serves_read {c : StoreCall} {r : Except PyExc c.Answer} (hc : c.reads = true)
    (h : (Eff.store c).Serves num now r db db') : r = (c.exec num now db).map Prod.snd := by
  obtain ⟨a, rfl, hexec⟩ | ⟨_, err, rfl, hexec⟩ := h
  · rw [hexec]
    rfl
  · rw [hexec hc]
    rfl

theorem Db.Timely.lastSeen (h : db.Timely) (node : String) :
    db.syncGetLastSeen num (.str node) = .ok none ∨
      ∃ q, db.syncGetLastSeen num (.str node) = .ok (some (.fin q)) := by
  rw [Db.syncGetLastSeen_str]
  cases hfind : db.nodes.find? node with
  | none => exact .inl rfl
  | some row =>
      obtain ⟨q, hq⟩ := h.1 node row hfind
      refine .inr ⟨q, ?_⟩
      rw [Option.elim_some, hq]
      rfl

theorem Db.Timely.readsWell {e : Eff} {r : e.Answer} (h : db.Timely)
    (hserves : e.Serves num now r db db') : ReadsWell ⟨e, r⟩ := by
  unfold ReadsWell
  split
  · rename_i node r' heq
    cases heq
    have hr := (serves_read rfl hserves).trans (map_snd_mk _ _)
    rw [hr]
    exact h.lastSeen node
  · rename_i node r' heq
    cases heq
    have hr := (serves_read rfl hserves).trans (map_snd_mk _ _)
    rw [hr, Db.syncGetNodeLocation_str]
    cases hfind : db.nodeLocations.find? node with
    | none => exact .inl rfl
    | some row =>
        obtain ⟨q, hq⟩ := h.2 node row hfind
        refine .inr ⟨_, q, rfl, ?_⟩
        change row.ts.toPython = _
        rw [hq]
        rfl
  · rename_i node r' heq
    cases heq
    have hr := (serves_read rfl hserves).trans (map_snd_mk _ _)
    rw [hr, Db.syncGetNodeBattery_str]
    exact ⟨_, rfl⟩
  · trivial

end Reads

def Answered {α : Type} (o : Except PyExc α) : Prop :=
  (∃ a, o = .ok a) ∨ ∃ code message, o = .error (.rpcError code message)

/-- When its reads find timely rows, the coroutine answers. -/
def Answers {α : Type} (x : Prog α) : Prop :=
  x.alone (fun _ y _ ↦ ReadsWell y) (fun _ ↦ True) () fun o _ ↦ Answered o

theorem Answers.steps {α : Type} {x : Prog α} {tr : Trace} {o : Except PyExc α} (h : Answers x)
    (hsteps : Steps x tr (ofOutcome o)) (hreads : ∀ y ∈ tr, ReadsWell y) : Answered o := by
  have hpasses : Passes (fun _ y _ ↦ ReadsWell y) () tr () := by
    clear hsteps
    induction tr with
    | nil => exact .nil ()
    | cons y tr ih =>
        obtain ⟨hhere, hrest⟩ := List.forall_mem_cons.mp hreads
        exact .cons hhere (ih hrest)
  exact alone_sound h hsteps hpasses

section Handlers

open Handlers

variable {request : Request}

theorem nodeLastSeen_answered : Answers (nodeLastSeen request) := by
  unfold Answers
  simp only [nodeLastSeen, Prog.store, Prog.time, alone_bind, alone_await, alone_ofOutcome]
  refine ⟨trivial, fun seen _ hseen ↦ ?_⟩
  obtain rfl | ⟨q, rfl⟩ := hseen
  · exact .inl ⟨_, rfl⟩
  · refine ⟨trivial, fun now _ _ ↦ ?_⟩
    exact .inl ⟨_, rfl⟩

theorem getNodeState_answered (node : String) :
    Answers (StateAggregator.getNodeState (.str node)) := by
  unfold Answers
  simp only [StateAggregator.getNodeState, StateAggregator.getNodeLocation,
    StateAggregator.getNodeBattery, Prog.getRadio, Prog.time, Prog.store, alone_bind, alone_await,
    alone_ofOutcome]
  refine ⟨trivial, fun seen _ hseen ↦ ?_⟩
  obtain rfl | ⟨q, rfl⟩ := hseen
  · exact .inl ⟨_, rfl⟩
  · refine ⟨trivial, fun loc _ hloc ↦ ?_⟩
    have hloc : ∃ loc', loc = .ok loc' := by
      obtain rfl | ⟨loc', _, rfl, _⟩ := hloc
      · exact ⟨_, rfl⟩
      · exact ⟨_, rfl⟩
    obtain ⟨loc, rfl⟩ := hloc
    refine ⟨trivial, fun bat _ hbat ↦ ?_⟩
    obtain ⟨bat, rfl⟩ := hbat
    refine ⟨trivial, fun radio _ _ ↦ ⟨trivial, fun now _ _ ↦ ?_⟩⟩
    exact .inl ⟨_, rfl⟩

theorem nodeStatus_answered : Answers (nodeStatus request) := by
  unfold Answers nodeStatus
  rw [alone_bind]
  refine alone_mono (getNodeState_answered _) (fun _ h ↦ h) fun o _ ho ↦ ?_
  obtain ⟨st, rfl⟩ | ⟨code, message, rfl⟩ := ho
  · cases st with
    | none => exact .inr ⟨_, _, rfl⟩
    | some st => exact .inl ⟨_, rfl⟩
  · exact .inr ⟨_, _, rfl⟩

theorem nodeLocation_answered : Answers (nodeLocation request) := by
  unfold Answers
  simp only [nodeLocation, StateAggregator.getNodeLocation, Prog.store, Prog.time, alone_bind,
    alone_await, alone_ofOutcome]
  refine ⟨trivial, fun loc _ hloc ↦ ?_⟩
  obtain rfl | ⟨loc, q, rfl, hts⟩ := hloc
  · exact .inr ⟨_, _, rfl⟩
  · refine ⟨trivial, fun now _ _ ↦ ?_⟩
    rw [hts]
    exact .inl ⟨_, rfl⟩

end Handlers

/-! ## The running service -/

section Runs

variable {ι : Type} [DecidableEq ι] {service : Service ι} {s₀ s : Db}
  {tr : List (Event ι Eff.Answer ℚ Empty)} {p : ι → Prog (Option Response)}

/-- Every carried time that a step of the run records spares the rows it finds. -/
def Service.SparesRows (service : Service ι) (s₀ : Db) (tr : List (Event ι Eff.Answer ℚ Empty)) :
    Prop :=
  ∀ tr' i now x p s, tr' ++ [.task i now x] <+: tr →
    Run (Served service.num ι) service.pool s₀ tr' p s →
      ∀ nodeId ts, x.1.stamps? = some (nodeId, ts) →
        (service.job i).Carries service.num service.loads nodeId ts →
          Spares service.num s x.1 nodeId ts

theorem Service.SparesRows.left {tr' : List (Event ι Eff.Answer ℚ Empty)}
    (h : service.SparesRows s₀ (tr ++ tr')) : service.SparesRows s₀ tr := by
  intro tr₁ i now x p s hle
  exact h tr₁ i now x p s (hle.trans (List.prefix_append ..))

theorem timely_run (hspares : service.SparesRows s₀ tr) (h₀ : s₀.Timely)
    (h : Run (Served service.num ι) service.pool s₀ tr p s) : s.Timely := by
  induction tr using List.reverseRecOn generalizing p s with
  | nil =>
      obtain rfl := Evolves.nil_iff.mp h.evolves
      exact h₀
  | append_singleton tr ev ih =>
      obtain ⟨p', s', hpast, hev⟩ := h.init
      cases ev with
      | env now a => exact a.elim
      | task i now x =>
          have hstamps := Service.stamps_event (B := fun _ ↦ True) h fun y _ t _ ↦ trivial
          refine (ih hspares.left hpast).serves (fun nodeId ts hx ↦ ?_) hev
          obtain ⟨_, hcarried | ⟨t, _, rfl⟩⟩ := hstamps nodeId ts hx
          · exact hspares tr i now x p' s' List.prefix_rfl hpast nodeId ts hx hcarried
          · exact fun _ _ ↦ .inl (finiteTime_fin _ t)

/-- Every exchange of a run reads timely rows. -/
theorem reads_run (hspares : service.SparesRows s₀ tr) (h₀ : s₀.Timely)
    (h : Run (Served service.num ι) service.pool s₀ tr p s) (i : ι) :
    ∀ y ∈ exchangesOf i tr, ReadsWell y := by
  induction tr using List.reverseRecOn generalizing p s with
  | nil => simp
  | append_singleton tr ev ih =>
      obtain ⟨p', s', hpast, hev⟩ := h.init
      intro y hy
      rw [exchangesOf_append] at hy
      rcases List.mem_append.mp hy with hy | hy
      · exact ih hspares.left hpast y hy
      · obtain ⟨now, hmem⟩ := mem_exchangesOf.mp hy
        obtain rfl := List.mem_singleton.mp hmem
        exact (timely_run hspares.left h₀ hpast).readsWell hev

/-- The requests that read the rows of a node. -/
def asksAboutNode (request : Request) : Prop :=
  request.type = "node.last_seen" ∨ request.type = "node.status" ∨ request.type = "node.location"

theorem resolve_asks {num : Numerals} {geo : Geo} {request : Request} (h : asksAboutNode request) :
    ∃ handler, (Handlers.defaultRouter num geo).resolve request.type = some handler ∧
      Answers (handler.handle request) := by
  obtain htype | htype | htype := h
  · exact ⟨_, by rw [htype]; rfl, nodeLastSeen_answered⟩
  · exact ⟨_, by rw [htype]; rfl, nodeStatus_answered⟩
  · exact ⟨_, by rw [htype]; rfl, nodeLocation_answered⟩

/-- While no message leaves an infinite or unreadable time, every recorded time is a
finite number and every question about a node is answered. -/
theorem times_readable (hspares : service.SparesRows s₀ tr) (h₀ : s₀.Timely)
    (h : Run (Served service.num ι) service.pool s₀ tr p s) :
    (∀ n row, s.nodes.find? n = some row → ∃ q, row.lastSeen = .real q) ∧
      ∀ i request o, service.job i = .ask request → asksAboutNode request →
        p i = ofOutcome o → Answered o := by
  refine ⟨(timely_run hspares h₀ h).1, fun i request o hjob hasks hdone ↦ ?_⟩
  have hsteps := h.steps i
  obtain ⟨handler, hhandler, hanswers⟩ := @resolve_asks service.num service.geo _ hasks
  rw [hdone, Service.pool_ask hjob hhandler] at hsteps
  refine Answers.steps ?_ hsteps (reads_run hspares h₀ h i)
  unfold Answers
  rw [alone_bind]
  refine alone_mono hanswers (fun _ h ↦ h) fun o _ ho ↦ ?_
  obtain ⟨response, rfl⟩ | ⟨code, message, rfl⟩ := ho
  · exact .inl ⟨_, rfl⟩
  · exact .inr ⟨_, _, rfl⟩

end Runs

/-! ## A telemetry event and a question -/

theorem respond_serves (num : Numerals) (now : ℚ) (e : Eff) (db : Db) :
    e.Serves num now (e.respond num now (fun _ ↦ none) db).1 db
      (e.respond num now (fun _ ↦ none) db).2 := by
  induction e with
  | store c =>
      simp only [Eff.respond]
      cases hexec : c.exec num now db with
      | error err => exact .inr ⟨rfl, err, rfl, fun _ ↦ hexec⟩
      | ok out => exact .inl ⟨_, rfl, hexec⟩
  | time => exact ⟨rfl, rfl⟩
  | underTtl ttlS e ih => exact ih
  | afterTtl e ih => exact ih
  | _ => rfl

theorem length_lastSeen : FieldLength "node.last_seen" := by decide

def lastSeenRequest : Request :=
  .simple "r1" "node.last_seen" "node-a" length_r1 length_lastSeen length_nodeA

/-- One telemetry event with the time `ts`, and a question about its node. -/
def telemetryService (ts : PyVal) : Service Bool where
  num := .plain
  geo := noGeo
  loads _ := .ok (.dict [("pubkey", .str "node-a"), ("ts", ts)])
  policy := {}
  days := 30
  job i := if i then .ask lastSeenRequest else .consume [⟨Transport.telemetryTopic, []⟩]

/-- The event is handled, then the question. -/
def telemetryRun (ts : PyVal) :
    List (Event Bool Eff.Answer ℚ Empty) × (Bool → Prog (Option Response)) × Db :=
  play (fun _ now e db ↦ e.respond .plain now (fun _ ↦ none) db)
    (List.replicate 7 (false, 10) ++ List.replicate 2 (true, 10))
    ((telemetryService ts).pool, Db.empty)

theorem telemetryRun_run (ts : PyVal) : Run (Served .plain Bool) (telemetryService ts).pool Db.empty
    (telemetryRun ts).1 (telemetryRun ts).2.1 (telemetryRun ts).2.2 :=
  run_of_played rfl fun _ now e db ↦ respond_serves .plain now e db

theorem telemetry_spares {ts : PyVal} (h : FiniteTime .plain ts)
    {tr : List (Event Bool Eff.Answer ℚ Empty)} :
    (telemetryService ts).SparesRows Db.empty tr := by
  intro tr' i now x p s _ _ nodeId ts' _ hcarries
  refine fun _ _ ↦ .inl ?_
  cases i with
  | false =>
      cases hcarries with
      | message hmem hmsg =>
          obtain ⟨kvs, hevent, _, _, rfl⟩ := hmsg
          cases hevent.json
          exact h
  | true =>
      cases hcarries with
      | ask hrequest => exact absurd hrequest.1 (by decide)

theorem timely_empty : Db.empty.Timely := by
  constructor
  · intro n row h
    cases h
  · intro n row h
    cases h

/-- After an event at the time 5 the question is answered. -/
theorem telemetry_answered :
    ∃ o, (telemetryRun (.float (.fin 5))).2.1 true = ofOutcome o ∧ Answered o := by
  obtain ⟨o, hdone, _⟩ :
      ∃ o, (telemetryRun (.float (.fin 5))).2.1 true = ofOutcome o ∧ true = true :=
    exists_outcome (P := fun _ ↦ true) (by decide +kernel)
  exact ⟨o, hdone, (times_readable (telemetry_spares (finiteTime_fin .plain 5)) timely_empty
    (telemetryRun_run _)).2 true lastSeenRequest o rfl (.inl rfl) hdone⟩

def unforeseen {α : Type} : Except PyExc α → Bool
  | .ok _ => false
  | .error (.rpcError ..) => false
  | .error _ => true

theorem not_answered {α : Type} {o : Except PyExc α} (h : unforeseen o = true) : ¬ Answered o := by
  rintro (⟨_, rfl⟩ | ⟨_, _, rfl⟩)
  · cases h
  · cases h

/-- After an event whose time is a word the question raises. -/
theorem word_unanswered : ∃ service : Service Bool, ∃ tr p s o,
    Run (Served service.num Bool) service.pool Db.empty tr p s ∧
      service.job true = .ask lastSeenRequest ∧ p true = ofOutcome o ∧ ¬ Answered o := by
  obtain ⟨o, hdone, hraised⟩ : ∃ o, (telemetryRun (.str "later")).2.1 true = ofOutcome o ∧
      unforeseen o = true := exists_outcome (by decide +kernel)
  exact ⟨telemetryService (.str "later"), _, _, _, o, telemetryRun_run _, rfl, hdone,
    not_answered hraised⟩

end MeshcoreRpc
