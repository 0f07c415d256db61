import MeshcoreRpc.Nodes.Newest
import MeshcoreRpc.Nodes.Readable

/-!
# When a node is online

`online` compares the clock with `last_seen`, the greatest time recorded for
the node.  It speaks of the messages of the node as long as no message carries
a time ahead of the clock.
-/

namespace MeshcoreRpc

open Tables Coroutine Coro Interleaving

section Marks

variable {num : Numerals} {now : ℚ} {db db' : Db}

theorem Eff.Serves.marked {e : Eff} {r : e.Answer} (h : e.Serves num now r db db') :
    db'.nodes = db.nodes ∨ ∃ nodeId ts a, e.marks? = some (nodeId, ts) ∧
      (StoreCall.markNodeSeen nodeId ts).exec num now db = .ok (db', a) := by
  induction e with
  | store c =>
      obtain ⟨a, _, hexec⟩ | ⟨rfl, _⟩ := h
      · have hsame := StoreCall.exec_same hexec
        cases c with
        | markNodeSeen nodeId ts => exact .inr ⟨nodeId, ts, a, rfl, hexec⟩
        | _ => exact .inl (hsame.nodes rfl)
      · exact .inl rfl
  | time =>
      obtain ⟨_, rfl⟩ := h
      exact .inl rfl
  | underTtl ttlS e ih =>
      cases r with
      | some r => exact ih h
      | none =>
          obtain rfl | ⟨r, hr⟩ := h
          · exact .inl rfl
          · exact ih hr
  | afterTtl e ih => exact ih h
  | _ =>
      cases h
      exact .inl rfl

theorem Eff.Serves.rises {e : Eff} {r : e.Answer} (h : e.Serves num now r db db') :
    db.Rises db' := by
  obtain hsame | ⟨nodeId, ts, a, _, hexec⟩ := h.marked
  · exact .of_eq hsame
  · exact rises_markNodeSeen hexec

theorem Eff.Serves.clock {e : Eff} {r : e.Answer} {t : ℚ} (h : e.Serves num now r db db')
    (ht : e.clock? r = some t) : t = now := by
  induction e with
  | time =>
      cases ht
      exact h.1
  | underTtl ttlS e ih =>
      cases r with
      | some r => exact ih h ht
      | none => cases ht
  | afterTtl e ih => exact ih h ht
  | _ => cases ht

/-- A row after a mark has the time it had, or the marked one. -/
theorem marked_cases {nodeId ts : PyVal} {a : Unit} {n : String} {row' : NodeRow}
    (hexec : (StoreCall.markNodeSeen nodeId ts).exec num now db = .ok (db', a))
    (hrow' : db'.nodes.find? n = some row') :
    (∃ row, db.nodes.find? n = some row ∧ row'.lastSeen = row.lastSeen) ∨
      nodeKey num nodeId = .ok (some n) ∧ bindReal num ts = .ok row'.lastSeen ∧
        row'.lastSeen ≠ .null := by
  obtain ⟨node, seen, hnode, hseen, hne, hrows⟩ := StoreCall.exec_markNodeSeen hexec
  rw [hrows] at hrow'
  by_cases hn : node = some n
  · rw [if_pos hn] at hrow'
    cases hrow'
    cases hfind : db.nodes.find? n with
    | none => exact .inr ⟨by rw [hnode, hn], hseen, hne⟩
    | some row =>
        obtain hold | hnew := SqlValue.max_eq_or (a := row.lastSeen) hne
        · exact .inl ⟨row, rfl, hold⟩
        · refine .inr ⟨by rw [hnode, hn], ?_, ?_⟩
          · rw [NodeRow.marked, Option.elim_some, hnew, hseen]
          · rw [NodeRow.marked, Option.elim_some, hnew]
            exact hne
  · rw [if_neg hn] at hrow'
    exact .inl ⟨row', hrow', rfl⟩

end Marks

/-! ## What `get_node_state` reports -/

section Reports

variable {num : Numerals} {t : ℚ} {db : Db} {node : String}
  {o : Except PyExc (Option (List (String × PyVal)))}

/-- `get_node_state` gives `o` at the time `t` in this database. -/
def Reports (num : Numerals) (t : ℚ) (db : Db) (node : String)
    (o : Except PyExc (Option (List (String × PyVal)))) : Prop :=
  ∃ tr db', Steps (StateAggregator.getNodeState (.str node)) tr (ofOutcome o) ∧
    Passes (fun s x s' ↦ x.1.Serves num t x.2 s s') db tr db'

def SaysOnline (o : Except PyExc (Option (List (String × PyVal)))) : Prop :=
  ∃ st, o = .ok (some st) ∧ getKey st "online" = .bool true

theorem Eff.Serves.read {c : StoreCall} {r : Except PyExc c.Answer} {db' : Db}
    (h : (Eff.store c).Serves num t r db db') (hc : c.reads = true) :
    db' = db ∧ r = (c.exec num t db).map Prod.snd := by
  refine ⟨?_, serves_read hc h⟩
  obtain ⟨a, _, hexec⟩ | ⟨rfl, _⟩ := h
  · exact StoreCall.exec_reads hc hexec
  · rfl

/-- What a report says of the `last_seen` it has read. -/
structure Judged (num : Numerals) (t : ℚ) (db : Db) (node : String)
    (o : Except PyExc (Option (List (String × PyVal)))) : Prop where
  told : ∀ q, db.syncGetLastSeen num (.str node) = .ok (some (.fin q)) → ∃ st, o = .ok (some st)
  online : ∀ st, o = .ok (some st) → ∃ q, db.syncGetLastSeen num (.str node) = .ok (some (.fin q)) ∧
    getKey st "online" = .bool (t - q < onlineThresholdS)

theorem Judged.untold (hseen : ∀ q, db.syncGetLastSeen num (.str node) ≠ .ok (some (.fin q)))
    (ho : ∀ st, o ≠ .ok (some st)) : Judged num t db node o where
  told q hq := absurd hq (hseen q)
  online st hst := absurd hst (ho st)

theorem reports_exists (num : Numerals) (t : ℚ) (db : Db) (node : String) :
    ∃ o, Reports num t db node o :=
  ⟨_, _, _, steps_exchanges _ db, passes_exchanges (fun e s _ ↦ respond_serves num t e s)
    meets_always⟩

theorem reports_judged (h : Reports num t db node o) : Judged num t db node o := by
  obtain ⟨tr, db', hsteps, hpasses⟩ := h
  refine alone_sound (I := fun _ ↦ True) (Q := fun o _ ↦ Judged num t db node o) ?_ hsteps hpasses
  simp only [StateAggregator.getNodeState, StateAggregator.getNodeLocation,
    StateAggregator.getNodeBattery, Prog.getRadio, Prog.time, Prog.store, alone_bind, alone_await,
    alone_ofOutcome]
  refine ⟨trivial, fun seen s₁ hW ↦ ?_⟩
  have hseen : seen = db.syncGetLastSeen num (.str node) := (hW.read rfl).2.trans (map_snd_mk _ _)
  obtain rfl := (hW.read rfl).1
  cases seen with
  | error err => exact .untold (by simp [← hseen]) (by simp)
  | ok seen =>
      cases seen with
      | none => exact .untold (by simp [← hseen]) (by simp)
      | some seen =>
          refine ⟨trivial, fun loc s₂ hW ↦ ?_⟩
          obtain rfl := (hW.read rfl).1
          have hloc : loc = s₂.syncGetNodeLocation num (.str node) :=
            (hW.read rfl).2.trans (map_snd_mk _ _)
          rw [Db.syncGetNodeLocation_str] at hloc
          subst hloc
          refine ⟨trivial, fun bat s₃ hW ↦ ?_⟩
          obtain rfl := (hW.read rfl).1
          have hbat : bat = s₃.syncGetNodeBattery num (.str node) :=
            (hW.read rfl).2.trans (map_snd_mk _ _)
          rw [Db.syncGetNodeBattery_str] at hbat
          subst hbat
          refine ⟨trivial, fun radio s₄ hW ↦ ?_⟩
          cases hW
          refine ⟨trivial, fun now s₅ hW ↦ ?_⟩
          obtain ⟨hnow, rfl⟩ := hW
          obtain rfl : now = t := hnow
          cases seen with
          | fin q =>
              refine ⟨fun _ _ ↦ ⟨_, rfl⟩, fun st hst ↦ ⟨q, hseen.symm, ?_⟩⟩
              cases hst
              rfl
          | nan => exact .untold (by simp [← hseen]) fun st hst ↦ by cases hst
          | inf negative => exact .untold (by simp [← hseen]) fun st hst ↦ by cases hst

end Reports

/-! ## Along a run -/

section Runs

variable {ι : Type} [DecidableEq ι] {service : Service ι} {s₀ s : Db} {t : ℚ} {node : String}
  {tr : List (Event ι Eff.Answer ℚ Empty)} {p : ι → Prog (Option Response)}
  {o : Except PyExc (Option (List (String × PyVal)))}

/-- At this moment of the run the node is marked, in handling a message from or about it. -/
def Service.SeenAt (service : Service ι) (tr : List (Event ι Eff.Answer ℚ Empty)) (node : String)
    (now : ℚ) : Prop :=
  ∃ past i x rest nodeId ts, tr = past ++ .task i now x :: rest ∧
    x.1.marks? = some (nodeId, ts) ∧ nodeKey service.num nodeId = .ok (some node) ∧
    (service.job i).Handles service.num service.loads x.1 (exchangesOf i past) nodeId

/-- The column refuses the value, or takes it as a time that is not ahead of the clock. -/
def BehindClock (num : Numerals) (now : ℚ) (ts : PyVal) : Prop :=
  ∀ v, bindReal num ts = .ok v → v = .null ∨ v = .realInf true ∨ ∃ q, v = .real q ∧ q ≤ now

/-- No carried time that a mark of the run records is ahead of the clock. -/
def Service.MarksBehind (service : Service ι) (tr : List (Event ι Eff.Answer ℚ Empty)) : Prop :=
  ∀ i now x nodeId ts n, .task i now x ∈ tr → x.1.marks? = some (nodeId, ts) →
    nodeKey service.num nodeId = .ok (some n) →
      (service.job i).Carries service.num service.loads nodeId ts → BehindClock service.num now ts

/-- Every `last_seen` lies behind a mark of its node. -/
def Service.SeenBehind (service : Service ι) (tr : List (Event ι Eff.Answer ℚ Empty)) (db : Db) :
    Prop :=
  ∀ n row, db.nodes.find? n = some row → row.lastSeen = .realInf true ∨
    ∃ q now, row.lastSeen = .real q ∧ q ≤ now ∧ service.SeenAt tr n now

theorem Service.SeenAt.append {now : ℚ} (h : service.SeenAt tr node now)
    (more : List (Event ι Eff.Answer ℚ Empty)) : service.SeenAt (tr ++ more) node now := by
  obtain ⟨past, i, x, rest, nodeId, ts, rfl, hmark⟩ := h
  exact ⟨past, i, x, rest ++ more, nodeId, ts, by simp, hmark⟩

theorem Service.SeenBehind.snoc {ev : Event ι Eff.Answer ℚ Empty} (h : service.SeenBehind tr s₀)
    (hrow : ∀ n row, s.nodes.find? n = some row → (∃ row', s₀.nodes.find? n = some row' ∧
      row.lastSeen = row'.lastSeen) ∨ row.lastSeen = .realInf true ∨
        ∃ q now, row.lastSeen = .real q ∧ q ≤ now ∧ service.SeenAt (tr ++ [ev]) n now) :
    service.SeenBehind (tr ++ [ev]) s := by
  intro n row hfind
  obtain ⟨row', hfind', hsame⟩ | hnew := hrow n row hfind
  · rw [hsame]
    obtain hinf | ⟨q, now, hq, hle, hseen⟩ := h n row' hfind'
    · exact .inl hinf
    · exact .inr ⟨q, now, hq, hle, hseen.append [ev]⟩
  · exact hnew

/-- The clock readings of a task lie before its next event. -/
theorem clocked_before {i : ι} {now : ℚ} {x : Exchange Eff.Answer}
    (h : Evolves (Served service.num ι) s₀ (tr ++ [.task i now x]) s)
    (hclock : Ascends (tr ++ [.task i now x])) :
    ∀ y ∈ exchangesOf i tr, Clocked (· ≤ now) y := by
  intro y hy u hu
  obtain ⟨now', hmem⟩ := mem_exchangesOf.mp hy
  obtain ⟨m, m', hserves⟩ := h.acted (List.mem_append_left _ hmem)
  obtain rfl : u = now' := Eff.Serves.clock hserves hu
  exact hclock.le_last _ hmem

theorem seenBehind_run (hfresh : ∀ n, s₀.nodes.find? n = none) (hclock : Ascends tr)
    (hbehind : service.MarksBehind tr)
    (h : Run (Served service.num ι) service.pool s₀ tr p s) : service.SeenBehind tr s := by
  induction tr using List.reverseRecOn generalizing p s with
  | nil =>
      obtain rfl := Evolves.nil_iff.mp h.evolves
      intro n row hrow
      rw [hfresh] at hrow
      cases hrow
  | append_singleton tr ev ih =>
      obtain ⟨p', s', hpast, hev⟩ := h.init
      have hpast := ih hclock.left (fun i now x nodeId ts n hmem ↦
        hbehind i now x nodeId ts n (List.mem_append_left _ hmem)) hpast
      cases ev with
      | env now a => exact a.elim
      | task i now x =>
          refine hpast.snoc fun n row hrow ↦ ?_
          obtain hsame | ⟨nodeId, ts, a, hmarks, hexec⟩ := Eff.Serves.marked hev
          · rw [hsame] at hrow
            exact .inl ⟨row, hrow, rfl⟩
          obtain hold | ⟨hnode, hseen, hne⟩ := marked_cases hexec hrow
          · exact .inl hold
          right
          have hmem : .task i now x ∈ tr ++ [.task i now x] := by simp
          have hstamps := Service.stamps_event h (clocked_before h.evolves hclock)
          obtain ⟨_, htime⟩ := hstamps nodeId ts (Eff.stamps_of_marks hmarks)
          have hat : service.SeenAt (tr ++ [.task i now x]) n now :=
            ⟨tr, i, x, [], nodeId, ts, rfl, hmarks, hnode,
              Service.handles_event h (Eff.stamps_of_marks hmarks)⟩
          obtain hcarried | ⟨u, hu, rfl⟩ := htime
          · obtain hnull | hinf | ⟨q, hq, hle⟩ :=
              hbehind i now x nodeId ts n hmem hmarks hnode hcarried _ hseen
            · exact absurd hnull hne
            · exact .inl hinf
            · exact .inr ⟨q, now, hq, hle, hat⟩
          · exact .inr ⟨u, now, (Except.ok.inj hseen).symm, hu, hat⟩

theorem Service.SeenBehind.not_null {row : NodeRow} (h : service.SeenBehind tr s)
    (hrow : s.nodes.find? node = some row) : row.lastSeen ≠ .null := by
  obtain hinf | ⟨q, now, hq, _⟩ := h node row hrow
  · simp [hinf]
  · simp [hq]

/-- A mark leaves at least its own time, unless the row held no time. -/
theorem marked_reached {num : Numerals} {now q : ℚ} {db db' : Db} {a : Unit}
    (hexec : (StoreCall.markNodeSeen (.str node) (.float (.fin q))).exec num now db = .ok (db', a))
    (hnull : ∀ row, db.nodes.find? node = some row → row.lastSeen ≠ .null) :
    ∃ row, db'.nodes.find? node = some row ∧ (SqlValue.real q).rank ≤ row.lastSeen.rank := by
  obtain ⟨key, seen, hkey, hseen, hne, hrows⟩ := StoreCall.exec_markNodeSeen hexec
  obtain rfl : key = some node := (Except.ok.inj hkey).symm
  obtain rfl : seen = .real q := (Except.ok.inj hseen).symm
  refine ⟨_, (hrows node).trans (if_pos rfl), ?_⟩
  cases hfind : db.nodes.find? node with
  | none => exact le_rfl
  | some old =>
      rw [NodeRow.marked, Option.elim_some]
      exact SqlValue.le_rank_max (hnull old hfind) hne

theorem marked_stays {i : ι} {now q : ℚ} (hfresh : ∀ n, s₀.nodes.find? n = none)
    (hclock : Ascends tr) (hbehind : service.MarksBehind tr)
    (h : Run (Served service.num ι) service.pool s₀ tr p s)
    (hmem : .task i now ⟨.store (.markNodeSeen (.str node) (.float (.fin q))), Except.ok ()⟩ ∈ tr) :
    ∃ row, s.nodes.find? node = some row ∧ (SqlValue.real q).rank ≤ row.lastSeen.rank := by
  induction tr using List.reverseRecOn generalizing p s with
  | nil => cases hmem
  | append_singleton tr ev ih =>
      obtain ⟨p', s', hpast, hev⟩ := h.init
      have hbehind' : service.MarksBehind tr := fun i now x nodeId ts n hmem ↦
        hbehind i now x nodeId ts n (List.mem_append_left _ hmem)
      rcases List.mem_append.mp hmem with hmem | hmem
      · obtain ⟨row, hrow, hle⟩ := ih hclock.left hbehind' hpast hmem
        cases ev with
        | env now a => exact a.elim
        | task j now x =>
            obtain ⟨row', hrow', hle'⟩ := Eff.Serves.rises hev node row hrow
            exact ⟨row', hrow', hle.trans hle'⟩
      · obtain rfl := List.mem_singleton.mp hmem
        obtain ⟨_, _, hexec⟩ | ⟨_, _, hfalse, _⟩ := hev
        · exact marked_reached hexec fun row hrow ↦
            (seenBehind_run hfresh hclock.left hbehind' hpast).not_null hrow
        · cases hfalse

theorem lastSeen_of_real {num : Numerals} {row : NodeRow} {q : ℚ}
    (hrow : s.nodes.find? node = some row) (hq : row.lastSeen = .real q) :
    s.syncGetLastSeen num (.str node) = .ok (some (.fin q)) := by
  rw [Db.syncGetLastSeen_str, hrow, Option.elim_some, hq]
  rfl

/-- While no message carries a time ahead of the clock, a node reported online has been
heard of in the last 300 seconds, and one whose request was accepted in the last 300
seconds is reported online. -/
theorem online_seen (hfresh : ∀ n, s₀.nodes.find? n = none) (hclock : Ascends tr)
    (hbehind : service.MarksBehind tr)
    (h : Run (Served service.num ι) service.pool s₀ tr p s) (ht : ∀ ev ∈ tr, ev.now ≤ t)
    (hreports : Reports service.num t s node o) :
    (SaysOnline o → ∃ now, service.SeenAt tr node now ∧ t - onlineThresholdS < now ∧ now ≤ t) ∧
      ∀ i now request q, service.job i = .request request → request.from_ = node →
        .task i now ⟨.store (.markNodeSeen (.str request.from_) (.float (.fin q))), Except.ok ()⟩ ∈
          tr → t - q < onlineThresholdS → SaysOnline o := by
  have hseen := seenBehind_run hfresh hclock hbehind h
  have hjudged := reports_judged hreports
  constructor
  · rintro ⟨st, rfl, honline⟩
    obtain ⟨q, hlast, hflag⟩ := hjudged.online st rfl
    rw [honline] at hflag
    have hlt : t - q < onlineThresholdS := by simpa using hflag
    rw [Db.syncGetLastSeen_str] at hlast
    cases hfind : s.nodes.find? node with
    | none =>
        rw [hfind] at hlast
        cases hlast
    | some row =>
        rw [hfind, Option.elim_some] at hlast
        obtain hinf | ⟨q', now, hq, hle, hat⟩ := hseen node row hfind
        · rw [hinf] at hlast
          cases hlast
        · rw [hq] at hlast
          cases hlast
          refine ⟨now, hat, by linarith, ?_⟩
          obtain ⟨past, i, x, rest, _, _, rfl, _⟩ := hat
          exact ht (.task i now x) (by simp)
  · rintro i now request q _ rfl hmem hlt
    obtain ⟨row, hrow, hle⟩ := marked_stays hfresh hclock hbehind h hmem
    obtain hinf | ⟨q', _, hq, _⟩ := hseen _ row hrow
    · rw [hinf] at hle
      exact absurd hle (not_le.mpr (SqlValue.minusInf_lt (by simp) (by simp)))
    · rw [hq] at hle
      have hle : q ≤ q' := real_le_real.mp hle
      have hlast : s.syncGetLastSeen service.num (.str request.from_) = .ok (some (.fin q')) :=
        lastSeen_of_real hrow hq
      obtain ⟨st, rfl⟩ := hjudged.told q' hlast
      obtain ⟨q'', hlast', hflag⟩ := hjudged.online st rfl
      rw [hlast] at hlast'
      cases hlast'
      refine ⟨st, rfl, hflag.trans ?_⟩
      have hlt : t - q' < onlineThresholdS := by linarith
      simp [hlt]

end Runs

/-! ## A ping, and an event from the future -/

/-- One ping and nothing else. -/
def pingService : Service Unit where
  num := .plain
  geo := noGeo
  loads _ := .error .jsonDecodeError
  policy := {}
  days := 30
  job _ := .request samplePing

/-- The ping is processed at the time 10. -/
def pingRun : List (Event Unit Eff.Answer ℚ Empty) × (Unit → Prog (Option Response)) × Db :=
  play (fun _ now e db ↦ e.respond .plain now (fun _ ↦ none) db) (List.replicate 12 ((), 10))
    (pingService.pool, Db.empty)

theorem pingRun_run : Run (Served .plain Unit) pingService.pool Db.empty pingRun.1 pingRun.2.1
    pingRun.2.2 :=
  run_of_played rfl fun _ now e db ↦ respond_serves .plain now e db

/-- The moments of a run that takes place at one time. -/
theorem now_of_replicate {ι : Type} {tr : List (Event ι Eff.Answer ℚ Empty)}
    {schedule : List (ι × ℚ)}
    {now : ℚ} (h : (tr.map Event.now).Sublist (schedule.map Prod.snd))
    (hnow : ∀ move ∈ schedule, move.2 = now) : ∀ ev ∈ tr, ev.now = now := by
  intro ev hev
  obtain ⟨move, hmove, heq⟩ := List.mem_map.mp (h.subset (List.mem_map_of_mem hev))
  rw [← heq, hnow move hmove]

theorem ascends_of_now {ι : Type} {tr : List (Event ι Eff.Answer ℚ Empty)} {now : ℚ}
    (h : ∀ ev ∈ tr, ev.now = now) : Ascends tr := by
  refine List.pairwise_iff_forall_sublist.mpr fun {ev ev'} hsub ↦ ?_
  rw [h ev (hsub.subset (by simp)), h ev' (hsub.subset (by simp))]

theorem pingRun_now : ∀ ev ∈ pingRun.1, ev.now = 10 :=
  now_of_replicate (now_play _ _ _ _) (by simp)

theorem ping_online :
    ∃ o, Reports pingService.num 100 pingRun.2.2 "node-a" o ∧ SaysOnline o := by
  obtain ⟨o, hreports⟩ := reports_exists pingService.num 100 pingRun.2.2 "node-a"
  have hbehind : pingService.MarksBehind pingRun.1 := by
    intro i now x nodeId ts n _ _ _ hcarries
    cases hcarries with
    | request hrequest => exact absurd hrequest.1 (by decide)
  have hpast : ∀ ev ∈ pingRun.1, ev.now ≤ 100 := by
    intro ev hev
    rw [pingRun_now ev hev]
    norm_num
  have hmark : .task () 10 ⟨.store (.markNodeSeen (.str "node-a") (.float (.fin 10))),
      Except.ok ()⟩ ∈ pingRun.1 := List.mem_of_getElem? (i := 3) rfl
  have hwindow : (100 : ℚ) - 10 < onlineThresholdS := by norm_num [onlineThresholdS]
  exact ⟨o, hreports, (online_seen (fun _ ↦ rfl) (ascends_of_now pingRun_now) hbehind pingRun_run
    hpast hreports).2 () 10 samplePing 10 rfl rfl hmark hwindow⟩

theorem telemetryRun_now (ts : PyVal) : ∀ ev ∈ (telemetryRun ts).1, ev.now = 10 :=
  now_of_replicate (now_play _ _ _ _) (by simp)

/-- Long after an event with a time ahead of the clock its node is still online. -/
theorem future_online : ∃ service : Service Bool, ∃ tr p s t o,
    Run (Served service.num Bool) service.pool Db.empty tr p s ∧ Ascends tr ∧
      (∀ ev ∈ tr, ev.now ≤ t) ∧ Reports service.num t s "node-a" o ∧ SaysOnline o ∧
        ∀ now, service.SeenAt tr "node-a" now → now ≤ t - onlineThresholdS := by
  have hnow := telemetryRun_now (.float (.fin 2000))
  obtain ⟨o, hreports⟩ :=
    reports_exists .plain 1000 (telemetryRun (.float (.fin 2000))).2.2 "node-a"
  refine ⟨telemetryService (.float (.fin 2000)), _, _, _, 1000, o, telemetryRun_run _,
    ascends_of_now hnow, fun ev hev ↦ ?_, hreports, ?_, ?_⟩
  · rw [hnow ev hev]
    norm_num
  · have hjudged := reports_judged hreports
    have hseen : (telemetryRun (.float (.fin 2000))).2.2.syncGetLastSeen .plain (.str "node-a") =
        .ok (some (.fin 2000)) := by decide +kernel
    obtain ⟨st, rfl⟩ := hjudged.told 2000 hseen
    obtain ⟨q, hlast, hflag⟩ := hjudged.online st rfl
    rw [hseen] at hlast
    cases hlast
    refine ⟨st, rfl, hflag.trans ?_⟩
    norm_num [onlineThresholdS]
  · rintro now ⟨past, i, x, rest, _, _, htr, _⟩
    have hat : now = 10 := hnow (.task i now x) (by simp [htr])
    rw [hat]
    norm_num [onlineThresholdS]

end MeshcoreRpc
