import MeshcoreRpc.Core.Calls
import MeshcoreRpc.Handlers

/-!
# Concurrent calls

Any number of calls of `process_request` interleaved at their awaits over one
database, among background store calls.  `Change` lists what one event can do
to the lifecycle tables; everything about whole runs is proved from it.
-/

namespace MeshcoreRpc

open Tables Coroutine Coro Interleaving

/-- The call `i` processes `request i`. -/
structure Calls (ι : Type) where
  num : Numerals
  policy : TimeoutPolicy
  router : Router
  request : ι → Request

abbrev Happening (ι : Type) := Event ι Eff.Answer ℚ Background

/-- The exchanges that write the lifecycle tables or report on them. -/
def records : Exchange Eff.Answer → Bool
  | ⟨.store (.recordReceived ..), Except.ok _⟩ => true
  | ⟨.store (.recordEvent ..), Except.ok _⟩ => true
  | ⟨.store (.recordCompletion ..), Except.ok _⟩ => true
  | _ => false

namespace Calls

variable {ι : Type} (calls : Calls ι)

def ttl (i : ι) : ℤ := calls.policy.resolve (calls.request i).type (calls.request i).ttl

abbrev key (i : ι) : RequestKey := (calls.request i).key

def pool (i : ι) : Prog Unit := processRequest calls.policy calls.router (calls.request i)

abbrev received (i : ι) (fresh : Bool) : Exchange Eff.Answer :=
  ⟨.store (.recordReceived (calls.request i) (calls.ttl i)), Except.ok fresh⟩

abbrev logged (i : ι) (state : EventState) (detail : Option String) : Exchange Eff.Answer :=
  ⟨.store (.recordEvent (calls.request i).id (calls.request i).from_ state detail),
    Except.ok ()⟩

abbrev completion (i : ι) (finalState : FinalState) (response : Option Response)
    (errorCode : Option String) : Exchange Eff.Answer :=
  ⟨.store (.recordCompletion (calls.request i).id (calls.request i).from_ finalState response
    errorCode), Except.ok ()⟩

/-- What the event `ev` can do to the lifecycle tables. -/
inductive Change (db db' : Db) : Happening ι → Prop
  | fresh (i : ι) (now : ℚ) (hfree : db.requests.find? (calls.key i) = none)
      (hrows : ∀ k, db'.requests.find? k = if k = calls.key i then
        some (StoreCall.receivedRow now (calls.request i) (calls.ttl i))
        else db.requests.find? k)
      (hevents : db'.requestEvents = db.requestEvents ++
        [⟨(calls.request i).id, (calls.request i).from_, .received, none, now⟩]) :
      Change db db' (.task i now (calls.received i true))
  | known (i : ι) (now : ℚ) (hrow : (db.requests.find? (calls.key i)).isSome) (hdb : db' = db) :
      Change db db' (.task i now (calls.received i false))
  | logged (i : ι) (now : ℚ) (state : EventState) (detail : Option String)
      (hrows : db'.requests = db.requests)
      (hevents : db'.requestEvents = db.requestEvents ++
        [⟨(calls.request i).id, (calls.request i).from_, state, detail, now⟩]) :
      Change db db' (.task i now (calls.logged i state detail))
  | completed (i : ι) (now : ℚ) (finalState : FinalState) (response : Option Response)
      (errorCode : Option String)
      (hrows : ∀ k, db'.requests.find? k = if k = calls.key i then
        (db.requests.find? k).map (RequestRow.complete now finalState errorCode response)
        else db.requests.find? k)
      (hevents : db'.requestEvents = db.requestEvents) :
      Change db db' (.task i now (calls.completion i finalState response errorCode))
  | purged (now cutoff : ℚ) (n : ℕ) (h : _)
      (hrows : ∀ k, db'.requests.find? k =
        (db.requests.find? k).filter fun row ↦ !row.expired cutoff)
      (hevents : db'.requestEvents =
        db.requestEvents.filter fun row ↦ !row.orphaned cutoff db'.requests) :
      Change db db' (.env now ⟨⟨.purgeBefore cutoff, Except.ok n⟩, h⟩)
  | quiet (ev : Happening ι) (hev : ∀ i now x, ev = .task i now x → records x = false)
      (hrows : db'.requests = db.requests) (hevents : db'.requestEvents = db.requestEvents) :
      Change db db' ev

variable {calls}

theorem change_task {i : ι} {now : ℚ} {x : Exchange Eff.Answer} {db db' : Db}
    (hcall : Eff.OfCall (calls.request i) (calls.ttl i) x.1)
    (h : Performs calls.num ι db (.task i now x) db') : calls.Change db db' (.task i now x) := by
  have same (hx : records x = false) (hdb : db' = db) : calls.Change db db' (.task i now x) := by
    refine .quiet _ (fun j t y hy ↦ ?_) (by rw [hdb]) (by rw [hdb])
    cases hy
    exact hx
  obtain ⟨e, r⟩ := x
  cases hcall with
  | time => exact same rfl h.2
  | received =>
      cases r with
      | error err => exact same rfl h
      | ok fresh =>
          rcases StoreCall.exec_recordReceived h with ⟨rfl, hfree, hrows, hevents⟩ |
            ⟨rfl, hrow, hdb⟩
          · exact .fresh i now hfree hrows hevents
          · exact .known i now hrow hdb
  | event state detail =>
      cases r with
      | error err => exact same rfl h
      | ok _ =>
          have hexec := Eq.trans (Eq.symm h) StoreCall.exec_recordEvent
          cases hexec
          exact .logged i now state detail rfl rfl
  | seen ts =>
      cases r with
      | error err => exact same rfl h
      | ok _ =>
          obtain ⟨hrows, hevents⟩ := StoreCall.exec_frame rfl h
          refine .quiet _ (fun j t y hy ↦ ?_) hrows hevents
          cases hy
          rfl
  | completion finalState response errorCode =>
      cases r with
      | error err => exact same rfl h
      | ok _ =>
          have hexec := Eq.trans (Eq.symm h) StoreCall.exec_recordCompletion
          cases hexec
          exact .completed i now finalState response errorCode
            (Table.find?_modify (f := RequestRow.complete now finalState errorCode response)
              fun _ ↦ rfl) rfl
  | emit response => exact same rfl h
  | inc => exact same rfl h
  | dec => exact same rfl h
  | handler e he =>
      cases r with
      | none => exact same rfl h
      | some r =>
          obtain ⟨hrows, hevents⟩ := Eff.Transition.frame he h
          refine .quiet _ (fun j t y hy ↦ ?_) hrows hevents
          cases hy
          rfl
  | unwinding e he =>
      obtain ⟨hrows, hevents⟩ := Eff.Transition.frame he h
      refine .quiet _ (fun j t y hy ↦ ?_) hrows hevents
      cases hy
      rfl

theorem change_env {now : ℚ} {x : Background} {db db' : Db}
    (h : Performs calls.num ι db (.env now x) db') : calls.Change db db' (.env now x) := by
  have quiet (hrows : db'.requests = db.requests)
      (hevents : db'.requestEvents = db.requestEvents) : calls.Change db db' (.env now x) := by
    refine .quiet _ (fun j t y hy ↦ ?_) hrows hevents
    cases hy
  obtain ⟨⟨c, r⟩, hc⟩ := x
  cases r with
  | error err =>
      cases h
      exact quiet rfl rfl
  | ok a =>
      rcases id hc with hquiet | ⟨cutoff, hcutoff⟩
      · obtain ⟨hrows, hevents⟩ := StoreCall.exec_frame hquiet h
        exact quiet hrows hevents
      · subst hcutoff
        have hexec := Eq.trans (Eq.symm h) StoreCall.exec_purgeBefore
        cases hexec
        exact .purged now cutoff _ _ (fun k ↦ Table.find?_deleteWhere k) rfl

/-- Every event of the list is about its own call. -/
def Proper (calls : Calls ι) (tr : List (Happening ι)) : Prop :=
  ∀ i now x, .task i now x ∈ tr → Eff.OfCall (calls.request i) (calls.ttl i) x.1

theorem Proper.left {tr tr' : List (Happening ι)} (h : calls.Proper (tr ++ tr')) :
    calls.Proper tr := fun i now x hx ↦ h i now x (List.mem_append_left _ hx)

theorem Proper.right {tr tr' : List (Happening ι)} (h : calls.Proper (tr ++ tr')) :
    calls.Proper tr' := fun i now x hx ↦ h i now x (List.mem_append_right _ hx)

theorem Proper.tail {ev : Happening ι} {tr : List (Happening ι)} (h : calls.Proper (ev :: tr)) :
    calls.Proper tr := fun i now x hx ↦ h i now x (List.mem_cons_of_mem _ hx)

/-- What one step of the world can do, once its event is proper. -/
theorem change_of_performs {tr : List (Happening ι)} {ev : Happening ι} {db db' : Db}
    (hproper : calls.Proper (tr ++ [ev])) (h : Performs calls.num ι db ev db') :
    calls.Change db db' ev := by
  cases ev with
  | task i now x => exact change_task (hproper i now x (by simp)) h
  | env now x => exact change_env h

theorem run_proper [DecidableEq ι] {db₀ db : Db} {tr : List (Happening ι)} {p : ι → Prog Unit}
    (h : Run (Performs calls.num ι) calls.pool db₀ tr p db) : calls.Proper tr := by
  intro i now x hx
  have honly := (processRequest_only calls.policy calls.router (calls.request i)).steps (h.steps i)
  exact honly.1 x (mem_exchangesOf.mpr ⟨now, hx⟩)

/-! ## Playing calls -/

section Play

variable [DecidableEq ι]

/-- The calls taking turns as scheduled, with the failures of `fails`. -/
def played (calls : Calls ι) (fails : ι → Eff → Option PyExc) (db₀ : Db)
    (schedule : List (ι × ℚ)) : List (Happening ι) × (ι → Prog Unit) × Db :=
  play (fun i now e db ↦ Eff.respond calls.num now (fails i) e db) schedule (calls.pool, db₀)

theorem played_run (calls : Calls ι) (fails : ι → Eff → Option PyExc) (db₀ : Db)
    (schedule : List (ι × ℚ)) :
    Run (Performs calls.num ι) calls.pool db₀ (calls.played fails db₀ schedule).1
      (calls.played fails db₀ schedule).2.1 (calls.played fails db₀ schedule).2.2 :=
  play_run (fun i now e db ↦ Eff.respond_transition calls.num now (fails i) e db) rfl

theorem env_not_mem_played (calls : Calls ι) (fails : ι → Eff → Option PyExc) (db₀ : Db)
    (schedule : List (ι × ℚ)) (now : ℚ) (x : Background) :
    .env now x ∉ (calls.played fails db₀ schedule).1 :=
  env_not_mem_play _ schedule calls.pool db₀ now x

end Play

end Calls

/-- Two pings with one key. -/
def pair : Calls Bool where
  num := .plain
  policy := {}
  router := Handlers.defaultRouter .plain
    ⟨fun _ _ _ _ ↦ .ok (.fin 0), fun _ _ _ _ ↦ .ok (.fin 0)⟩
  request _ := samplePing

/-- The first ping runs to its end, then the second takes `n` steps. -/
def pairRun (n : ℕ) : List (Happening Bool) × (Bool → Prog Unit) × Db :=
  pair.played (fun _ _ ↦ none) Db.empty (List.replicate 10 (true, 1) ++ List.replicate n (false, 2))

theorem pairRun_run (n : ℕ) : Run (Performs pair.num Bool) pair.pool Db.empty (pairRun n).1
    (pairRun n).2.1 (pairRun n).2.2 :=
  pair.played_run ..

theorem env_not_mem_pairRun (n : ℕ) (now : ℚ) (x : Background) : .env now x ∉ (pairRun n).1 :=
  pair.env_not_mem_played _ _ _ now x

end MeshcoreRpc
