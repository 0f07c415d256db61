import MeshcoreRpc.Core.Lifecycle

/-!
# The counters of `gateway.status`

The handler counts rows of `requests` by their final state.  In a run of calls
with distinct keys the rows are the recorded requests, so the counters are
compared with what has become of the calls.
-/

namespace MeshcoreRpc

open Tables Coroutine Coro Interleaving

/-! ## The answer -/

/-- `response` is an answer of `gateway.status` computed in the state `db`. -/
def StatusAnswer (num : Numerals) (db : Db) (response : Response) : Prop :=
  ∃ request tr, Steps (Handlers.gatewayStatus request) tr (ofOutcome (.ok response)) ∧
    ∀ x ∈ tr, ∃ now, x.1.Transition num now x.2 db db

namespace Db

variable (db : Db)

/-- The rows with the final state, `none` for the pending ones. -/
def inState (state : Option FinalState) : ℕ :=
  db.requests.rows.countP fun row ↦ decide (row.finalState = state)

theorem syncCountPending_eq : db.syncCountPending = db.inState none := by
  rw [syncCountPending, inState]
  congr 1
  funext row
  cases row.finalState <;> rfl

/-- A state that no row has is missing from the dict. -/
theorem lookup_countByFinalState (state : FinalState) :
    db.syncCountByFinalState.lookup state.text =
      if db.inState (some state) = 0 then none else some (db.inState (some state)) := by
  have hne : FinalState.completedOk.text ≠ FinalState.completedError.text := by decide
  unfold syncCountByFinalState inState
  cases herr : db.requests.rows.countP fun row ↦
      decide (row.finalState = some FinalState.completedError) with
  | zero =>
      cases hok : db.requests.rows.countP fun row ↦
          decide (row.finalState = some FinalState.completedOk) with
      | zero => cases state <;> simp [herr, hok]
      | succ n =>
          cases state <;> simp [herr, hok, List.lookup_cons, beq_eq_false_iff_ne.mpr hne.symm]
  | succ m =>
      cases hok : db.requests.rows.countP fun row ↦
          decide (row.finalState = some FinalState.completedOk) with
      | zero => cases state <;> simp [herr, hok, List.lookup_cons, beq_eq_false_iff_ne.mpr hne]
      | succ n => cases state <;> simp [herr, hok, List.lookup_cons, beq_eq_false_iff_ne.mpr hne]

theorem lookup_countByFinalState_ne {k : String} (h : ∀ state : FinalState, k ≠ state.text) :
    db.syncCountByFinalState.lookup k = none := by
  refine List.lookup_eq_none_iff.mpr fun kn hkn ↦ bne_iff_ne.mpr ?_
  obtain ⟨state, _, hsome⟩ := List.mem_filterMap.mp hkn
  have hkey : kn.1 = state.text := by
    revert hsome
    cases db.requests.rows.countP fun row ↦ decide (row.finalState = some state) with
    | zero => simp
    | succ n =>
        rintro ⟨⟩
        rfl
  rw [hkey]
  exact h state

/-- What `Store.counts` returns. -/
abbrev countsOf : List (String × PyVal) :=
  db.syncCountByFinalState.map (fun kn ↦ (kn.1, .int kn.2)) ++
    [("pending", .int db.syncCountPending)]

theorem lookup_countsOf (k : String) :
    db.countsOf.lookup k = ((db.syncCountByFinalState.lookup k).map fun n ↦ .int n).or
      ([("pending", PyVal.int db.syncCountPending)].lookup k) := by
  rw [countsOf, List.lookup_append]
  congr 1
  induction db.syncCountByFinalState with
  | nil => rfl
  | cons kn rest ih =>
      rw [List.map_cons, List.lookup_cons, List.lookup_cons]
      by_cases hk : k == kn.1
      · simp [hk]
      · simpa [hk] using ih

theorem count_pending : Handlers.count db.countsOf "pending" = .int (db.inState none) := by
  have hne (state : FinalState) : "pending" ≠ state.text := by cases state <;> decide
  rw [Handlers.count, lookup_countsOf, lookup_countByFinalState_ne db hne, syncCountPending_eq]
  rfl

theorem count_finalState (state : FinalState) :
    Handlers.count db.countsOf state.text = .int (db.inState (some state)) := by
  have hne : (state.text == "pending") = false := by cases state <;> decide
  rw [Handlers.count, lookup_countsOf, lookup_countByFinalState]
  by_cases hzero : db.inState (some state) = 0
  · simp [hzero, List.lookup_cons, hne]
  · simp [hzero]

theorem count_timeout : Handlers.count db.countsOf EventState.timeout.text = .int 0 := by
  have hne (state : FinalState) : EventState.timeout.text ≠ state.text := by
    cases state <;> decide
  rw [Handlers.count, lookup_countsOf, lookup_countByFinalState_ne db hne]
  rfl

end Db

/-- An answer is made of what the two counting calls returned. -/
theorem gatewayStatus_spec (request : Request) :
    (Handlers.gatewayStatus request).wp fun tr o ↦ ∀ response, o = .ok response →
      ∃ (byState : List (String × ℕ)) (pending : ℕ) (state detail since age : PyVal)
        (cs : List (String × PyVal)),
        (⟨.store .countByFinalState, Except.ok byState⟩ : Exchange Eff.Answer) ∈ tr ∧
        (⟨.store .countPending, Except.ok pending⟩ : Exchange Eff.Answer) ∈ tr ∧
        cs = byState.map (fun kn ↦ (kn.1, .int kn.2)) ++ [("pending", .int pending)] ∧
        response.body = some [("state", state), ("detail", detail), ("since", since),
          ("snap_age_s", age), ("pending", Handlers.count cs "pending"),
          ("ok", Handlers.count cs FinalState.completedOk.text),
          ("err", Handlers.count cs FinalState.completedError.text),
          ("to", Handlers.count cs EventState.timeout.text)] := by
  simp only [Handlers.gatewayStatus, Handlers.counts, wp_bind, Prog.getGatewaySnapshot, Prog.store,
    wp_await, wp_ret, wp_ofOutcome, wp_pure]
  intro snap byState
  cases byState with
  | error err => simp
  | ok byState =>
      simp only
      intro pending
      cases pending with
      | error err => simp
      | ok pending =>
          simp only
          refine wp_mono (Coro.wp_iff.mpr fun tr o hsteps ↦ hsteps) fun tr o _ ↦ ?_
          cases o with
          | error err => simp
          | ok age =>
              rintro response ⟨⟩
              exact ⟨byState, pending, _, _, _, age, _, by simp, by simp, rfl, rfl⟩

/-- The counters of an answer are read off the final states in the table. -/
structure ReadsCounters (db : Db) (body : List (String × PyVal)) : Prop where
  pending : body.lookup "pending" = some (.int (db.inState none))
  ok : body.lookup "ok" = some (.int (db.inState (some .completedOk)))
  err : body.lookup "err" = some (.int (db.inState (some .completedError)))
  to_ : body.lookup "to" = some (.int 0)

theorem StatusAnswer.readsCounters {num : Numerals} {db : Db} {response : Response}
    (h : StatusAnswer num db response) :
    ∃ body, response.body = some body ∧ ReadsCounters db body := by
  obtain ⟨request, tr, hsteps, hreads⟩ := h
  obtain ⟨byState, pending, state, detail, since, age, cs, hstate, hpending, hcs, hbody⟩ :=
    wp_iff.mp (gatewayStatus_spec request) tr _ hsteps response rfl
  have hbyState : byState = db.syncCountByFinalState := by
    obtain ⟨now, hread⟩ := hreads _ hstate
    cases hread
    rfl
  have hcount : pending = db.syncCountPending := by
    obtain ⟨now, hread⟩ := hreads _ hpending
    cases hread
    rfl
  have hcounts : cs = db.countsOf := by rw [hcs, hbyState, hcount]
  subst hcounts
  refine ⟨_, hbody, ?_, ?_, ?_, ?_⟩
  · exact congrArg some db.count_pending
  · exact congrArg some (db.count_finalState .completedOk)
  · exact congrArg some (db.count_finalState .completedError)
  · exact congrArg some db.count_timeout

theorem exists_statusAnswer (num : Numerals) (db : Db) :
    ∃ response, StatusAnswer num db response := by
  refine ⟨_, samplePing, [⟨.getGatewaySnapshot, {}⟩,
    ⟨.store .countByFinalState, Except.ok db.syncCountByFinalState⟩,
    ⟨.store .countPending, Except.ok db.syncCountPending⟩],
    .answer _ _ _ (.answer _ _ _ (.answer _ _ _ (.refl _))), ?_⟩
  intro x hx
  simp only [List.mem_cons, List.not_mem_nil, or_false] at hx
  rcases hx with rfl | rfl | rfl
  · exact ⟨0, rfl⟩
  · exact ⟨0, rfl⟩
  · exact ⟨0, rfl⟩

/-! ## What has become of the calls -/

namespace Calls

variable {ι : Type} {calls : Calls ι} {db₀ db : Db} {tr : List (Happening ι)}

/-- The request of the call `i` has been recorded. -/
def Recorded (calls : Calls ι) (tr : List (Happening ι)) (i : ι) : Prop :=
  ∃ t, .task i t (calls.received i true) ∈ tr

/-- The recorded request has ended with the final state and the response. -/
def Ended (calls : Calls ι) (tr : List (Happening ι)) (i : ι) (finalState : FinalState)
    (response : Response) : Prop :=
  calls.Recorded tr i ∧
    ∃ t errorCode, .task i t (calls.completion i finalState (some response) errorCode) ∈ tr

/-- It has ended with a response of the status. -/
def EndedWith (calls : Calls ι) (tr : List (Happening ι)) (status : Status) (i : ι) : Prop :=
  ∃ finalState response, calls.Ended tr i finalState response ∧ response.status = status

/-- The TTL of the call has fired: where its handler awaited, or before it could start. -/
def Fired (calls : Calls ι) (tr : List (Happening ι)) (i : ι) : Prop :=
  (∃ t e, .task i t ⟨.underTtl (calls.ttl i) e, none⟩ ∈ tr) ∨
    calls.ttl i ≤ 0 ∧ ∃ t, .task i t ⟨.inc, ()⟩ ∈ tr

/-- It has ended after its TTL had fired. -/
def TimedOut (calls : Calls ι) (tr : List (Happening ι)) (i : ι) : Prop :=
  (∃ finalState response, calls.Ended tr i finalState response) ∧ calls.Fired tr i

/-- The counters of the body are those the README describes; `err` may count the
requests that timed out or leave them out. -/
structure Counted (calls : Calls ι) (tr : List (Happening ι)) (body : List (String × PyVal)) :
    Prop where
  pending : body.lookup "pending" = some (.int
    {i | calls.Recorded tr i ∧ ∀ finalState response, ¬ calls.Ended tr i finalState response}.ncard)
  ok : body.lookup "ok" = some (.int {i | calls.EndedWith tr .ok i}.ncard)
  to_ : body.lookup "to" = some (.int {i | calls.TimedOut tr i}.ncard)
  err : body.lookup "err" = some (.int {i | calls.EndedWith tr .error i}.ncard) ∨
    body.lookup "err" =
      some (.int {i | calls.EndedWith tr .error i ∧ ¬ calls.TimedOut tr i}.ncard)

theorem finite_recorded (calls : Calls ι) (tr : List (Happening ι)) :
    {i | calls.Recorded tr i}.Finite := by
  refine (List.finite_toSet (freshCalls tr)).subset ?_
  rintro i ⟨t, hmem⟩
  exact mem_freshCalls hmem

theorem finite_timedOut (calls : Calls ι) (tr : List (Happening ι)) :
    {i | calls.TimedOut tr i}.Finite := by
  refine (finite_recorded calls tr).subset ?_
  rintro i ⟨⟨finalState, response, hended⟩, _⟩
  exact hended.1

section Run

variable [DecidableEq ι] {p : ι → Prog Unit}

theorem completion_verdict {i : ι} {t : ℚ} {finalState : FinalState} {response : Option Response}
    {errorCode : Option String} (h : Run (Performs calls.num ι) calls.pool db₀ tr p db)
    (hmem : .task i t (calls.completion i finalState response errorCode) ∈ tr) :
    ∃ verdict : Verdict, finalState = verdict.finalState ∧
      response = some (verdict.response (calls.request i) (calls.ttl i)) := by
  obtain ⟨before, after, hsplit⟩ := List.append_of_mem (mem_exchangesOf.mpr ⟨t, hmem⟩)
  obtain ⟨_, verdict, o, start, front, _, hx, _⟩ := completion_closes (hsplit ▸ h.steps i) rfl
  have heq := congrArg Sigma.fst hx
  cases heq
  exact ⟨verdict, rfl, rfl⟩

/-- What is recorded as an error has an error for its response. -/
theorem Ended.error {i : ι} {response : Response}
    (h : Run (Performs calls.num ι) calls.pool db₀ tr p db)
    (hended : calls.Ended tr i .completedError response) : response.status = .error := by
  obtain ⟨_, t, errorCode, hmem⟩ := hended
  obtain ⟨verdict, hstate, hresponse⟩ := completion_verdict h hmem
  cases hresponse
  cases verdict with
  | lost err => rfl
  | duplicate => rfl
  | unknownType => rfl
  | handled outcome =>
      cases outcome with
      | ok response => cases hstate
      | error err => cases err <;> rfl

theorem Ended.unique {i : ι} {finalState finalState' : FinalState} {response response' : Response}
    (h : Run (Performs calls.num ι) calls.pool db₀ tr p db)
    (hended : calls.Ended tr i finalState response)
    (hended' : calls.Ended tr i finalState' response') : response = response' := by
  obtain ⟨_, t, errorCode, hmem⟩ := hended
  obtain ⟨_, t', errorCode', hmem'⟩ := hended'
  exact Option.some.inj (completion_unique h hmem hmem').2.2.1

theorem EndedWith.completedOk {i : ι} (h : Run (Performs calls.num ι) calls.pool db₀ tr p db)
    (hended : calls.EndedWith tr .ok i) :
    ∃ response, calls.Ended tr i .completedOk response := by
  obtain ⟨finalState, response, hended, hstatus⟩ := hended
  cases finalState with
  | completedOk => exact ⟨response, hended⟩
  | completedError =>
      rw [hended.error h] at hstatus
      cases hstatus

theorem row_of_recorded {i : ι} (h : Run (Performs calls.num ι) calls.pool db₀ tr p db)
    (hkeys : ∀ i j, calls.key i = calls.key j → i = j) (h₀ : db₀.requests = .empty)
    (hpurge : NoPurge tr) (hi : calls.Recorded tr i) :
    ∃ row, db.requests.find? (calls.key i) = some row ∧
      (∀ finalState, row.finalState = some finalState ↔
        ∃ response, calls.Ended tr i finalState response) := by
  have hstray : calls.NoStrayCompletion db₀ tr :=
    noStrayCompletion h hkeys fun i ↦ by rw [h₀, Table.find?_empty]
  obtain ⟨t, hmem⟩ := hi
  by_cases hdone : calls.Completed i tr
  · obtain ⟨t', finalState, response, errorCode, hdone⟩ := hdone
    obtain ⟨t, hrecorded, hrow⟩ := completed_row h hkeys hstray (hpurge.rowKept _)
      (mem_exchangesOf.mpr ⟨t, hmem⟩) hdone
    obtain ⟨verdict, _, hresponse⟩ := completion_verdict h hdone
    refine ⟨_, hrow, fun finalState' ↦ ⟨fun hstate ↦ ?_, ?_⟩⟩
    · cases hstate
      exact ⟨_, ⟨t, hrecorded⟩, t', errorCode, hresponse ▸ hdone⟩
    · rintro ⟨response', _, t'', errorCode', hdone'⟩
      obtain ⟨_, rfl, _⟩ := completion_unique h hdone hdone'
      rfl
  · obtain ⟨t, since, _, hrow⟩ := (tidy_of_run h hstray).active i t hmem hdone
    refine ⟨_, hrow, fun finalState ↦ ⟨fun hstate ↦ ?_, ?_⟩⟩
    · cases hstate
    · rintro ⟨response, _, t', errorCode, hmem'⟩
      exact absurd ⟨t', finalState, _, errorCode, hmem'⟩ hdone

theorem ncard_inState (h : Run (Performs calls.num ι) calls.pool db₀ tr p db)
    (hkeys : ∀ i j, calls.key i = calls.key j → i = j) (h₀ : db₀.requests = .empty)
    (hpurge : NoPurge tr) (state : Option FinalState) :
    {i | calls.Recorded tr i ∧ ∀ finalState, state = some finalState ↔
      ∃ response, calls.Ended tr i finalState response}.ncard = db.inState state := by
  rw [Db.inState, ← Table.ncard_find?, ← Set.ncard_image_of_injective _ hkeys]
  congr 1
  ext k
  constructor
  · rintro ⟨i, ⟨hrecorded, hstate⟩, rfl⟩
    obtain ⟨row, hrow, hfinal⟩ := row_of_recorded h hkeys h₀ hpurge hrecorded
    have heq : row.finalState = state :=
      Option.ext fun finalState ↦ (hfinal finalState).trans (hstate finalState).symm
    exact ⟨row, hrow, decide_eq_true heq⟩
  · rintro ⟨row, hrow, hstate⟩
    have hstate : row.finalState = state := of_decide_eq_true hstate
    have hstray : calls.NoStrayCompletion db₀ tr :=
      noStrayCompletion h hkeys fun i ↦ by rw [h₀, Table.find?_empty]
    rcases (tidy_of_run h hstray).rows k row hrow with ⟨h₁, _⟩ | ⟨i, t, since, howner, _⟩
    · rw [h₀, Table.find?_empty] at h₁
      cases h₁
    · obtain ⟨hk, ⟨pre, htr⟩, _⟩ := howner
      have hrecorded : calls.Recorded tr i := ⟨t, by rw [htr]; simp⟩
      obtain ⟨row', hrow', hfinal⟩ := row_of_recorded h hkeys h₀ hpurge hrecorded
      rw [hk, hrow] at hrow'
      cases hrow'
      exact ⟨i, ⟨hrecorded, fun finalState ↦ hstate ▸ hfinal finalState⟩, hk⟩

theorem ncard_pending (h : Run (Performs calls.num ι) calls.pool db₀ tr p db)
    (hkeys : ∀ i j, calls.key i = calls.key j → i = j) (h₀ : db₀.requests = .empty)
    (hpurge : NoPurge tr) :
    {i | calls.Recorded tr i ∧ ∀ finalState response,
      ¬ calls.Ended tr i finalState response}.ncard = db.inState none := by
  rw [← ncard_inState h hkeys h₀ hpurge none]
  simp

theorem ncard_ended (h : Run (Performs calls.num ι) calls.pool db₀ tr p db)
    (hkeys : ∀ i j, calls.key i = calls.key j → i = j) (h₀ : db₀.requests = .empty)
    (hpurge : NoPurge tr) (finalState : FinalState) :
    {i | ∃ response, calls.Ended tr i finalState response}.ncard =
      db.inState (some finalState) := by
  rw [← ncard_inState h hkeys h₀ hpurge (some finalState)]
  congr 1
  ext i
  constructor
  · rintro ⟨response, hended⟩
    refine ⟨hended.1, fun finalState' ↦ ⟨fun heq ↦ ?_, ?_⟩⟩
    · cases heq
      exact ⟨response, hended⟩
    · rintro ⟨response', _, t', errorCode', hmem'⟩
      obtain ⟨_, t, errorCode, hmem⟩ := hended
      exact congrArg some (completion_unique h hmem hmem').2.1
  · rintro ⟨_, hstate⟩
    exact (hstate finalState).mp rfl

/-- If every request completed as ok was answered ok, the two statuses are the two final
states. -/
theorem endedWith_of_ok (h : Run (Performs calls.num ι) calls.pool db₀ tr p db)
    (hok : ∀ i response, calls.Ended tr i .completedOk response → response.status = .ok) :
    {i | calls.EndedWith tr .ok i} = {i | ∃ response, calls.Ended tr i .completedOk response} ∧
      {i | calls.EndedWith tr .error i} =
        {i | ∃ response, calls.Ended tr i .completedError response} := by
  constructor
  · ext i
    constructor
    · intro hi
      exact hi.completedOk h
    · rintro ⟨response, hi⟩
      exact ⟨_, response, hi, hok i response hi⟩
  · ext i
    constructor
    · rintro ⟨finalState, response, hi, hstatus⟩
      cases finalState with
      | completedOk =>
          rw [hok i response hi] at hstatus
          cases hstatus
      | completedError => exact ⟨response, hi⟩
    · rintro ⟨response, hi⟩
      exact ⟨_, response, hi, hi.error h⟩

/-- With no purge, distinct keys and an empty table at the start, `gateway.status`
reports what has become of the recorded requests just when none of them has
ended on its TTL and no response recorded as `completed_ok` is an error: nothing
is ever counted under `timeout`. -/
theorem counters_right_iff (h : Run (Performs calls.num ι) calls.pool db₀ tr p db)
    (hkeys : ∀ i j, calls.key i = calls.key j → i = j) (h₀ : db₀.requests = .empty)
    (hpurge : NoPurge tr) :
    (∀ response, StatusAnswer calls.num db response →
      ∃ body, response.body = some body ∧ calls.Counted tr body) ↔
    (∀ i, ¬ calls.TimedOut tr i) ∧
      ∀ i response, calls.Ended tr i .completedOk response → response.status = .ok := by
  have hdone : {i | ∃ response, calls.Ended tr i .completedOk response}.Finite := by
    refine (finite_recorded calls tr).subset ?_
    rintro i ⟨response, hended⟩
    exact hended.1
  have hsub : {i | calls.EndedWith tr .ok i} ⊆
      {i | ∃ response, calls.Ended tr i .completedOk response} :=
    fun i hi ↦ hi.completedOk h
  constructor
  · intro hcounted
    obtain ⟨response, hanswer⟩ := exists_statusAnswer calls.num db
    obtain ⟨body, hbody, hcounted⟩ := hcounted response hanswer
    obtain ⟨body', hbody', hreads⟩ := hanswer.readsCounters
    cases Option.some.inj (hbody.symm.trans hbody')
    have hzero : {i | calls.TimedOut tr i}.ncard = 0 := by
      have hsame := hcounted.to_.symm.trans hreads.to_
      simp only [Option.some.injEq, PyVal.int.injEq] at hsame
      omega
    have hcard : {i | calls.EndedWith tr .ok i}.ncard =
        {i | ∃ response, calls.Ended tr i .completedOk response}.ncard := by
      have hsame := hcounted.ok.symm.trans hreads.ok
      rw [← ncard_ended h hkeys h₀ hpurge] at hsame
      simp only [Option.some.injEq, PyVal.int.injEq] at hsame
      omega
    have heq := Set.eq_of_subset_of_ncard_le hsub hcard.ge hdone
    refine ⟨fun i hi ↦ ?_, fun i response hi ↦ ?_⟩
    · have hnone := (Set.ncard_eq_zero (finite_timedOut calls tr)).mp hzero
      exact (Set.eq_empty_iff_forall_notMem.mp hnone) i hi
    · have hmem : i ∈ {i | calls.EndedWith tr .ok i} := heq ▸ ⟨response, hi⟩
      obtain ⟨_, response', hi', hstatus⟩ := hmem
      rwa [hi.unique h hi']
  · rintro ⟨htimeout, hok⟩ response hanswer
    obtain ⟨body, hbody, hreads⟩ := hanswer.readsCounters
    obtain ⟨hsameOk, hsameError⟩ := endedWith_of_ok h hok
    refine ⟨body, hbody, ?_, ?_, ?_, .inl ?_⟩
    · rw [hreads.pending, ncard_pending h hkeys h₀ hpurge]
    · rw [hreads.ok, hsameOk, ncard_ended h hkeys h₀ hpurge]
    · have hnone : {i | calls.TimedOut tr i} = ∅ :=
        Set.eq_empty_iff_forall_notMem.mpr htimeout
      rw [hreads.to_, hnone, Set.ncard_empty]
      rfl
    · rw [hreads.err, hsameError, ncard_ended h hkeys h₀ hpurge]

end Run

end Calls

/-- No TTL fires in the event, and no error is recorded as the response. -/
def Event.serene {ι : Type} : Happening ι → Bool
  | .task _ _ ⟨.underTtl .., none⟩ => false
  | .task _ _ ⟨.store (.recordCompletion _ _ _ (some response) _), _⟩ =>
    decide (response.status = .ok)
  | _ => true

/-- Two pings, both answered: the counters are right. -/
theorem pings_counted :
    ∃ response body, StatusAnswer twins.num twinsRun.2.2 response ∧ response.body = some body ∧
      twins.Counted twinsRun.1 body := by
  have hserene : twinsRun.1.all Event.serene = true := rfl
  have hkeys : ∀ i j, twins.key i = twins.key j → i = j := by decide
  have hpurge : Calls.NoPurge twinsRun.1 := fun now x hmem ↦
    absurd hmem (twins.env_not_mem_played _ _ _ now x)
  have hpositive : ∀ i, 0 < twins.ttl i := by decide
  have hintime (i : Bool) : ¬ twins.TimedOut twinsRun.1 i := by
    rintro ⟨_, ⟨t, e, hmem⟩ | ⟨hnever, _⟩⟩
    · cases List.all_eq_true.mp hserene _ hmem
    · exact absurd hnever (not_le.mpr (hpositive i))
  have hanswered (i : Bool) (response : Response)
      (h : twins.Ended twinsRun.1 i .completedOk response) : response.status = .ok := by
    obtain ⟨_, t, errorCode, hmem⟩ := h
    exact of_decide_eq_true (List.all_eq_true.mp hserene _ hmem)
  obtain ⟨response, hanswer⟩ := exists_statusAnswer twins.num twinsRun.2.2
  obtain ⟨body, hbody, hcounted⟩ := (Calls.counters_right_iff (twins.played_run _ _ _) hkeys rfl
    hpurge).mpr ⟨hintime, hanswered⟩ response hanswer
  exact ⟨response, body, hanswer, hbody, hcounted⟩

theorem length_nodeLastSeen : FieldLength "node.last_seen" := by decide

/-- One request whose handler reads the store. -/
def asking : Calls Unit where
  num := .plain
  policy := {}
  router := pair.router
  request _ := .simple "r1" "node.last_seen" "node-a" length_r1 length_nodeLastSeen length_nodeA

/-- The TTL fires at the first await of the handler. -/
def tooSlow (now : ℚ) : (e : Eff) → Db → e.Answer × Db
  | .underTtl .., db => (none, db)
  | e, db => e.respond .plain now (fun _ ↦ none) db

theorem tooSlow_transition (now : ℚ) (e : Eff) (db : Db) :
    e.Transition .plain now (tooSlow now e db).1 db (tooSlow now e db).2 := by
  cases e with
  | underTtl ttlS e => rfl
  | _ => exact Eff.respond_transition .plain now (fun _ ↦ none) _ db

/-- The request runs into its TTL and is answered `timeout`. -/
def tooSlowRun : List (Happening Unit) × (Unit → Prog Unit) × Db :=
  play (fun _ now e db ↦ tooSlow now e db) (List.replicate 12 ((), 1)) (asking.pool, Db.empty)

def Event.fires {ι : Type} : Happening ι → Bool
  | .task _ _ ⟨.underTtl .., none⟩ => true
  | _ => false

def Event.completes {ι : Type} : Happening ι → Bool
  | .task _ _ ⟨.store (.recordCompletion _ _ _ (some _) _), Except.ok _⟩ => true
  | _ => false

theorem Event.fires_eq {ι : Type} {calls : Calls ι} {tr : List (Happening ι)}
    (hproper : calls.Proper tr) {ev : Happening ι} (hmem : ev ∈ tr) (h : Event.fires ev = true) :
    ∃ i t e, ev = .task i t ⟨.underTtl (calls.ttl i) e, none⟩ := by
  cases ev with
  | env now x => cases h
  | task i t x =>
      have hcall := hproper i t x hmem
      obtain ⟨e, r⟩ := x
      cases hcall with
      | handler e he =>
          cases r with
          | none => exact ⟨i, t, e, rfl⟩
          | some r => cases h
      | _ => cases h

theorem Event.completes_eq {ι : Type} {calls : Calls ι} {tr : List (Happening ι)}
    (hproper : calls.Proper tr) {ev : Happening ι} (hmem : ev ∈ tr)
    (h : Event.completes ev = true) :
    ∃ i t finalState response errorCode,
      ev = .task i t (calls.completion i finalState (some response) errorCode) := by
  cases ev with
  | env now x => cases h
  | task i t x =>
      have hcall := hproper i t x hmem
      obtain ⟨e, r⟩ := x
      cases hcall with
      | completion finalState response errorCode =>
          cases response with
          | none => cases h
          | some response =>
              cases r with
              | ok _ => exact ⟨i, t, finalState, response, errorCode, rfl⟩
              | error err => cases h
      | _ => cases h

/-- A request that timed out is not counted under `to`. -/
theorem timeout_not_counted :
    ¬ ∀ (calls : Calls Unit) db₀ tr p db, Run (Performs calls.num Unit) calls.pool db₀ tr p db →
      (∀ i j, calls.key i = calls.key j → i = j) → db₀.requests = .empty → Calls.NoPurge tr →
      ∀ response, StatusAnswer calls.num db response →
        ∃ body, response.body = some body ∧ calls.Counted tr body := by
  intro h
  have hrun : Run (Performs asking.num Unit) asking.pool Db.empty tooSlowRun.1 tooSlowRun.2.1
      tooSlowRun.2.2 := play_run (fun _ now e db ↦ tooSlow_transition now e db) rfl
  have hpurge : Calls.NoPurge tooSlowRun.1 := fun now x hmem ↦
    absurd hmem (env_not_mem_play _ _ _ _ now x)
  obtain ⟨response, hanswer⟩ := exists_statusAnswer asking.num tooSlowRun.2.2
  obtain ⟨body, hbody, hreads⟩ := hanswer.readsCounters
  obtain ⟨body', hbody', hcounted⟩ :=
    h asking _ _ _ _ hrun (fun _ _ _ ↦ rfl) rfl hpurge response hanswer
  cases Option.some.inj (hbody.symm.trans hbody')
  have hzero : {i | asking.TimedOut tooSlowRun.1 i}.ncard = 0 := by
    have hsame := hcounted.to_.symm.trans hreads.to_
    simp only [Option.some.injEq, PyVal.int.injEq] at hsame
    omega
  have hnone := (Set.ncard_eq_zero (Calls.finite_timedOut asking _)).mp hzero
  refine (Set.eq_empty_iff_forall_notMem.mp hnone) () ?_
  have hreceived : tooSlowRun.1[0]? = some (.task () 1 (asking.received () true)) := rfl
  have hfired : tooSlowRun.1.any Event.fires = true := by decide +kernel
  have hended : tooSlowRun.1.any Event.completes = true := by decide +kernel
  obtain ⟨ev, hmem, hev⟩ := List.any_eq_true.mp hfired
  obtain ⟨ev', hmem', hev'⟩ := List.any_eq_true.mp hended
  obtain ⟨i, t, e, rfl⟩ := Event.fires_eq (Calls.run_proper hrun) hmem hev
  obtain ⟨j, t', finalState, response, errorCode, rfl⟩ :=
    Event.completes_eq (Calls.run_proper hrun) hmem' hev'
  exact ⟨⟨finalState, response, ⟨1, List.mem_of_getElem? hreceived⟩, t', errorCode, hmem'⟩,
    .inl ⟨t, e, hmem⟩⟩

end MeshcoreRpc
