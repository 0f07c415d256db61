import MeshcoreRpc.Core.Freshness
import MeshcoreRpc.Core.Ownership

/-!
# Calls with distinct keys

When no two calls have the same key, no store call fails and nothing is purged,
each call goes through the lifecycle its verdict asks for, and its row and its
log are what its own exchanges wrote.
-/

namespace MeshcoreRpc

open Tables Coroutine Coro Interleaving

/-! ## The event log -/

/-- The row of `request_events` an exchange at the time `now` writes. -/
def loggedRow (now : ℚ) : Exchange Eff.Answer → Option EventRow
  | ⟨.store (.recordReceived request _), Except.ok true⟩ =>
    some ⟨request.id, request.from_, .received, none, now⟩
  | ⟨.store (.recordEvent requestId nodeId state detail), Except.ok _⟩ =>
    some ⟨requestId, nodeId, state, detail, now⟩
  | _ => none

def loggedRows {ι : Type} (tr : List (Happening ι)) : List EventRow :=
  tr.filterMap fun
    | .task _ now x => loggedRow now x
    | .env _ _ => none

theorem loggedRow_of_not_records {x : Exchange Eff.Answer} (now : ℚ) (h : records x = false) :
    loggedRow now x = none := by
  obtain ⟨e, r⟩ := x
  cases e with
  | store c =>
      cases r with
      | error err => cases c <;> rfl
      | ok a =>
          cases c with
          | recordReceived => cases h
          | recordEvent => cases h
          | recordCompletion => cases h
          | _ => rfl
  | _ => rfl

/-! ## A call in which no store call fails -/

/-- The state an effect logs when it succeeds. -/
def loggedState : Eff → Option (EventState × Option String)
  | .store (.recordReceived ..) => some (.received, none)
  | .store (.recordEvent _ _ state detail) => some (state, detail)
  | _ => none

/-- The attempts to emit with their outcomes. -/
def emissions (tr : Trace) : List (String × Response × Except PyExc Unit) :=
  tr.filterMap fun
    | ⟨.emit nodeId response, r⟩ => some (nodeId, response, r)
    | _ => none

/-- What an emit adds to the log when it returns. -/
def publishedStates : Except PyExc Unit → List (EventState × Option String)
  | .ok _ => [(.responsePublished, none)]
  | .error _ => []

def StoreSucceeds (tr : Trace) : Prop :=
  ∀ c (r : Except PyExc c.Answer), ⟨.store c, r⟩ ∈ tr → ∃ a, r = .ok a

theorem Performed.map_fst {es : List Eff} {tr : Trace} (h : Performed es tr (.ok ())) :
    tr.map Sigma.fst = es := by
  generalize ho : (Except.ok () : Except PyExc Unit) = o at h
  induction h with
  | nil => rfl
  | raised h => cases ho
  | answered h rest ih => rw [List.map_cons, ih ho]

theorem filterMap_visible {γ : Type} {f : Exchange Eff.Answer → Option γ}
    (htime : ∀ t, f ⟨.time, t⟩ = none) (hinner : ∀ ttlS e r, f ⟨.underTtl ttlS e, r⟩ = none)
    (hafter : ∀ e r, f ⟨.afterTtl e, r⟩ = none) (tr : Trace) :
    tr.filterMap f = (visible tr).filterMap f := by
  rw [visible, List.filterMap_filter]
  congr 1
  funext x
  obtain ⟨e, r⟩ := x
  cases e with
  | time => exact htime r
  | underTtl ttlS e => exact hinner ttlS e r
  | afterTtl e => exact hafter e r
  | _ => rfl

theorem states_before (request : Request) (seenAt : ℚ) (verdict : Verdict) :
    (verdict.before request seenAt).filterMap loggedState = verdict.states := by
  cases verdict with
  | handled outcome =>
      cases outcome with
      | ok response => rfl
      | error err => cases err <;> rfl
  | _ => rfl

theorem emissions_before {request : Request} {seenAt : ℚ} {verdict : Verdict} {pre : Trace}
    {o : Except PyExc Unit} (h : Performed (verdict.before request seenAt) pre o) :
    emissions pre = [] := by
  refine List.filterMap_eq_nil_iff.mpr fun x hx ↦ ?_
  obtain ⟨e, r⟩ := x
  rcases Verdict.mem_before (h.mem hx) with he | he | he | ⟨state, detail, _, he⟩ <;>
    cases he <;> rfl

theorem raised_store {x : Exchange Eff.Answer} {request : Request} {seenAt : ℚ}
    {verdict : Verdict} {err : PyExc} (h : x.1 ∈ verdict.before request seenAt)
    (hraised : x.1.raised? x.2 = some err) :
    ∃ (c : StoreCall) (r : Except PyExc c.Answer), x = ⟨.store c, r⟩ ∧ r = .error err := by
  obtain ⟨e, r⟩ := x
  have of_store {c : StoreCall} {r : Except PyExc c.Answer}
      (hraised : (Eff.store c).raised? r = some err) : r = .error err := by
    cases r with
    | ok a => cases hraised
    | error err' =>
        cases hraised
        rfl
  rcases Verdict.mem_before h with he | he | he | ⟨state, detail, _, he⟩
  · cases he
    cases hraised
  · cases he
    cases hraised
  · cases he
    exact ⟨_, r, rfl, of_store hraised⟩
  · cases he
    exact ⟨_, r, rfl, of_store hraised⟩

/-- A finished call in which no store call failed and whose request was fresh:
one emit, the states its verdict asks for, and its completion. -/
theorem Course.unfailing {ttlS : ℤ} {router : Router} {request : Request} {tr : Trace}
    {o : Except PyExc Unit} (h : Course ttlS router request tr o) (hstore : StoreSucceeds tr)
    (hfresh : ⟨.store (.recordReceived request ttlS), Except.ok true⟩ ∈ tr) :
    ∃ (verdict : Verdict) (emitted : Except PyExc Unit), o = .ok () ∧
      (verdict = .unknownType ∨ ∃ outcome, verdict = .handled outcome) ∧
      verdict.Decided ttlS router request tr ∧
      emissions tr = [(request.from_, verdict.response request ttlS, emitted)] ∧
      tr.filterMap (fun x ↦ loggedState x.1) =
        (.received, none) :: (verdict.states ++ publishedStates emitted) ∧
      (⟨verdict.completionEff request ttlS, Except.ok ()⟩ : Exchange Eff.Answer) ∈ tr := by
  obtain ⟨verdict, seenAt, pre, fin, o₁, htr, hpre, hfin⟩ := h.form
  have hmem {x : Exchange Eff.Answer} (hx : x ∈ pre ++ fin) : x ∈ tr :=
    mem_of_visible (htr ▸ List.mem_cons_of_mem _ hx)
  rcases hfin with ⟨err, rfl, rfl, rfl⟩ | ⟨rfl, hfin, hdecided⟩
  · obtain ⟨x, hx, hes, hraised⟩ := hpre.exists_raised
    obtain ⟨c, r, rfl, rfl⟩ := raised_store hes hraised
    obtain ⟨a, ha⟩ := hstore c _ (hmem (List.mem_append_left _ hx))
    cases ha
  · have hreceived : verdict.received = .ok true := by
      refine received_verdict ((List.append_nil _).trans htr) ?_ hfresh
      exact fun x hx ↦ mem_rest hpre (.inr hfin) hx
    have hverdict : verdict = .unknownType ∨ ∃ outcome, verdict = .handled outcome := by
      cases verdict with
      | lost err => cases hreceived
      | duplicate => cases hreceived
      | unknownType => exact .inl rfl
      | handled outcome => exact .inr ⟨outcome, rfl⟩
    have hemissions : emissions tr = emissions fin := by
      rw [emissions, filterMap_visible (fun _ ↦ rfl) (fun _ _ _ ↦ rfl) (fun _ _ ↦ rfl), htr,
        List.filterMap_cons, List.filterMap_append]
      exact congrArg (· ++ emissions fin) (emissions_before hpre)
    have hstates : tr.filterMap (fun x ↦ loggedState x.1) =
        (.received, none) :: (verdict.states ++ fin.filterMap fun x ↦ loggedState x.1) := by
      rw [filterMap_visible (fun _ ↦ rfl) (fun _ _ _ ↦ rfl) (fun _ _ ↦ rfl), htr,
        List.filterMap_cons, List.filterMap_append, ← states_before request seenAt verdict,
        ← hpre.map_fst, List.filterMap_map]
      rfl
    have hlast : (⟨verdict.completionEff request ttlS, o⟩ : Exchange Eff.Answer) ∈ tr := by
      obtain ⟨front, hfront, _⟩ := hfin.completion_last
      exact hmem (List.mem_append_right _ (by rw [hfront]; simp))
    obtain ⟨a, ha⟩ := hstore _ _ hlast
    have hcompleted : o = .ok () := ha
    subst hcompleted
    rw [hemissions, hstates]
    cases hfin with
    | published logged _ =>
        have hevent : (⟨Verdict.eventEff request (.responsePublished, none), logged⟩ :
            Exchange Eff.Answer) ∈ tr := hmem (List.mem_append_right _ (by simp))
        obtain ⟨_, hlogged⟩ := hstore _ _ hevent
        have hlogged : logged = .ok () := hlogged
        subst hlogged
        exact ⟨verdict, .ok (), rfl, hverdict, hdecided, rfl, rfl, hlast⟩
    | dropped err _ => exact ⟨verdict, .error err, rfl, hverdict, hdecided, rfl, rfl, hlast⟩

/-- The log of a call, without its times, is what its effects ask for. -/
theorem map_loggedRow {txs : List (ℚ × Exchange Eff.Answer)}
    (hstore : StoreSucceeds (txs.map Prod.snd))
    (hfresh : ∀ rq t, ⟨.store (.recordReceived rq t), Except.ok false⟩ ∉ txs.map Prod.snd) :
    (txs.filterMap fun tx ↦ loggedRow tx.1 tx.2).map (fun row ↦ (row.state, row.detail)) =
      (txs.map Prod.snd).filterMap fun x ↦ loggedState x.1 := by
  rw [List.map_filterMap, List.filterMap_map]
  refine List.filterMap_congr fun tx htx ↦ ?_
  obtain ⟨now, e, r⟩ := tx
  have hmem : (⟨e, r⟩ : Exchange Eff.Answer) ∈ txs.map Prod.snd := List.mem_map_of_mem htx
  cases e with
  | store c =>
      obtain ⟨a, rfl⟩ := hstore c r hmem
      cases c with
      | recordReceived rq t =>
          cases a with
          | false => exact absurd hmem (hfresh rq t)
          | true => rfl
      | _ => rfl
  | _ => rfl

namespace Calls

variable {ι : Type} {calls : Calls ι} {db₀ db : Db} {tr : List (Happening ι)}

/-- Nothing but handlers and event routes works beside the calls. -/
def NoPurge (tr : List (Happening ι)) : Prop :=
  ∀ now x, .env now x ∈ tr → x.1.1.lifecycle = false

theorem NoPurge.rowKept (h : NoPurge tr) (k : RequestKey) : calls.RowKept db₀ k tr := by
  intro pre now x post s s' htr _ hstep hrow
  obtain ⟨⟨c, r⟩, hc⟩ := x
  have hquiet := h now ⟨⟨c, r⟩, hc⟩ (htr ▸ List.mem_append_right _ List.mem_cons_self)
  have hsame := Eff.Transition.frame (e := .store c) hquiet hstep
  rwa [hsame.1]

theorem requestEvents_of_evolves (hproper : calls.Proper tr) (hpurge : NoPurge tr)
    (h : Evolves (Performs calls.num ι) db₀ tr db) :
    db.requestEvents = db₀.requestEvents ++ loggedRows tr := by
  induction h with
  | start => simp [loggedRows]
  | @step tr s s' ev past step ih =>
      have hs := ih hproper.left fun now x hx ↦ hpurge now x (List.mem_append_left _ hx)
      rw [loggedRows, List.filterMap_append, ← List.append_assoc]
      rw [loggedRows] at hs
      rw [← hs]
      cases change_of_performs hproper step with
      | fresh i now hfree hrows hevents => exact hevents
      | known i now hrow hdb =>
          subst hdb
          simp [loggedRow]
      | logged i now state detail hrows hevents => exact hevents
      | completed i now finalState response errorCode hrows hevents =>
          rw [hevents]
          simp [loggedRow]
      | purged now cutoff n hc hrows hevents =>
          have := hpurge now _ (List.mem_append_right _ List.mem_cons_self)
          cases this
      | quiet _ hev hrows hevents =>
          rw [hevents]
          cases ev with
          | env now x => simp
          | task i now x => simp [loggedRow_of_not_records now (hev i now x rfl)]

theorem loggedRow_key {i : ι} {now : ℚ} {x : Exchange Eff.Answer} {row : EventRow}
    (hcall : Eff.OfCall (calls.request i) (calls.ttl i) x.1) (h : loggedRow now x = some row) :
    row.key = calls.key i := by
  obtain ⟨e, r⟩ := x
  cases hcall with
  | received =>
      cases r with
      | error err => cases h
      | ok fresh =>
          cases fresh with
          | false => cases h
          | true =>
              cases h
              rfl
  | event state detail =>
      cases r with
      | error err => cases h
      | ok _ =>
          cases h
          rfl
  | seen ts => cases r <;> cases h
  | completion => cases r <;> cases h
  | time => cases h
  | emit => cases h
  | inc => cases h
  | dec => cases h
  | handler => cases h
  | unwinding => cases h

/-- With distinct keys the log of a key is what its call wrote. -/
theorem loggedRows_key [DecidableEq ι] (hproper : calls.Proper tr)
    (hkeys : ∀ i j, calls.key i = calls.key j → i = j) (i : ι) :
    (loggedRows tr).filter (fun row ↦ decide (row.key = calls.key i)) =
      (stampedOf i tr).filterMap fun tx ↦ loggedRow tx.1 tx.2 := by
  induction tr with
  | nil => rfl
  | cons ev tr ih =>
      have hrest := ih fun j now x hx ↦ hproper j now x (List.mem_cons_of_mem _ hx)
      rw [loggedRows] at hrest
      cases ev with
      | env now x => simpa [loggedRows, stampedOf] using hrest
      | task j now x =>
          have hcall := hproper j now x List.mem_cons_self
          cases hx : loggedRow now x with
          | none =>
              by_cases hj : j = i
              · simpa [loggedRows, stampedOf, hx, hj] using hrest
              · simpa [loggedRows, stampedOf, hx, hj] using hrest
          | some row =>
              have hkey := loggedRow_key hcall hx
              by_cases hj : j = i
              · subst hj
                simpa [loggedRows, stampedOf, hx, hkey] using hrest
              · have hne : row.key ≠ calls.key i := fun heq ↦ hj (hkeys j i (hkey ▸ heq))
                simpa [loggedRows, stampedOf, hx, hj, hne] using hrest

/-! ## A call among the others and alone -/

/-- The two databases have the same row and the same log for `k`. -/
structure Agree (k : RequestKey) (db db' : Db) : Prop where
  row : db.requests.find? k = db'.requests.find? k
  log : db.requestEvents.filter (fun row ↦ decide (row.key = k)) =
    db'.requestEvents.filter (fun row ↦ decide (row.key = k))

theorem Agree.of_rows {k : RequestKey} {db' db₁ db₁' : Db} {row : EventRow}
    (h : Agree k db db') (hrow : db₁.requests.find? k = db₁'.requests.find? k)
    (hlog : db₁.requestEvents = db.requestEvents ++ [row])
    (hlog' : db₁'.requestEvents = db'.requestEvents ++ [row]) : Agree k db₁ db₁' where
  row := hrow
  log := by rw [hlog, hlog', List.filter_append, List.filter_append, h.log]

/-- An event of another key leaves the row and the log of `k` as they are. -/
theorem Agree.of_other {k : RequestKey} {db' db₁ : Db} {rows : List EventRow}
    (h : Agree k db db') (hrow : db₁.requests.find? k = db.requests.find? k)
    (hlog : db₁.requestEvents = db.requestEvents ++ rows) (hrows : ∀ row ∈ rows, row.key ≠ k) :
    Agree k db₁ db' where
  row := hrow.trans h.row
  log := by
    have hnone : rows.filter (fun row ↦ decide (row.key = k)) = [] :=
      List.filter_eq_nil_iff.mpr fun row hmem ↦ by simpa using hrows row hmem
    rw [hlog, List.filter_append, hnone, List.append_nil, h.log]

section Alone

variable [DecidableEq ι]

/-- The events of the call `i` that write its row or its log. -/
def ownRecords (i : ι) (tr : List (Happening ι)) : List (Happening ι) :=
  tr.filter fun
    | .task j _ x => decide (j = i) && records x
    | .env _ _ => false

theorem Change.alone {ev : Happening ι} {i : ι} {s s' m : Db} (h : calls.Change s s' ev)
    (hquiet : ∀ now x, ev = .env now x → x.1.1.lifecycle = false)
    (hkeys : ∀ i j, calls.key i = calls.key j → i = j) (hm : Agree (calls.key i) s m) :
    ∃ m', Evolves (Performs calls.num ι) m (ownRecords i [ev]) m' ∧ Agree (calls.key i) s' m' := by
  have skip {ev : Happening ι} (hev : ownRecords i [ev] = []) (hs : Agree (calls.key i) s' m) :
      ∃ m', Evolves (Performs calls.num ι) m (ownRecords i [ev]) m' ∧
        Agree (calls.key i) s' m' := ⟨m, by rw [hev]; exact .start, hs⟩
  have step {now : ℚ} {x : Exchange Eff.Answer} {m' : Db} (hx : records x = true)
      (hm' : Performs calls.num ι m (.task i now x) m') (hs : Agree (calls.key i) s' m') :
      ∃ m', Evolves (Performs calls.num ι) m (ownRecords i [.task i now x]) m' ∧
        Agree (calls.key i) s' m' := by
    have hev : ownRecords i [.task i now x] = [] ++ [.task i now x] := by simp [ownRecords, hx]
    exact ⟨m', by rw [hev]; exact .step .start hm', hs⟩
  have other {j : ι} (hj : ¬ j = i) : calls.key j ≠ calls.key i := fun hk ↦ hj (hkeys j i hk)
  cases h with
  | fresh j now hfree hrows hevents =>
      by_cases hj : j = i
      · subst hj
        have hexec :
            (StoreCall.recordReceived (calls.request j) (calls.ttl j)).exec calls.num now m =
            .ok (_, true) := StoreCall.exec_recordReceived_none (hm.row ▸ hfree)
        rcases StoreCall.exec_recordReceived hexec with ⟨_, _, hrows', hevents'⟩ | ⟨hne, _⟩
        · refine step rfl hexec (hm.of_rows ?_ hevents hevents')
          rw [hrows, hrows', if_pos rfl, if_pos rfl]
        · cases hne
      · refine skip (by simp [ownRecords, hj]) (hm.of_other ?_ hevents ?_)
        · rw [hrows, if_neg (Ne.symm (other hj))]
        · exact fun row hrow ↦ List.mem_singleton.mp hrow ▸ other hj
  | known j now hrow hdb =>
      subst hdb
      by_cases hj : j = i
      · subst hj
        obtain ⟨row, hrow⟩ := Option.isSome_iff_exists.mp (hm.row ▸ hrow)
        exact step rfl (StoreCall.exec_recordReceived_some hrow) hm
      · exact skip (by simp [ownRecords, hj]) hm
  | logged j now state detail hrows hevents =>
      by_cases hj : j = i
      · subst hj
        refine step rfl StoreCall.exec_recordEvent (hm.of_rows ?_ hevents rfl)
        rw [hrows]
        exact hm.row
      · refine skip (by simp [ownRecords, hj]) (hm.of_other (by rw [hrows]) hevents ?_)
        exact fun row hrow ↦ List.mem_singleton.mp hrow ▸ other hj
  | completed j now finalState response errorCode hrows hevents =>
      by_cases hj : j = i
      · subst hj
        refine step rfl StoreCall.exec_recordCompletion ⟨?_, by rw [hevents]; exact hm.log⟩
        have hmodify := Table.find?_modify (t := m.requests) (k := calls.key j)
          (f := RequestRow.complete now finalState errorCode response) (fun _ ↦ rfl) (calls.key j)
        rw [hrows, if_pos rfl, hm.row]
        rw [if_pos rfl] at hmodify
        exact hmodify.symm
      · refine skip (by simp [ownRecords, hj]) ⟨?_, by rw [hevents]; exact hm.log⟩
        rw [hrows, if_neg (Ne.symm (other hj))]
        exact hm.row
  | purged now cutoff n hc hrows hevents => cases hquiet now _ rfl
  | quiet _ hev hrows hevents =>
      refine skip ?_ ⟨by rw [hrows]; exact hm.row, by rw [hevents]; exact hm.log⟩
      cases ev with
      | env now x => rfl
      | task j now x => simp [ownRecords, hev j now x rfl]

/-- Without purges the row and the log of a key are what the call leaves behind
on a database it has to itself. -/
theorem evolves_alone (hproper : calls.Proper tr) (hpurge : NoPurge tr)
    (hkeys : ∀ i j, calls.key i = calls.key j → i = j) (i : ι)
    (h : Evolves (Performs calls.num ι) db₀ tr db) :
    ∃ m, Evolves (Performs calls.num ι) db₀ (ownRecords i tr) m ∧ Agree (calls.key i) db m := by
  induction h with
  | start => exact ⟨db₀, .start, rfl, rfl⟩
  | @step tr s s' ev past now ih =>
      obtain ⟨m, hm, hagree⟩ :=
        ih hproper.left fun now x hx ↦ hpurge now x (List.mem_append_left _ hx)
      obtain ⟨m', hm', hagree'⟩ := (change_of_performs hproper now).alone
        (fun t x hev ↦ hpurge t x (List.mem_append_right _ (List.mem_singleton.mpr hev.symm)))
        hkeys hagree
      refine ⟨m', ?_, hagree'⟩
      rw [ownRecords, List.filter_append]
      exact Evolves.append_iff.mpr ⟨m, hm, hm'⟩

end Alone

/-! ## The lifecycle of every call -/

/-- The course the call `i` has taken through the store: its verdict is one on a
fresh request, its log and its row are those of its own exchanges, at their
times, and it has emitted one response, which answers its request. -/
structure Lived [DecidableEq ι] (calls : Calls ι) (tr : List (Happening ι)) (db : Db) (i : ι)
    (verdict : Verdict) (emitted : Except PyExc Unit) : Prop where
  fresh : verdict = .unknownType ∨ ∃ outcome, verdict = .handled outcome
  decided : verdict.Decided (calls.ttl i) calls.router (calls.request i) (exchangesOf i tr)
  emission : emissions (exchangesOf i tr) =
    [((calls.request i).from_, verdict.response (calls.request i) (calls.ttl i), emitted)]
  answers : (verdict.response (calls.request i) (calls.ttl i)).Answers (calls.request i)
  log : db.requestEvents.filter (fun row ↦ decide (row.key = calls.key i)) =
    (stampedOf i tr).filterMap fun tx ↦ loggedRow tx.1 tx.2
  states : (db.requestEvents.filter fun row ↦ decide (row.key = calls.key i)).map
      (fun row ↦ (row.state, row.detail)) =
    (.received, none) :: (verdict.states ++ publishedStates emitted)
  row : ∃ t t', (t, calls.received i true) ∈ stampedOf i tr ∧
    (t', ⟨verdict.completionEff (calls.request i) (calls.ttl i), Except.ok ()⟩) ∈ stampedOf i tr ∧
    db.requests.find? (calls.key i) =
      some ((calls.pendingRow i t).complete t' verdict.finalState verdict.errorCode
        (some (verdict.response (calls.request i) (calls.ttl i))))

section Run

variable [DecidableEq ι] {p : ι → Prog Unit}

/-- With distinct keys and no row at the start every request is fresh. -/
theorem received_true {i : ι} {b : Bool} (h : Run (Performs calls.num ι) calls.pool db₀ tr p db)
    (hkeys : ∀ i j, calls.key i = calls.key j → i = j)
    (h₀ : db₀.requests.find? (calls.key i) = none)
    (hmem : calls.received i b ∈ exchangesOf i tr) : b = true := by
  obtain ⟨now, hmem⟩ := mem_exchangesOf.mp hmem
  obtain ⟨pre, post, rfl⟩ := List.append_of_mem hmem
  obtain ⟨s, hpre, hrest⟩ := Evolves.append_iff.mp h.evolves
  obtain ⟨s', hstep, _⟩ := Evolves.cons_iff.mp hrest
  have hfirst := h.steps i
  rw [exchangesOf_append, exchangesOf_task_self] at hfirst
  have hempty := (recordReceived_first hfirst).1
  have hnone : s.requests.find? (calls.key i) = none := by
    refine row_absent (run_proper h).left hpre h₀ fun j t hj hmem ↦ ?_
    rw [hkeys j i hj] at hmem
    have hvis := mem_visible (mem_exchangesOf.mpr ⟨t, hmem⟩) (by simp) rfl
    rw [hempty] at hvis
    cases hvis
  rcases StoreCall.exec_recordReceived hstep with ⟨hb, _⟩ | ⟨_, hrow, _⟩
  · exact hb
  · rw [show (calls.request i).key = calls.key i from rfl, hnone] at hrow
    cases hrow

theorem fresh_of_visible {i : ι} {x : Exchange Eff.Answer}
    (h : Run (Performs calls.num ι) calls.pool db₀ tr p db)
    (hkeys : ∀ i j, calls.key i = calls.key j → i = j)
    (h₀ : db₀.requests.find? (calls.key i) = none) (hstore : StoreSucceeds (exchangesOf i tr))
    (hx : x ∈ visible (exchangesOf i tr)) : calls.received i true ∈ exchangesOf i tr := by
  obtain ⟨verdict, seenAt, pre, fin, o, rest, htr, _⟩ := visible_of_steps (h.steps i)
  have hmem := received_mem htr hx
  obtain ⟨b, hb⟩ := hstore _ _ hmem
  rw [hb] at hmem
  have hfresh : b = true := received_true h hkeys h₀ hmem
  rw [hfresh] at hmem
  exact hmem

theorem noStrayCompletion (h : Run (Performs calls.num ι) calls.pool db₀ tr p db)
    (hkeys : ∀ i j, calls.key i = calls.key j → i = j)
    (h₀ : ∀ i, db₀.requests.find? (calls.key i) = none) : calls.NoStrayCompletion db₀ tr := by
  intro pre i now finalState response errorCode post s htr hpre hrow
  by_contra hnone
  have habsent : s.requests.find? (calls.key i) = none := by
    refine row_absent (htr ▸ run_proper h).left hpre (h₀ i) fun j t hj hmem ↦ hnone ⟨t, ?_⟩
    rwa [hkeys j i hj] at hmem
  rw [habsent] at hrow
  cases hrow

theorem completion_unique {i : ι} {t t' : ℚ} {finalState finalState' : FinalState}
    {response response' : Option Response} {errorCode errorCode' : Option String}
    (h : Run (Performs calls.num ι) calls.pool db₀ tr p db)
    (hmem : .task i t (calls.completion i finalState response errorCode) ∈ tr)
    (hmem' : .task i t' (calls.completion i finalState' response' errorCode') ∈ tr) :
    t = t' ∧ finalState = finalState' ∧ response = response' ∧ errorCode = errorCode' := by
  have twice {t t' : ℚ} {finalState finalState' : FinalState}
      {response response' : Option Response} {errorCode errorCode' : Option String}
      (horder : ∃ a b c, tr = a ++ .task i t (calls.completion i finalState response errorCode) ::
        (b ++ .task i t' (calls.completion i finalState' response' errorCode') :: c)) : False := by
    obtain ⟨a, b, c, htr⟩ := horder
    have hsplit : tr = (a ++ .task i t (calls.completion i finalState response errorCode) :: b ++
        [.task i t' (calls.completion i finalState' response' errorCode')]) ++ c := by simp [htr]
    obtain ⟨p', s, hrun⟩ := (hsplit ▸ h).left
    exact completes_once hrun ⟨t, finalState, response, errorCode, by simp⟩
  rcases mem_order hmem hmem' with heq | horder | horder
  · cases heq
    exact ⟨rfl, rfl, rfl, rfl⟩
  · exact (twice horder).elim
  · exact (twice horder).elim

theorem completed_row {i : ι} {t' : ℚ} {finalState : FinalState} {response : Option Response}
    {errorCode : Option String} (h : Run (Performs calls.num ι) calls.pool db₀ tr p db)
    (hkeys : ∀ i j, calls.key i = calls.key j → i = j) (hstray : calls.NoStrayCompletion db₀ tr)
    (hkept : calls.RowKept db₀ (calls.key i) tr)
    (hfresh : calls.received i true ∈ exchangesOf i tr)
    (hdone : .task i t' (calls.completion i finalState response errorCode) ∈ tr) :
    ∃ t, .task i t (calls.received i true) ∈ tr ∧ db.requests.find? (calls.key i) =
      some ((calls.pendingRow i t).complete t' finalState errorCode response) := by
  obtain ⟨t, hfresh⟩ := mem_exchangesOf.mp hfresh
  have hsome : (db.requests.find? (calls.key i)).isSome := by
    obtain ⟨pre, post, rfl⟩ := List.append_of_mem hfresh
    obtain ⟨s, hpre, hrest⟩ := Evolves.append_iff.mp h.evolves
    obtain ⟨s', hstep, hpost⟩ := Evolves.cons_iff.mp hrest
    have hrow : (s'.requests.find? (calls.key i)).isSome := by
      rcases StoreCall.exec_recordReceived hstep with ⟨_, _, hrows, _⟩ | ⟨hne, _⟩
      · rw [hrows, if_pos rfl]
        rfl
      · cases hne
    rw [← List.singleton_append, ← List.append_assoc] at hkept
    exact row_stays (run_proper h).right.tail hkept (.step hpre hstep) hpost hrow
  obtain ⟨row, hrow⟩ := Option.isSome_iff_exists.mp hsome
  rcases (tidy_of_run h hstray).rows _ _ hrow with ⟨_, hnone⟩ | ⟨j, t, since, howner, hmade⟩
  · exact absurd hfresh (hnone i t rfl)
  · obtain ⟨hj, ⟨pre, htr⟩, _⟩ := howner
    have hij := hkeys j i hj
    subst hij
    refine ⟨t, by rw [htr]; simp, ?_⟩
    rcases hmade with ⟨_, hnot⟩ | ⟨t'', finalState', response', errorCode', hmem, hrow'⟩
    · refine absurd ⟨t', finalState, response, errorCode, ?_⟩ hnot
      have hsteps := h.steps j
      rw [htr, exchangesOf_append, exchangesOf_task_self] at hsteps
      have hempty := (recordReceived_first hsteps).1
      rw [htr] at hdone
      rcases List.mem_append.mp hdone with hdone | hdone
      · have hpast : calls.completion j finalState response errorCode ∈ exchangesOf j pre :=
          mem_exchangesOf.mpr ⟨t', hdone⟩
        have hvis := mem_visible hpast (by simp) rfl
        rw [hempty] at hvis
        cases hvis
      · rcases List.mem_cons.mp hdone with heq | hdone
        · cases heq
        · exact hdone
    · obtain ⟨rfl, rfl, rfl, rfl⟩ := completion_unique h hdone
        (htr ▸ List.mem_append_right _ (List.mem_cons_of_mem _ hmem))
      rw [hrow, hrow']

/-- Calls with distinct keys that have no row and no event yet: whatever the
handlers and `emit` do and however the calls interleave, every finished call has
lived its own lifecycle, and its row and log are those it leaves behind alone. -/
theorem lifecycle_as_alone (h : Run (Performs calls.num ι) calls.pool db₀ tr p db)
    (hkeys : ∀ i j, calls.key i = calls.key j → i = j)
    (hrow₀ : ∀ i, db₀.requests.find? (calls.key i) = none)
    (hlog₀ : ∀ i, ∀ row ∈ db₀.requestEvents, row.key ≠ calls.key i)
    (hstore : ∀ i, StoreSucceeds (exchangesOf i tr)) (hpurge : NoPurge tr)
    (hanswers : ∀ i handler, calls.router.resolve (calls.request i).type = some handler →
      handler.Answers (calls.request i))
    {i : ι} {o : Except PyExc Unit} (hdone : p i = ofOutcome o) :
    o = .ok () ∧ (∃ verdict emitted, calls.Lived tr db i verdict emitted) ∧
      ∃ m, Evolves (Performs calls.num ι) db₀ (ownRecords i tr) m ∧ Agree (calls.key i) db m := by
  have hproper := run_proper h
  have hcourse := wp_iff.mp (processRequest_course _ _ _) _ _ (hdone ▸ h.steps i)
  have hfresh : calls.received i true ∈ exchangesOf i tr := by
    obtain ⟨verdict, seenAt, pre, fin, o₁, htr, _⟩ := hcourse.form
    exact fresh_of_visible h hkeys (hrow₀ i) (hstore i) (htr ▸ List.mem_cons_self)
  obtain ⟨verdict, emitted, ho, hverdict, hdecided, hemissions, hstates, hcompletion⟩ :=
    hcourse.unfailing (hstore i) hfresh
  have hlog : db.requestEvents.filter (fun row ↦ decide (row.key = calls.key i)) =
      (stampedOf i tr).filterMap fun tx ↦ loggedRow tx.1 tx.2 := by
    have hnone : db₀.requestEvents.filter (fun row ↦ decide (row.key = calls.key i)) = [] :=
      List.filter_eq_nil_iff.mpr fun row hrow ↦ by simpa using hlog₀ i row hrow
    rw [requestEvents_of_evolves hproper hpurge h.evolves, List.filter_append, hnone,
      List.nil_append, loggedRows_key hproper hkeys i]
  refine ⟨ho, ⟨verdict, emitted, hverdict, hdecided, hemissions,
    hdecided.answers (hanswers i),
    hlog, ?_, ?_⟩, evolves_alone hproper hpurge hkeys i h.evolves⟩
  · rw [hlog, map_loggedRow, map_snd_stampedOf, hstates]
    · rw [map_snd_stampedOf]
      exact hstore i
    · intro rq t hmem
      rw [map_snd_stampedOf] at hmem
      obtain ⟨now, hmem'⟩ := mem_exchangesOf.mp hmem
      cases hproper i now _ hmem'
      cases received_true h hkeys (hrow₀ i) hmem
  · obtain ⟨t', hcompletion⟩ := mem_exchangesOf.mp hcompletion
    obtain ⟨t, hmem, hrow⟩ := completed_row h hkeys (noStrayCompletion h hkeys hrow₀)
      (hpurge.rowKept _) hfresh hcompletion
    exact ⟨t, t', mem_stampedOf.mpr hmem, mem_stampedOf.mpr hcompletion, hrow⟩

end Run

end Calls

/-- Two nodes that send a ping under the same id. -/
def twins : Calls Bool where
  num := .plain
  policy := {}
  router := pair.router
  request
    | true => .simple "r1" "ping" "node-a" length_r1 length_ping length_nodeA
    | false => .simple "r1" "ping" "node-b" length_r1 length_ping length_nodeB

/-- The two calls take turns. -/
def twinsRun : List (Happening Bool) × (Bool → Prog Unit) × Db :=
  twins.played (fun _ _ ↦ none) Db.empty (List.replicate 10 [(true, 1), (false, 2)]).flatten

/-- The ping of `node-b` has gone through its lifecycle beside that of `node-a`. -/
theorem twin_lives_as_alone :
    (∃ verdict emitted, twins.Lived twinsRun.1 twinsRun.2.2 false verdict emitted) ∧
      ∃ m, Evolves (Performs twins.num Bool) Db.empty (Calls.ownRecords false twinsRun.1) m ∧
        Calls.Agree (twins.key false) twinsRun.2.2 m := by
  have hquiet : ∀ i, (exchangesOf i twinsRun.1).all (fun x ↦ (x.1.raised? x.2).isNone) = true := by
    intro i
    cases i <;> rfl
  have hstore : ∀ i, StoreSucceeds (exchangesOf i twinsRun.1) := by
    intro i c r hmem
    have hnone := List.all_eq_true.mp (hquiet i) _ hmem
    cases r with
    | ok a => exact ⟨a, rfl⟩
    | error err => cases hnone
  have hpurge : Calls.NoPurge twinsRun.1 := fun now x hmem ↦
    absurd hmem (twins.env_not_mem_played _ _ _ now x)
  have hkeys : ∀ i j, twins.key i = twins.key j → i = j := by decide
  have hdone : twinsRun.2.1 false = ofOutcome (.ok ()) := rfl
  obtain ⟨_, hlived, halone⟩ := Calls.lifecycle_as_alone (twins.played_run _ _ _) hkeys
    (fun _ ↦ rfl) (fun _ row hrow ↦ by cases hrow) hstore hpurge
    (fun i handler hrouter ↦ Handlers.defaultRouter_answers _ _ hrouter _) hdone
  exact ⟨hlived, halone⟩

end MeshcoreRpc
