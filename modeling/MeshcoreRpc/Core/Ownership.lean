import MeshcoreRpc.Core.Runs

/-!
# Who writes a row

The finalizer addresses a row by its key, not by its call.  As long as only
fresh calls complete rows, every row is what its owner made it: the last call
with its key whose `record_received` returned true.
-/

namespace MeshcoreRpc

open Tables Coroutine Coro Interleaving

namespace Calls

variable {ι : Type} {calls : Calls ι} {db₀ db : Db} {tr : List (Happening ι)}

/-- The call `i` is the last one for `k` whose `record_received` returned true,
at the time `t`; `since` is what has happened since. -/
def Owner (calls : Calls ι) (tr : List (Happening ι)) (k : RequestKey) (i : ι) (t : ℚ)
    (since : List (Happening ι)) : Prop :=
  calls.key i = k ∧ (∃ pre, tr = pre ++ .task i t (calls.received i true) :: since) ∧
    ∀ j t', calls.key j = k → .task j t' (calls.received j true) ∉ since

/-- The row the call `i` made at the time `t`, before its completion. -/
abbrev pendingRow (calls : Calls ι) (i : ι) (t : ℚ) : RequestRow :=
  StoreCall.receivedRow t (calls.request i) (calls.ttl i)

def Completed (calls : Calls ι) (i : ι) (tr : List (Happening ι)) : Prop :=
  ∃ t finalState response errorCode,
    .task i t (calls.completion i finalState response errorCode) ∈ tr

theorem Completed.left {i : ι} {tr : List (Happening ι)} (h : calls.Completed i tr)
    (tr' : List (Happening ι)) : calls.Completed i (tr ++ tr') := by
  obtain ⟨t, finalState, response, errorCode, hmem⟩ := h
  exact ⟨t, finalState, response, errorCode, List.mem_append_left _ hmem⟩

/-- The row of `k` is the one the run started with, or the one its owner made:
pending until the owner has completed, and then with the owner's completion. -/
def MadeByOwner (calls : Calls ι) (db₀ : Db) (tr : List (Happening ι)) (k : RequestKey)
    (row : RequestRow) : Prop :=
  (db₀.requests.find? k = some row ∧
      ∀ i t, calls.key i = k → .task i t (calls.received i true) ∉ tr) ∨
    ∃ i t since, calls.Owner tr k i t since ∧
      ((row = calls.pendingRow i t ∧ ¬ calls.Completed i since) ∨
        ∃ t' finalState response errorCode,
          .task i t' (calls.completion i finalState response errorCode) ∈ since ∧
            row = (calls.pendingRow i t).complete t' finalState errorCode response)

/-- No call completes a row unless its own `record_received` returned true. -/
def NoStrayCompletion (calls : Calls ι) (db₀ : Db) (tr : List (Happening ι)) : Prop :=
  ∀ pre i now finalState response errorCode post s,
    tr = pre ++ .task i now (calls.completion i finalState response errorCode) :: post →
      Evolves (Performs calls.num ι) db₀ pre s → (s.requests.find? (calls.key i)).isSome →
        ∃ t, .task i t (calls.received i true) ∈ pre

structure Tidy (calls : Calls ι) (db₀ : Db) (tr : List (Happening ι)) (db : Db) : Prop where
  rows : ∀ k row, db.requests.find? k = some row → calls.MadeByOwner db₀ tr k row
  active : ∀ i t, .task i t (calls.received i true) ∈ tr → ¬ calls.Completed i tr →
    ∃ t since, calls.Owner tr (calls.key i) i t since ∧
      db.requests.find? (calls.key i) = some (calls.pendingRow i t)

theorem NoStrayCompletion.left {tr' : List (Happening ι)}
    (h : calls.NoStrayCompletion db₀ (tr ++ tr')) : calls.NoStrayCompletion db₀ tr := by
  intro pre i now finalState response errorCode post s htr
  exact h pre i now finalState response errorCode (post ++ tr') s
    (by rw [htr, List.append_assoc, List.cons_append])

theorem Owner.snoc {k : RequestKey} {i : ι} {t : ℚ} {since : List (Happening ι)}
    {ev : Happening ι} (h : calls.Owner tr k i t since)
    (hev : ∀ j t', calls.key j = k → ev ≠ .task j t' (calls.received j true)) :
    calls.Owner (tr ++ [ev]) k i t (since ++ [ev]) := by
  obtain ⟨hk, ⟨pre, rfl⟩, hsince⟩ := h
  refine ⟨hk, ⟨pre, by simp⟩, fun j t' hj hmem ↦ ?_⟩
  rcases List.mem_append.mp hmem with hmem | hmem
  · exact hsince j t' hj hmem
  · exact hev j t' hj (List.mem_singleton.mp hmem).symm

theorem Owner.unique {k : RequestKey} {i j : ι} {t t' : ℚ} {since since' : List (Happening ι)}
    (h : calls.Owner tr k i t since) (h' : calls.Owner tr k j t' since') : i = j := by
  obtain ⟨hi, ⟨pre, htr⟩, hsince⟩ := h
  obtain ⟨hj, ⟨pre', htr'⟩, hsince'⟩ := h'
  rw [htr] at htr'
  rcases List.append_eq_append_iff.mp htr' with ⟨l, _, hl⟩ | ⟨l, _, hl⟩
  · cases l with
    | nil =>
        cases (List.cons.inj hl).1
        rfl
    | cons a l =>
        obtain ⟨_, rfl⟩ := List.cons.inj hl
        exact absurd (by simp) (hsince j t' hj)
  · cases l with
    | nil =>
        cases (List.cons.inj hl).1
        rfl
    | cons a l =>
        obtain ⟨_, rfl⟩ := List.cons.inj hl
        exact absurd (by simp) (hsince' i t hi)

/-- An event that neither makes the row of `k` nor completes it for its owner
leaves it made by its owner. -/
theorem MadeByOwner.snoc {k : RequestKey} {row : RequestRow} {ev : Happening ι}
    (h : calls.MadeByOwner db₀ tr k row)
    (hfresh : ∀ j t', calls.key j = k → ev ≠ .task j t' (calls.received j true))
    (hcompleted : ∀ j t' finalState response errorCode, calls.key j = k →
      ev ≠ .task j t' (calls.completion j finalState response errorCode)) :
    calls.MadeByOwner db₀ (tr ++ [ev]) k row := by
  rcases h with ⟨h₀, hnone⟩ | ⟨i, t, since, howner, hrow⟩
  · refine .inl ⟨h₀, fun i t hi hmem ↦ ?_⟩
    rcases List.mem_append.mp hmem with hmem | hmem
    · exact hnone i t hi hmem
    · exact hfresh i t hi (List.mem_singleton.mp hmem).symm
  · refine .inr ⟨i, t, since ++ [ev], howner.snoc hfresh, ?_⟩
    rcases hrow with ⟨hrow, hnot⟩ | ⟨t', finalState, response, errorCode, hmem, hrow⟩
    · refine .inl ⟨hrow, fun ⟨t', finalState, response, errorCode, hmem⟩ ↦ ?_⟩
      rcases List.mem_append.mp hmem with hmem | hmem
      · exact hnot ⟨t', finalState, response, errorCode, hmem⟩
      · exact hcompleted i t' finalState response errorCode howner.1
          (List.mem_singleton.mp hmem).symm
    · exact .inr ⟨t', finalState, response, errorCode, List.mem_append_left _ hmem, hrow⟩

/-! ## Every row is as its owner made it -/

/-- The owner of a key that completes for the first time finds its row pending. -/
theorem Tidy.owner_completes {i : ι} {now : ℚ} {finalState : FinalState}
    {response : Option Response} {errorCode : Option String} {s : Db} {row : RequestRow}
    (htidy : calls.Tidy db₀ tr s)
    (hstray : calls.NoStrayCompletion db₀
      (tr ++ [.task i now (calls.completion i finalState response errorCode)]))
    (hevolves : Evolves (Performs calls.num ι) db₀ tr s)
    (honce : ¬ calls.Completed i tr) (hrow : s.requests.find? (calls.key i) = some row) :
    ∃ t since, calls.Owner tr (calls.key i) i t since ∧ row = calls.pendingRow i t := by
  obtain ⟨t, hfresh⟩ := hstray tr i now finalState response errorCode [] s rfl hevolves
    (by rw [hrow]; rfl)
  obtain ⟨t, since, howner, hpending⟩ := htidy.active i t hfresh honce
  exact ⟨t, since, howner, Option.some.inj (hrow.symm.trans hpending)⟩

/-- An event that adds no row, completes none and leaves pending rows alone. -/
theorem Tidy.keep {ev : Happening ι} {s s' : Db} (htidy : calls.Tidy db₀ tr s)
    (hrows : ∀ k row, s'.requests.find? k = some row → s.requests.find? k = some row)
    (hpending : ∀ k row, row.completedAt = none → s.requests.find? k = some row →
      s'.requests.find? k = some row)
    (hfresh : ∀ j t', ev ≠ .task j t' (calls.received j true))
    (hcompleted : ∀ j t' finalState response errorCode,
      ev ≠ .task j t' (calls.completion j finalState response errorCode)) :
    calls.Tidy db₀ (tr ++ [ev]) s' where
  rows k row hrow := (htidy.rows k row (hrows k row hrow)).snoc (fun j t' _ ↦ hfresh j t')
    fun j t' finalState response errorCode _ ↦ hcompleted j t' finalState response errorCode
  active i t hmem hnot := by
    have hmem' : .task i t (calls.received i true) ∈ tr := by
      rcases List.mem_append.mp hmem with hmem | hmem
      · exact hmem
      · exact absurd (List.mem_singleton.mp hmem).symm (hfresh i t)
    obtain ⟨t, since, howner, hrow⟩ := htidy.active i t hmem' fun hdone ↦ hnot (hdone.left _)
    exact ⟨t, since ++ [ev], howner.snoc fun j t' _ ↦ hfresh j t', hpending _ _ rfl hrow⟩

theorem Tidy.fresh {j : ι} {now : ℚ} {s s' : Db} (htidy : calls.Tidy db₀ tr s)
    (hfree : s.requests.find? (calls.key j) = none)
    (hrows : ∀ k, s'.requests.find? k = if k = calls.key j then
      some (calls.pendingRow j now) else s.requests.find? k) :
    calls.Tidy db₀ (tr ++ [.task j now (calls.received j true)]) s' := by
  have howner : calls.Owner (tr ++ [.task j now (calls.received j true)]) (calls.key j) j now [] :=
    ⟨rfl, ⟨tr, rfl⟩, by simp⟩
  have hother {k : RequestKey} (hk : k ≠ calls.key j) (i : ι) (t : ℚ) (hi : calls.key i = k) :
      (.task j now (calls.received j true) : Happening ι) ≠ .task i t (calls.received i true) := by
    intro heq
    injection heq with hij
    exact hk (by rw [hij, hi])
  refine ⟨fun k row hrow ↦ ?_, fun i t hmem hnot ↦ ?_⟩
  · rw [hrows] at hrow
    by_cases hk : k = calls.key j
    · rw [if_pos hk] at hrow
      cases hrow
      subst hk
      refine .inr ⟨j, now, [], howner, .inl ⟨rfl, ?_⟩⟩
      rintro ⟨t, fs, resp, ec, hmem⟩
      cases hmem
    · rw [if_neg hk] at hrow
      refine (htidy.rows k row hrow).snoc (hother hk) fun i t fs resp ec _ heq ↦ ?_
      injection heq with _ _ hx
      injection hx with he
      cases he
  · rcases List.mem_append.mp hmem with hmem | hmem
    · obtain ⟨t, since, howner', hrow⟩ := htidy.active i t hmem fun hdone ↦ hnot (hdone.left _)
      have hk : calls.key i ≠ calls.key j := by
        intro hk
        rw [hk, hfree] at hrow
        cases hrow
      refine ⟨t, _, howner'.snoc (hother hk), ?_⟩
      rw [hrows, if_neg hk, hrow]
    · have heq := List.mem_singleton.mp hmem
      injection heq with hij
      subst hij
      exact ⟨now, [], howner, by rw [hrows, if_pos rfl]⟩

theorem Tidy.completed {j : ι} {now : ℚ} {finalState : FinalState} {response : Option Response}
    {errorCode : Option String} {s s' : Db} (htidy : calls.Tidy db₀ tr s)
    (hrows : ∀ k, s'.requests.find? k = if k = calls.key j then
      (s.requests.find? k).map (RequestRow.complete now finalState errorCode response)
      else s.requests.find? k)
    (hstray : calls.NoStrayCompletion db₀
      (tr ++ [.task j now (calls.completion j finalState response errorCode)]))
    (hevolves : Evolves (Performs calls.num ι) db₀ tr s) (honce : ¬ calls.Completed j tr) :
    calls.Tidy db₀ (tr ++ [.task j now (calls.completion j finalState response errorCode)]) s' := by
  have hfresh (i : ι) (t : ℚ) :
      (.task j now (calls.completion j finalState response errorCode) : Happening ι) ≠
        .task i t (calls.received i true) := by
    intro heq
    injection heq with _ _ hx
    injection hx with he
    cases he
  refine ⟨fun k row hrow ↦ ?_, fun i t hmem hnot ↦ ?_⟩
  · rw [hrows] at hrow
    by_cases hk : k = calls.key j
    · subst hk
      rw [if_pos rfl] at hrow
      obtain ⟨old, hold, rfl⟩ := Option.map_eq_some_iff.mp hrow
      obtain ⟨t, since, howner, rfl⟩ := htidy.owner_completes hstray hevolves honce hold
      exact .inr ⟨j, t, _, howner.snoc fun i t' _ ↦ hfresh i t',
        .inr ⟨now, finalState, response, errorCode, by simp, rfl⟩⟩
    · rw [if_neg hk] at hrow
      refine (htidy.rows k row hrow).snoc (fun i t _ ↦ hfresh i t) fun i t fs resp ec hi heq ↦ ?_
      injection heq with hij
      exact hk (by rw [hij, hi])
  · have hmem' : .task i t (calls.received i true) ∈ tr := by
      rcases List.mem_append.mp hmem with hmem | hmem
      · exact hmem
      · exact absurd (List.mem_singleton.mp hmem).symm (hfresh i t)
    obtain ⟨t, since, howner, hrow⟩ := htidy.active i t hmem' fun hdone ↦ hnot (hdone.left _)
    have hk : calls.key i ≠ calls.key j := by
      intro hk
      obtain ⟨t', since', howner', _⟩ := htidy.owner_completes hstray hevolves honce (hk ▸ hrow)
      have hij : i = j := (hk ▸ howner : calls.Owner tr (calls.key j) i t since).unique howner'
      subst hij
      exact hnot ⟨now, finalState, response, errorCode, by simp⟩
    refine ⟨t, _, howner.snoc fun i t' _ ↦ hfresh i t', ?_⟩
    rw [hrows, if_neg hk, hrow]

theorem Tidy.step {ev : Happening ι} {s s' : Db} (htidy : calls.Tidy db₀ tr s)
    (hchange : calls.Change s s' ev) (hstray : calls.NoStrayCompletion db₀ (tr ++ [ev]))
    (hevolves : Evolves (Performs calls.num ι) db₀ tr s)
    (honce : ∀ i now finalState response errorCode,
      ev = .task i now (calls.completion i finalState response errorCode) →
        ¬ calls.Completed i tr) :
    calls.Tidy db₀ (tr ++ [ev]) s' := by
  cases hchange with
  | fresh i now hfree hrows hevents => exact htidy.fresh hfree hrows
  | completed i now finalState response errorCode hrows hevents =>
      exact htidy.completed hrows hstray hevolves (honce i now finalState response errorCode rfl)
  | known i now hrow hdb =>
      subst hdb
      exact htidy.keep (fun _ _ h ↦ h) (fun _ _ _ h ↦ h) (by simp) (by simp)
  | logged i now state detail hrows hevents =>
      refine htidy.keep (fun k row h ↦ ?_) (fun k row _ h ↦ ?_) (by simp) (by simp)
      · rwa [hrows] at h
      · rwa [hrows]
  | purged now cutoff n hc hrows hevents =>
      refine htidy.keep (fun k row h ↦ ?_) (fun k row hnone h ↦ ?_) (by simp) (by simp)
      · rw [hrows] at h
        exact (Option.filter_eq_some_iff.mp h).1
      · rw [hrows, h, Option.filter_some, if_pos (by simp [RequestRow.expired, hnone])]
  | quiet _ hev hrows hevents =>
      refine htidy.keep (fun k row h ↦ ?_) (fun k row _ h ↦ ?_) (fun j t heq ↦ ?_)
        fun j t fs resp ec heq ↦ ?_
      · rwa [hrows] at h
      · rwa [hrows]
      · cases hev j t _ heq
      · cases hev j t _ heq

section Run

variable [DecidableEq ι] {p : ι → Prog Unit}

theorem completes_once {i : ι} {now : ℚ} {finalState : FinalState} {response : Option Response}
    {errorCode : Option String}
    (h : Run (Performs calls.num ι) calls.pool db₀
      (tr ++ [.task i now (calls.completion i finalState response errorCode)]) p db) :
    ¬ calls.Completed i tr := by
  rintro ⟨t, fs, resp, ec, hmem⟩
  obtain ⟨pre, post, rfl⟩ := List.append_of_mem hmem
  have hsteps := h.steps i
  rw [List.append_assoc, List.cons_append, exchangesOf_append, exchangesOf_task_self,
    exchangesOf_append, exchangesOf_task_self] at hsteps
  have hlast := recordCompletion_last hsteps rfl
  simp at hlast

theorem tidy_of_run (h : Run (Performs calls.num ι) calls.pool db₀ tr p db)
    (hstray : calls.NoStrayCompletion db₀ tr) : calls.Tidy db₀ tr db := by
  induction tr using List.reverseRecOn generalizing p db with
  | nil =>
      rw [Evolves.nil_iff.mp h.evolves]
      refine ⟨fun k row hrow ↦ .inl ⟨hrow, by simp⟩, by simp⟩
  | append_singleton tr ev ih =>
      obtain ⟨p', s, hpast, hstep⟩ := h.init
      refine (ih hpast hstray.left).step (change_of_performs (run_proper h) hstep) hstray
        hpast.evolves ?_
      rintro i now finalState response errorCode rfl
      exact completes_once h

/-- As long as only fresh calls complete rows, every row is what its owner makes
it, and a step of a call leaves every row as it is unless it is the owner
completing its own pending row. -/
theorem rows_written_by_owner (h : Run (Performs calls.num ι) calls.pool db₀ tr p db)
    (hstray : calls.NoStrayCompletion db₀ tr) :
    (∀ k row, db.requests.find? k = some row → calls.MadeByOwner db₀ tr k row) ∧
    ∀ pre j now x post s s', tr = pre ++ .task j now x :: post →
      Evolves (Performs calls.num ι) db₀ pre s → Performs calls.num ι s (.task j now x) s' →
      ∀ k row, s.requests.find? k = some row →
        s'.requests.find? k = some row ∨
          ∃ t since finalState response errorCode, calls.Owner pre k j t since ∧
            row = calls.pendingRow j t ∧ x = calls.completion j finalState response errorCode ∧
            s'.requests.find? k = some (row.complete now finalState errorCode response) := by
  refine ⟨(tidy_of_run h hstray).rows, ?_⟩
  intro pre j now x post s s' htr hpre hstep k row hrow
  have hsplit : tr = (pre ++ [.task j now x]) ++ post := by simp [htr]
  obtain ⟨p', s₁, hnow⟩ := (hsplit ▸ h).left
  obtain ⟨p'', s₂, hpast, _⟩ := hnow.init
  have hstray' : calls.NoStrayCompletion db₀ (pre ++ [.task j now x]) := (hsplit ▸ hstray).left
  have hs : s₂ = s := Evolves.unique performs_unique hpast.evolves hpre
  subst hs
  have htidy := tidy_of_run hpast hstray'.left
  cases change_of_performs (run_proper hnow) hstep with
  | fresh _ _ hfree hrows hevents =>
      left
      rw [hrows, if_neg, hrow]
      rintro rfl
      rw [hfree] at hrow
      cases hrow
  | known _ _ _ hdb =>
      left
      rw [hdb, hrow]
  | logged _ _ state detail hrows hevents =>
      left
      rw [hrows, hrow]
  | completed _ _ finalState response errorCode hrows hevents =>
      by_cases hk : k = calls.key j
      · subst hk
        obtain ⟨t', since, howner, hpending⟩ :=
          htidy.owner_completes hstray' hpast.evolves (completes_once hnow) hrow
        refine .inr ⟨t', since, finalState, response, errorCode, howner, hpending, rfl, ?_⟩
        rw [hrows, if_pos rfl, hrow, Option.map_some]
      · left
        rw [hrows, if_neg hk, hrow]
  | quiet _ hev hrows hevents =>
      left
      rw [hrows, hrow]

end Run

end Calls

def completions {ι : Type} (tr : List (Happening ι)) : List (ι × FinalState) :=
  tr.filterMap fun
    | .task i _ ⟨.store (.recordCompletion _ _ finalState _ _), _⟩ => some (i, finalState)
    | _ => none

theorem mem_completions {ι : Type} {calls : Calls ι} {tr : List (Happening ι)} {i : ι} {t : ℚ}
    {finalState : FinalState} {response : Option Response} {errorCode : Option String}
    (h : .task i t (calls.completion i finalState response errorCode) ∈ tr) :
    (i, finalState) ∈ completions tr :=
  List.mem_filterMap.mpr ⟨_, h, rfl⟩

def freshCalls {ι : Type} (tr : List (Happening ι)) : List ι :=
  tr.filterMap fun
    | .task i _ ⟨.store (.recordReceived ..), Except.ok true⟩ => some i
    | _ => none

theorem mem_freshCalls {ι : Type} {calls : Calls ι} {tr : List (Happening ι)} {i : ι} {t : ℚ}
    (h : .task i t (calls.received i true) ∈ tr) : i ∈ freshCalls tr :=
  List.mem_filterMap.mpr ⟨_, h, rfl⟩

/-- While the duplicate has not reached its finalizer, the row is the one the
first ping made. -/
theorem first_ping_owns_row :
    ∃ row, (pairRun 4).2.2.requests.find? samplePing.key = some row ∧
      row.finalState = some .completedOk ∧
      pair.MadeByOwner Db.empty (pairRun 4).1 samplePing.key row := by
  have hfind : (pairRun 4).2.2.requests.find? samplePing.key =
      some ((pairRun 4).2.2.requests.rows.head (by decide)) := rfl
  refine ⟨_, hfind, rfl, (Calls.rows_written_by_owner (pairRun_run 4) ?_).1 _ _ hfind⟩
  intro pre i now finalState response errorCode post s htr _ _
  have hfirst : (pairRun 4).1 =
      .task true 1 (pair.received true true) :: (pairRun 4).1.tail := rfl
  have hcompletions : completions (pairRun 4).1 = [(true, .completedOk)] := rfl
  have hi := mem_completions (htr ▸ List.mem_append_right pre List.mem_cons_self)
  rw [hcompletions] at hi
  cases List.mem_singleton.mp hi
  cases pre with
  | nil =>
      rw [hfirst] at htr
      cases (List.cons.inj htr).1
  | cons ev pre =>
      rw [hfirst, List.cons_append] at htr
      rw [← (List.cons.inj htr).1]
      exact ⟨1, List.mem_cons_self⟩

/-- Once the duplicate has been answered the row of the first ping, completed ok,
reads `completed_error`. -/
theorem duplicate_overwrites_row :
    ¬ ∀ tr p db, Run (Performs pair.num Bool) pair.pool Db.empty tr p db →
      ∀ k row, db.requests.find? k = some row → pair.MadeByOwner Db.empty tr k row := by
  intro h
  have hfind : (pairRun 5).2.2.requests.find? samplePing.key =
      some ((pairRun 5).2.2.requests.rows.head (by decide)) := rfl
  have hstate : ((pairRun 5).2.2.requests.rows.head (by decide)).finalState =
      some .completedError := rfl
  rcases h _ _ _ (pairRun_run 5) _ _ hfind with ⟨h₀, _⟩ | ⟨i, t, since, ⟨_, ⟨pre, htr⟩, _⟩, hrow⟩
  · cases h₀
  · have hfresh : freshCalls (pairRun 5).1 = [true] := rfl
    have hi := mem_freshCalls (htr ▸ List.mem_append_right pre List.mem_cons_self)
    rw [hfresh] at hi
    cases List.mem_singleton.mp hi
    rcases hrow with ⟨hrow, _⟩ | ⟨t', finalState, response, errorCode, hmem, hrow⟩
    · rw [hrow] at hstate
      cases hstate
    · have hcompletions : completions (pairRun 5).1 =
          [(true, .completedOk), (false, .completedError)] := rfl
      have hmem' := mem_completions
        (htr ▸ List.mem_append_right pre (List.mem_cons_of_mem _ hmem))
      rw [hcompletions] at hmem'
      rw [hrow] at hstate
      cases hstate
      simp at hmem'

end MeshcoreRpc
