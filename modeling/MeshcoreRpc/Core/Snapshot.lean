import MeshcoreRpc.Core.Counters

/-!
# Counts taken while calls go on

`Store.counts` asks the database twice.  What is completed in between is counted
under no state, or would be under two; where nothing is, the counts are those of
the state that the second query finds.
-/

namespace MeshcoreRpc

open Tables Coroutine Coro Interleaving

/-- The exchange of a store call made beside the calls. -/
abbrev awaited (x : Background) : Exchange Eff.Answer := ⟨.store x.1.1, x.1.2⟩

namespace Db

/-- The request `k` has the final state `state`. -/
def EndedAs (db : Db) (k : RequestKey) (state : FinalState) : Prop :=
  ∃ row, db.requests.find? k = some row ∧ row.finalState = some state

variable {db db' : Db}

theorem inState_eq_ncard (state : FinalState) :
    db.inState (some state) = {k | db.EndedAs k state}.ncard := by
  rw [inState, ← Table.ncard_find?]
  congr 1
  ext k
  simp [EndedAs]

theorem inState_congr (h : ∀ k state, db.EndedAs k state ↔ db'.EndedAs k state)
    (state : FinalState) : db.inState (some state) = db'.inState (some state) := by
  rw [inState_eq_ncard, inState_eq_ncard]
  congr 1
  ext k
  exact h k state

theorem syncCountByFinalState_congr (h : ∀ k state, db.EndedAs k state ↔ db'.EndedAs k state) :
    db.syncCountByFinalState = db'.syncCountByFinalState := by
  have hcount (state : FinalState) :
      (db.requests.rows.countP fun row ↦ row.finalState = some state) =
        db'.requests.rows.countP fun row ↦ row.finalState = some state :=
    inState_congr h state
  simp only [syncCountByFinalState, hcount]

theorem inState_sum (db : Db) :
    db.inState none + db.inState (some .completedOk) + db.inState (some .completedError) =
      db.requests.rows.length := by
  unfold inState
  induction db.requests.rows with
  | nil => rfl
  | cons row rows ih =>
      simp only [List.countP_cons, List.length_cons]
      cases h : row.finalState with
      | none =>
          simp
          omega
      | some state =>
          cases state
          · simp
            omega
          · simp
            omega

end Db

theorem counts_answers {first second : Exchange Eff.Answer} {cs : List (String × PyVal)}
    (h : Steps Handlers.counts [first, second] (ofOutcome (.ok cs))) :
    ∃ (byState : List (String × ℕ)) (pending : ℕ),
      first = ⟨.store .countByFinalState, Except.ok byState⟩ ∧
        second = ⟨.store .countPending, Except.ok pending⟩ ∧
        cs = byState.map (fun kn ↦ (kn.1, .int kn.2)) ++ [("pending", .int pending)] := by
  have hwp : Handlers.counts.wp fun tr o ↦ ∀ cs, o = .ok cs →
      ∃ (byState : List (String × ℕ)) (pending : ℕ),
        tr = [⟨.store .countByFinalState, Except.ok byState⟩,
          ⟨.store .countPending, Except.ok pending⟩] ∧
        cs = byState.map (fun kn ↦ (kn.1, .int kn.2)) ++ [("pending", .int pending)] := by
    simp only [Handlers.counts, wp_bind, Prog.store, wp_await, wp_ofOutcome, wp_pure]
    intro byState
    cases byState with
    | error err => simp
    | ok byState =>
        simp only
        intro pending
        cases pending with
        | error err => simp
        | ok pending =>
            rintro cs ⟨⟩
            exact ⟨byState, pending, rfl, rfl⟩
  obtain ⟨byState, pending, htr, hcs⟩ := Coro.wp_iff.mp hwp _ _ h cs rfl
  obtain ⟨hfirst, hrest⟩ := List.cons.inj htr
  exact ⟨byState, pending, hfirst, (List.cons.inj hrest).1, hcs⟩

namespace Calls

variable {ι : Type} {calls : Calls ι} {db₀ s s' : Db} {past gap : List (Happening ι)}

/-- No completion in `gap` changes the final state of a row. -/
def KeepsFinalStates (calls : Calls ι) (db₀ : Db) (past gap : List (Happening ι)) : Prop :=
  ∀ pre i now finalState response errorCode post s row,
    gap = pre ++ .task i now (calls.completion i finalState response errorCode) :: post →
      Evolves (Performs calls.num ι) db₀ (past ++ pre) s →
        s.requests.find? (calls.key i) = some row → row.finalState = some finalState

theorem KeepsFinalStates.left {gap' : List (Happening ι)}
    (h : calls.KeepsFinalStates db₀ past (gap ++ gap')) : calls.KeepsFinalStates db₀ past gap := by
  intro pre i now finalState response errorCode post s row hgap
  exact h pre i now finalState response errorCode (post ++ gap') s row
    (by rw [hgap, List.append_assoc, List.cons_append])

theorem Change.endedAs {ev : Happening ι} (h : calls.Change s s' ev)
    (hpurge : ∀ now x, ev = .env now x → x.1.1.lifecycle = false)
    (hkeeps : ∀ i now finalState response errorCode row,
      ev = .task i now (calls.completion i finalState response errorCode) →
        s.requests.find? (calls.key i) = some row → row.finalState = some finalState)
    (k : RequestKey) (state : FinalState) : s'.EndedAs k state ↔ s.EndedAs k state := by
  have same (hrows : s'.requests = s.requests) : s'.EndedAs k state ↔ s.EndedAs k state := by
    rw [Db.EndedAs, Db.EndedAs, hrows]
  cases h with
  | fresh i now hfree hrows hevents =>
      by_cases hk : k = calls.key i
      · subst hk
        simp [Db.EndedAs, hrows, hfree, StoreCall.receivedRow]
      · simp [Db.EndedAs, hrows, hk]
  | known i now hrow hdb => exact same (by rw [hdb])
  | logged i now state detail hrows hevents => exact same hrows
  | completed i now finalState response errorCode hrows hevents =>
      by_cases hk : k = calls.key i
      · subst hk
        cases hrow : s.requests.find? (calls.key i) with
        | none => simp [Db.EndedAs, hrows, hrow]
        | some row =>
            have hfinal := hkeeps i now finalState response errorCode row rfl hrow
            simp [Db.EndedAs, hrows, hrow, hfinal, RequestRow.complete]
      · simp [Db.EndedAs, hrows, hk]
  | purged now cutoff n hc hrows hevents => cases hpurge now _ rfl
  | quiet ev hev hrows hevents => exact same hrows

theorem endedAs_of_gap (hproper : calls.Proper gap) (hpurge : NoPurge gap)
    (hkeeps : calls.KeepsFinalStates db₀ past gap)
    (hpast : Evolves (Performs calls.num ι) db₀ past s)
    (hgap : Evolves (Performs calls.num ι) s gap s') (k : RequestKey) (state : FinalState) :
    s'.EndedAs k state ↔ s.EndedAs k state := by
  induction hgap with
  | start => exact Iff.rfl
  | @step gap m m' ev before step ih =>
      have hm := ih hproper.left (fun now x hx ↦ hpurge now x (List.mem_append_left _ hx))
        hkeeps.left
      refine ((change_of_performs hproper step).endedAs ?_ ?_ k state).trans hm
      · rintro now x rfl
        exact hpurge now x (by simp)
      · rintro i now finalState response errorCode row rfl hrow
        exact hkeeps gap i now finalState response errorCode [] m row rfl
          (Evolves.append_iff.mpr ⟨s, hpast, before⟩) hrow

/-- The counts that `counts` has put together are those of a state between its
two queries. -/
def OfOneState (calls : Calls ι) (db₀ : Db) (past gap : List (Happening ι))
    (cs : List (String × PyVal)) : Prop :=
  ∃ gap₁ gap₂ s, gap = gap₁ ++ gap₂ ∧ Evolves (Performs calls.num ι) db₀ (past ++ gap₁) s ∧
    cs = s.countsOf ∧
    s.inState none + s.inState (some .completedOk) + s.inState (some .completedError) =
      s.requests.rows.length

variable [DecidableEq ι] {after : List (Happening ι)} {p : ι → Prog Unit} {db : Db}

/-- Counts taken beside any number of calls are those of one state between the
two queries, as long as no completion between them changes the final state of a
row. -/
theorem counts_of_one_state {t₁ t₂ : ℚ} {first second : Background}
    {cs : List (String × PyVal)}
    (h : Run (Performs calls.num ι) calls.pool db₀
      ((past ++ [.env t₁ first]) ++ gap ++ .env t₂ second :: after) p db)
    (hcounts : Steps Handlers.counts [awaited first, awaited second] (ofOutcome (.ok cs)))
    (hpurge : NoPurge gap)
    (hkeeps : calls.KeepsFinalStates db₀ (past ++ [.env t₁ first]) gap) :
    calls.OfOneState db₀ (past ++ [.env t₁ first]) gap cs := by
  obtain ⟨byState, pending, hfirst, hsecond, rfl⟩ := counts_answers hcounts
  obtain ⟨s₂, hbefore, hafter⟩ := Evolves.append_iff.mp h.evolves
  obtain ⟨s₁, hpast, hgap⟩ := Evolves.append_iff.mp hbefore
  obtain ⟨s₀, _, hquery₁⟩ := Evolves.snoc_iff.mp hpast
  obtain ⟨s₃, hquery₂, _⟩ := Evolves.cons_iff.mp hafter
  have hproper : calls.Proper gap := (run_proper h).left.right
  have hsame (k : RequestKey) (state : FinalState) : s₂.EndedAs k state ↔ s₁.EndedAs k state :=
    endedAs_of_gap hproper hpurge hkeeps hpast hgap k state
  have hbyState : byState = s₁.syncCountByFinalState := by
    obtain ⟨⟨c, r⟩, hc⟩ := first
    cases hfirst
    obtain ⟨hstate, hanswer⟩ := Prod.mk.inj (Except.ok.inj hquery₁)
    rw [← hanswer, hstate]
  have hpending : pending = s₂.syncCountPending := by
    obtain ⟨⟨c, r⟩, hc⟩ := second
    cases hsecond
    exact (Prod.mk.inj (Except.ok.inj hquery₂)).2.symm
  refine ⟨gap, [], s₂, (List.append_nil gap).symm, hbefore, ?_, s₂.inState_sum⟩
  rw [Db.countsOf, hbyState, hpending, Db.syncCountByFinalState_congr hsame]

end Calls

/-! ## One request and one count -/

/-- The first query of `Store.counts`, answering in the state `db`. -/
def asksByState (db : Db) : Background :=
  ⟨⟨.countByFinalState, Except.ok db.syncCountByFinalState⟩, .inl rfl⟩

/-- The second one. -/
def asksPending (db : Db) : Background :=
  ⟨⟨.countPending, Except.ok db.syncCountPending⟩, .inl rfl⟩

/-- The request takes `n` steps from where it has stopped. -/
def askingSteps (n : ℕ) (start : (Unit → Prog Unit) × Db) :
    List (Happening Unit) × (Unit → Prog Unit) × Db :=
  play (fun _ now e db ↦ e.respond .plain now (fun _ ↦ none) db) (List.replicate n ((), 1)) start

/-- Until the first query. -/
abbrev askingFirst (n : ℕ) : List (Happening Unit) × (Unit → Prog Unit) × Db :=
  askingSteps n (asking.pool, Db.empty)

/-- Between the queries. -/
abbrev askingGap (n m : ℕ) : List (Happening Unit) × (Unit → Prog Unit) × Db :=
  askingSteps m (askingFirst n).2

theorem askingSteps_run (n : ℕ) (start : (Unit → Prog Unit) × Db) :
    Run (Performs asking.num Unit) start.1 start.2 (askingSteps n start).1 (askingSteps n start).2.1
      (askingSteps n start).2.2 :=
  run_of_played rfl fun _ now e db ↦ e.respond_transition .plain now (fun _ ↦ none) db

theorem askingGap_run (n m : ℕ) :
    Run (Performs asking.num Unit) asking.pool Db.empty
      (((askingFirst n).1 ++ [.env 1 (asksByState (askingFirst n).2.2)]) ++ (askingGap n m).1 ++
        .env 1 (asksPending (askingGap n m).2.2) :: [])
      (askingGap n m).2.1 (askingGap n m).2.2 := by
  have hfirst := Run.env 1 (asksByState (askingFirst n).2.2) (askingSteps_run n _) rfl
  exact .env 1 (asksPending (askingGap n m).2.2) (hfirst.append (askingSteps_run m _)) rfl

theorem askingGap_counts {n m k : ℕ} (hby : (askingFirst n).2.2.syncCountByFinalState = [])
    (hpending : (askingGap n m).2.2.syncCountPending = k) :
    Steps Handlers.counts
      [awaited (asksByState (askingFirst n).2.2), awaited (asksPending (askingGap n m).2.2)]
      (ofOutcome (.ok [("pending", .int k)])) := by
  rw [asksByState, asksPending, hby, hpending]
  exact .answer _ _ _ (.answer _ _ _ (.refl _))

theorem askingGap_noPurge (n m : ℕ) : Calls.NoPurge (askingGap n m).1 := fun now x hmem ↦
  absurd hmem (env_not_mem_play _ _ _ _ now x)

def Event.finishes {ι : Type} : Happening ι → Bool
  | .task _ _ ⟨.store (.recordCompletion ..), _⟩ => true
  | _ => false

/-- While the request is in its handler the counts are right. -/
theorem handled_counted :
    asking.OfOneState Db.empty ((askingFirst 2).1 ++ [.env 1 (asksByState (askingFirst 2).2.2)])
      (askingGap 2 6).1 [("pending", .int 1)] := by
  have hquiet : (askingGap 2 6).1.all (fun ev ↦ !Event.finishes ev) = true := by decide +kernel
  have hby : (askingFirst 2).2.2.syncCountByFinalState = [] := by decide +kernel
  have hpending : (askingGap 2 6).2.2.syncCountPending = 1 := by decide +kernel
  refine Calls.counts_of_one_state (askingGap_run 2 6) (askingGap_counts hby hpending)
    (askingGap_noPurge 2 6) ?_
  intro pre i now finalState response errorCode post s row hgap
  have hmem : .task i now (asking.completion i finalState response errorCode) ∈ (askingGap 2 6).1 :=
    hgap ▸ List.mem_append_right _ List.mem_cons_self
  cases List.all_eq_true.mp hquiet _ hmem

/-- A request that completes between the two queries is not counted at all. -/
theorem completing_uncounted :
    ¬ ∀ (calls : Calls Unit) db₀ past gap after p db t₁ t₂ first second cs,
      Run (Performs calls.num Unit) calls.pool db₀
          ((past ++ [.env t₁ first]) ++ gap ++ .env t₂ second :: after) p db →
        Steps Handlers.counts [awaited first, awaited second] (ofOutcome (.ok cs)) →
          Calls.NoPurge gap → calls.OfOneState db₀ (past ++ [.env t₁ first]) gap cs := by
  intro h
  have hby : (askingFirst 8).2.2.syncCountByFinalState = [] := by decide +kernel
  have hnone : (askingGap 8 4).2.2.syncCountPending = 0 := by decide +kernel
  have hrun := askingGap_run 8 4
  have hpurge := askingGap_noPurge 8 4
  obtain ⟨gap₁, gap₂, s, hgap, hpast, hcs, hsum⟩ :=
    h asking _ _ _ _ _ _ _ _ _ _ _ hrun (askingGap_counts hby hnone) hpurge
  -- all the counts are zero, so the table of that state would be empty
  have hempty : s.requests.rows.length = 0 := by
    have hpending := s.count_pending
    have hok := s.count_finalState .completedOk
    have herr := s.count_finalState .completedError
    rw [← hcs] at hpending hok herr
    have h₀ : (0 : ℤ) = s.inState none := PyVal.int.inj hpending
    have h₁ : (0 : ℤ) = s.inState (some .completedOk) := PyVal.int.inj hok
    have h₂ : (0 : ℤ) = s.inState (some .completedError) := PyVal.int.inj herr
    omega
  -- but the row of the request was there before the first query
  obtain ⟨m, hm, hgap₁⟩ := Evolves.append_iff.mp hpast
  obtain ⟨m₀, hm₀, hquery⟩ := Evolves.snoc_iff.mp hm
  have hm₀' : m₀ = (askingFirst 8).2.2 :=
    Evolves.unique performs_unique hm₀ (askingSteps_run 8 (asking.pool, Db.empty)).evolves
  have hrow₀ : (m.requests.find? (asking.key ())).isSome := by
    rw [← (Prod.mk.inj (Except.ok.inj hquery)).1, hm₀']
    decide +kernel
  have hkept : Calls.NoPurge
      (((askingFirst 8).1 ++ [.env 1 (asksByState (askingFirst 8).2.2)]) ++ gap₁) := by
    intro now x hmem
    rcases List.mem_append.mp hmem with hmem | hmem
    · rcases List.mem_append.mp hmem with hmem | hmem
      · exact absurd hmem (env_not_mem_play _ _ _ _ now x)
      · cases List.mem_singleton.mp hmem
        rfl
    · exact hpurge now x (hgap ▸ List.mem_append_left _ hmem)
  have hproper : asking.Proper gap₁ := by
    have hall := (Calls.run_proper hrun).left.right
    rw [hgap] at hall
    exact hall.left
  have hrow := Calls.row_stays hproper (hkept.rowKept _) hm hgap₁ hrow₀
  obtain ⟨row, hfind⟩ := Option.isSome_iff_exists.mp hrow
  have hmem := (Table.find?_eq_some.mp hfind).1
  rw [List.eq_nil_of_length_eq_zero hempty] at hmem
  cases hmem

end MeshcoreRpc
