import MeshcoreRpc.Core.Runs

/-!
# One fresh call for each key

Whatever the order of the steps, one of the calls with the same key is treated
as fresh and the others as duplicates, as long as no purge takes the row away.
-/

namespace MeshcoreRpc

open Tables Coroutine Coro Interleaving

namespace Calls

variable {ι : Type} {calls : Calls ι} {db₀ db : Db} {tr : List (Happening ι)}

/-- No purge in the run takes the row of `k` away. -/
def RowKept (calls : Calls ι) (db₀ : Db) (k : RequestKey) (tr : List (Happening ι)) : Prop :=
  ∀ pre now x post s s', tr = pre ++ .env now x :: post →
    Evolves (Performs calls.num ι) db₀ pre s → Performs calls.num ι s (.env now x) s' →
      (s.requests.find? k).isSome → (s'.requests.find? k).isSome

theorem RowKept.left {k : RequestKey} {tr' : List (Happening ι)}
    (h : calls.RowKept db₀ k (tr ++ tr')) : calls.RowKept db₀ k tr := by
  intro pre now x post s s' htr
  exact h pre now x (post ++ tr') s s' (by rw [htr, List.append_assoc, List.cons_append])

theorem Change.row_stays {db' : Db} {ev : Happening ι} {k : RequestKey}
    (h : calls.Change db db' ev) (hev : ∀ now x, ev ≠ .env now x)
    (hrow : (db.requests.find? k).isSome) : (db'.requests.find? k).isSome := by
  cases h with
  | fresh i now hfree hrows hevents =>
      rw [hrows]
      split
      · rfl
      · exact hrow
  | known i now _ hdb => rwa [hdb]
  | logged i now state detail hrows hevents => rwa [hrows]
  | completed i now finalState response errorCode hrows hevents =>
      rw [hrows]
      split
      · rwa [Option.isSome_map]
      · exact hrow
  | purged now cutoff n h hrows hevents => exact absurd rfl (hev _ _)
  | quiet ev hev hrows hevents => rwa [hrows]

theorem row_stays {k : RequestKey} {pre mid : List (Happening ι)} {s s' : Db}
    (hproper : calls.Proper mid) (hkept : calls.RowKept db₀ k (pre ++ mid))
    (hpre : Evolves (Performs calls.num ι) db₀ pre s)
    (hmid : Evolves (Performs calls.num ι) s mid s') (hrow : (s.requests.find? k).isSome) :
    (s'.requests.find? k).isSome := by
  induction hmid with
  | start => exact hrow
  | @step mid m m' ev past step ih =>
      have hm := ih hproper.left (by
        rw [← List.append_assoc] at hkept
        exact hkept.left)
      cases ev with
      | env now x =>
          exact hkept (pre ++ mid) now x [] m m' (by simp)
            (Evolves.append_iff.mpr ⟨s, hpre, past⟩) step hm
      | task i now x =>
          exact (change_of_performs hproper step).row_stays (by simp) hm

theorem row_absent {k : RequestKey} (hproper : calls.Proper tr)
    (h : Evolves (Performs calls.num ι) db₀ tr db) (h₀ : db₀.requests.find? k = none)
    (hnone : ∀ i now, calls.key i = k → .task i now (calls.received i true) ∉ tr) :
    db.requests.find? k = none := by
  induction h with
  | start => exact h₀
  | @step tr s s' ev past step ih =>
      have hs := ih hproper.left fun i now hk hmem ↦ hnone i now hk (List.mem_append_left _ hmem)
      cases change_of_performs hproper step with
      | fresh i now hfree hrows hevents =>
          rw [hrows]
          split
          · next hk => exact absurd (by simp) (hnone i now hk.symm)
          · exact hs
      | known i now _ hdb => rwa [hdb]
      | logged i now state detail hrows hevents => rwa [hrows]
      | completed i now finalState response errorCode hrows hevents =>
          rw [hrows]
          split
          · rw [hs, Option.map_none]
          · exact hs
      | purged now cutoff n h hrows hevents => rw [hrows, hs, Option.filter_none]
      | quiet _ hev hrows hevents => rwa [hrows]

/-- After the first call for a key has been received every other one is told
that the request is known. -/
theorem received_later {k : RequestKey} {pre mid post : List (Happening ι)} {i j : ι}
    {now now' : ℚ} {b b' : Bool} (hi : calls.key i = k) (hj : calls.key j = k)
    (htr : tr = pre ++ .task i now (calls.received i b) ::
      (mid ++ .task j now' (calls.received j b') :: post))
    (hproper : calls.Proper tr) (hkept : calls.RowKept db₀ k tr)
    (h : Evolves (Performs calls.num ι) db₀ tr db) : b' = false := by
  subst htr
  obtain ⟨s, hpre, hrest⟩ := Evolves.append_iff.mp h
  obtain ⟨s₁, hfirst, hrest⟩ := Evolves.cons_iff.mp hrest
  obtain ⟨s₂, hmid, hrest⟩ := Evolves.append_iff.mp hrest
  obtain ⟨s₃, hsecond, _⟩ := Evolves.cons_iff.mp hrest
  have hrow₁ : (s₁.requests.find? k).isSome := by
    rcases StoreCall.exec_recordReceived hfirst with ⟨_, _, hrows, _⟩ | ⟨_, hrow, rfl⟩
    · rw [hrows, if_pos hi.symm]
      rfl
    · exact hi ▸ hrow
  have hpre₁ : Evolves (Performs calls.num ι) db₀
      (pre ++ [.task i now (calls.received i b)]) s₁ := .step hpre hfirst
  rw [← List.singleton_append, ← List.append_assoc] at hproper hkept
  rw [← List.append_assoc] at hkept
  have hrow₂ := row_stays hproper.right.left hkept.left hpre₁ hmid hrow₁
  rcases StoreCall.exec_recordReceived hsecond with ⟨_, hfree, _⟩ | ⟨hb', _⟩
  · rw [← hj] at hrow₂
    rw [hfree] at hrow₂
    cases hrow₂
  · exact hb'

section Run

variable [DecidableEq ι] {p : ι → Prog Unit}

def Started (i : ι) (tr : List (Happening ι)) : Prop := ⟨.inc, ()⟩ ∈ exchangesOf i tr

theorem started_unique {k : RequestKey} (h : Run (Performs calls.num ι) calls.pool db₀ tr p db)
    (hkept : calls.RowKept db₀ k tr) {i j : ι} (hi : calls.key i = k) (hj : calls.key j = k)
    (hsi : Started i tr) (hsj : Started j tr) : i = j := by
  have hproper := run_proper h
  obtain ⟨now, hmi⟩ := mem_exchangesOf.mp (started_fresh (h.steps i) hsi)
  obtain ⟨now', hmj⟩ := mem_exchangesOf.mp (started_fresh (h.steps j) hsj)
  rcases mem_order hmi hmj with heq | ⟨a, b, c, htr⟩ | ⟨a, b, c, htr⟩
  · cases heq
    rfl
  · cases received_later hi hj htr hproper hkept h.evolves
  · cases received_later hj hi htr hproper hkept h.evolves

/-- The first call received for a key without a row is told that it is fresh. -/
theorem exists_first_received {k : RequestKey}
    (h : Run (Performs calls.num ι) calls.pool db₀ tr p db) (h₀ : db₀.requests.find? k = none)
    (hsome : ∃ j b, calls.key j = k ∧ calls.received j b ∈ exchangesOf j tr) :
    ∃ i now pre post, calls.key i = k ∧ tr = pre ++ .task i now (calls.received i true) :: post ∧
      ∀ j b, calls.key j = k → calls.received j b ∉ exchangesOf j pre := by
  obtain ⟨pre, ev, post, htr, ⟨i, now, b, hi, rfl⟩, hpre⟩ := exists_first
    (P := fun ev : Happening ι ↦
      ∃ i now b, calls.key i = k ∧ ev = .task i now (calls.received i b))
    (by
      obtain ⟨j, b, hj, hmem⟩ := hsome
      obtain ⟨now, hmem⟩ := mem_exchangesOf.mp hmem
      exact ⟨_, hmem, j, now, b, hj, rfl⟩)
  have hfirst : b = true := by
    obtain ⟨s, hs, hrest⟩ := Evolves.append_iff.mp (htr ▸ h.evolves)
    obtain ⟨s₁, hstep, _⟩ := Evolves.cons_iff.mp hrest
    have hnone := row_absent (htr ▸ run_proper h : calls.Proper _).left hs h₀
      fun i now hk hmem ↦ hpre _ hmem ⟨i, now, true, hk, rfl⟩
    rcases StoreCall.exec_recordReceived hstep with ⟨hb, _⟩ | ⟨_, hrow, _⟩
    · exact hb
    · rw [show (calls.request i).key = k from hi, hnone] at hrow
      cases hrow
  subst hfirst
  refine ⟨i, now, pre, post, hi, htr, fun j b hj hmem ↦ ?_⟩
  obtain ⟨now', hmem⟩ := mem_exchangesOf.mp hmem
  exact hpre _ hmem ⟨j, now', b, hj, rfl⟩

/-- For every key at most one call starts its handler; and if the key had no row
at the start, the first call whose `record_received` returned is told that its
request is fresh, and every other one starts no handler and emits nothing but
the duplicate error. -/
theorem one_fresh_call_per_key {k : RequestKey}
    (h : Run (Performs calls.num ι) calls.pool db₀ tr p db) (hkept : calls.RowKept db₀ k tr) :
    (∀ i j, calls.key i = k → calls.key j = k → Started i tr → Started j tr → i = j) ∧
    (db₀.requests.find? k = none →
      (∃ j b, calls.key j = k ∧ calls.received j b ∈ exchangesOf j tr) →
      ∃ i now pre post, calls.key i = k ∧
        tr = pre ++ .task i now (calls.received i true) :: post ∧
        (∀ j b, calls.key j = k → calls.received j b ∉ exchangesOf j pre) ∧
        ∀ j b, j ≠ i → calls.key j = k → calls.received j b ∈ exchangesOf j tr →
          b = false ∧ ¬ Started j tr ∧
          ∀ nodeId response r, ⟨.emit nodeId response, r⟩ ∈ exchangesOf j tr →
            nodeId = (calls.request j).from_ ∧
            response = Response.makeError (calls.request j).id (calls.request j).type
              (calls.request j).from_ Errors.duplicate
              "Duplicate request id for this node") := by
  refine ⟨fun i j hi hj ↦ started_unique h hkept hi hj, fun h₀ hsome ↦ ?_⟩
  obtain ⟨i, now, pre, post, hi, htr, hpre⟩ := exists_first_received h h₀ hsome
  refine ⟨i, now, pre, post, hi, htr, hpre, fun j b hne hj hmem ↦ ?_⟩
  have hlater (b : Bool) (hmem : calls.received j b ∈ exchangesOf j tr) : b = false := by
    obtain ⟨now', hmem⟩ := mem_exchangesOf.mp hmem
    rw [htr] at hmem
    rcases List.mem_append.mp hmem with hmem | hmem
    · exact absurd (mem_exchangesOf.mpr ⟨now', hmem⟩) (hpre j b hj)
    · rcases List.mem_cons.mp hmem with heq | hmem
      · cases heq
        exact absurd rfl hne
      · obtain ⟨mid, last, rfl⟩ := List.append_of_mem hmem
        exact received_later hi hj htr (run_proper h) hkept h.evolves
  have hb := hlater b hmem
  subst hb
  refine ⟨rfl, fun hstarted ↦ ?_, fun nodeId response r hemit ↦
    duplicate_emit (h.steps j) hmem hemit⟩
  cases hlater true (started_fresh (h.steps j) hstarted)

end Run

end Calls

/-- The second of two pings with one key is a duplicate. -/
theorem second_ping_duplicate :
    ∃ i : Bool, pair.received i true ∈ exchangesOf i (pairRun 5).1 ∧ ∀ j b, j ≠ i →
      pair.received j b ∈ exchangesOf j (pairRun 5).1 →
        b = false ∧ ¬ Calls.Started j (pairRun 5).1 := by
  have hkept : pair.RowKept Db.empty samplePing.key (pairRun 5).1 := by
    intro pre now x post s s' htr
    exact absurd (htr ▸ List.mem_append_right _ List.mem_cons_self) (env_not_mem_pairRun 5 now x)
  have hreceived : exchangesOf true (pairRun 5).1 =
      pair.received true true :: (exchangesOf true (pairRun 5).1).tail := rfl
  obtain ⟨i, now, pre, post, _, htr, _, hothers⟩ :=
    (Calls.one_fresh_call_per_key (pairRun_run 5) hkept).2 rfl
      ⟨true, true, rfl, hreceived ▸ List.mem_cons_self⟩
  refine ⟨i, mem_exchangesOf.mpr ⟨now, htr ▸ List.mem_append_right _ List.mem_cons_self⟩, ?_⟩
  intro j b hj hmem
  obtain ⟨hb, hstarted, _⟩ := hothers j b hj rfl hmem
  exact ⟨hb, hstarted⟩

end MeshcoreRpc
