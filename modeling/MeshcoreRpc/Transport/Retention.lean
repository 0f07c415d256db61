import MeshcoreRpc.Core.Runs
import MeshcoreRpc.Persistence.Purge
import MeshcoreRpc.Transport.Memory

/-!
# The retention window

The sweeper among the other tasks of the service.  Nothing goes before its
time, nothing of its time stays after a sweep, and the id of a request is
taken for new again only when the first request has been swept away.
-/

namespace MeshcoreRpc

open Tables Coroutine Coro Interleaving

/-! ## The purges of a task -/

namespace Eff

def purges : Eff → Bool
  | store (.purgeBefore _) => true
  | underTtl _ e => e.purges
  | afterTtl e => e.purges
  | _ => false

/-- Only the sweeper purges, and nothing bounds its calls. -/
def SweepsOnly (e : Eff) : Prop := e.purges = true → ∃ cutoff, e = .store (.purgeBefore cutoff)

theorem NodeSide.not_purges {e : Eff} (h : e.NodeSide) : e.purges = false := by
  cases e with
  | store c =>
      cases c with
      | purgeBefore => exact absurd h.1 (by simp [StoreCall.lifecycle])
      | _ => rfl
  | underTtl => exact h.elim
  | afterTtl => exact h.elim
  | _ => rfl

end Eff

/-- What `purge_before` deletes is `days` older than a time read before. -/
def CutoffRead (days : ℕ) (pre : Trace) (x : Exchange Eff.Answer) : Prop :=
  ∀ cutoff, x.1 = .store (.purgeBefore cutoff) →
    ∃ t : ℚ, ⟨.time, t⟩ ∈ pre ∧ cutoff = t - days * RetentionSweeper.secondsPerDay

theorem CutoffRead.append {days : ℕ} (pre pre' : Trace) (x : Exchange Eff.Answer)
    (h : CutoffRead days pre' x) : CutoffRead days (pre ++ pre') x := by
  intro cutoff hx
  obtain ⟨t, ht, hcutoff⟩ := h cutoff hx
  exact ⟨t, List.mem_append_right _ ht, hcutoff⟩

theorem cutoffRead_of_not_purges {days : ℕ} {x : Exchange Eff.Answer} (h : x.1.purges = false)
    (pre : Trace) : CutoffRead days pre x := by
  intro cutoff hx
  rw [hx] at h
  cases h

namespace RetentionSweeper

theorem runOnce_wp (days : ℕ) :
    (runOnce days).wp fun tr _ ↦ Justified (CutoffRead days) tr := by
  have hboth (t : ℚ) (r : Except PyExc ℕ) : Justified (CutoffRead days)
      [⟨.time, t⟩, ⟨.store (.purgeBefore (t - days * secondsPerDay)), r⟩] := by
    intro pre x post hsplit
    simp only [List.cons_eq_append_iff, List.cons.injEq, List.nil_eq_append_iff] at hsplit
    rcases hsplit with ⟨rfl, rfl, -⟩ | ⟨pre, rfl, hsplit⟩
    · exact cutoffRead_of_not_purges rfl _
    · rcases hsplit with ⟨rfl, rfl, -⟩ | ⟨pre, rfl, -, hsplit⟩
      · intro cutoff hx
        cases hx
        exact ⟨t, List.mem_singleton_self _, rfl⟩
      · cases hsplit
  simp only [runOnce, wp_bind, Prog.wp_time, wp_tryCatch, Prog.store, wp_await, wp_ofOutcome]
  intro t r
  cases r with
  | ok n => exact hboth t (.ok n)
  | error err => exact hboth t (.error err)

theorem run_wp (days ticks : ℕ) :
    (run days ticks).wp fun tr _ ↦ Justified (CutoffRead days) tr := by
  induction ticks with
  | zero => exact .of_forall (by simp)
  | succ n ih =>
      rw [run, wp_bind]
      refine wp_mono (runOnce_wp days) fun tr o htr ↦ ?_
      cases o with
      | ok deleted => exact wp_mono ih fun tr' _ htr' ↦ htr.append CutoffRead.append htr'
      | error err => exact htr

end RetentionSweeper

namespace Service

variable {ι : Type} {service : Service ι} {i : ι}

theorem pool_not_purges (hjob : ∀ ticks, service.job i ≠ .sweep ticks) :
    (service.pool i).Only fun e ↦ e.purges = false := by
  unfold pool
  cases hcase : service.job i with
  | consume msgs =>
      exact .bind (consumeLoop_only (fun _ he ↦ he.not_purges) (fun _ ↦ rfl) (fun _ _ _ ↦ rfl) msgs)
        fun _ ↦ True.intro
  | request request =>
      refine .bind (processRequest_only_of (fun e he houter ↦ ?_) fun handler hrouter ↦ ?_)
        fun _ ↦ True.intro
      · cases he with
        | handler e he => cases houter
        | unwinding e he => cases houter
        | _ => rfl
      · exact Handlers.defaultRouter_timed _ _ hrouter request fun e he ↦ he.not_purges
  | sweep ticks => exact absurd hcase (hjob ticks)
  | beat beats => exact .bind (only_heartbeat beats rfl fun _ _ _ ↦ rfl) fun _ ↦ True.intro
  | ask request =>
      dsimp only
      cases hrouter : service.router.resolve request.type with
      | none => exact True.intro
      | some handler =>
          refine .bind ?_ fun _ ↦ True.intro
          exact (Handlers.defaultRouter_only _ _ hrouter request).mono fun e he ↦ he.not_purges

theorem pool_sweep {ticks : ℕ} (hjob : service.job i = .sweep ticks) :
    service.pool i = RetentionSweeper.run service.days ticks >>= fun _ ↦ pure none := by
  simp only [pool, hjob]

theorem pool_sweepsOnly (service : Service ι) (i : ι) : (service.pool i).Only Eff.SweepsOnly := by
  by_cases hjob : ∃ ticks, service.job i = .sweep ticks
  · obtain ⟨ticks, hjob⟩ := hjob
    rw [pool_sweep hjob]
    refine .bind (only_sweeper _ ticks ?_ fun cutoff _ ↦ ⟨cutoff, rfl⟩) fun _ ↦ True.intro
    intro hpurges
    cases hpurges
  · refine (pool_not_purges fun ticks hticks ↦ hjob ⟨ticks, hticks⟩).mono fun e he hpurges ↦ ?_
    rw [he] at hpurges
    cases hpurges

theorem pool_justified {tr : Trace} {y : Prog (Option Response)}
    (h : Steps (service.pool i) tr y) : Justified (CutoffRead service.days) tr := by
  by_cases hjob : ∃ ticks, service.job i = .sweep ticks
  · obtain ⟨ticks, hjob⟩ := hjob
    rw [pool_sweep hjob] at h
    obtain ⟨z, hz, -⟩ := h.of_bind_pure
    exact .of_wp Eff.answer_nonempty (RetentionSweeper.run_wp _ ticks) hz
  · have honly := pool_not_purges fun ticks hticks ↦ hjob ⟨ticks, hticks⟩
    exact .of_forall fun x hx ↦ cutoffRead_of_not_purges ((honly.steps h).1 x hx)

end Service

/-! ## What a step adds and what it takes -/

/-- The row as `record_received` wrote it. -/
def RequestRow.asReceived (row : RequestRow) : RequestRow :=
  { row with completedAt := none, finalState := none, errorCode := none, responseJson := none }

theorem RequestRow.key_asReceived (row : RequestRow) : row.asReceived.key = row.key := rfl

namespace Db

/-- A step at the time `now` that purges nothing: what is there stays, and what is
new is of that time. -/
structure Accrues (now : ℚ) (db db' : Db) : Prop where
  requests_kept : ∀ row ∈ db.requests.rows,
    ∃ row' ∈ db'.requests.rows, row'.asReceived = row.asReceived
  requests_new : ∀ row ∈ db'.requests.rows,
    row ∈ db.requests.rows ∨ ∀ c ∈ row.completedAt, c = now
  events_kept : ∀ event ∈ db.requestEvents, event ∈ db'.requestEvents
  snapshots_kept : ∀ snap ∈ db.gatewaySnapshots, snap ∈ db'.gatewaySnapshots
  snapshots_new : ∀ snap ∈ db'.gatewaySnapshots, snap ∈ db.gatewaySnapshots ∨ snap.ts = now

variable {num : Numerals} {now : ℚ} {db db' : Db}

theorem Accrues.of_same (hrequests : db'.requests = db.requests)
    (hevents : ∀ event ∈ db.requestEvents, event ∈ db'.requestEvents)
    (hsnapshots : db'.gatewaySnapshots = db.gatewaySnapshots) : db.Accrues now db' where
  requests_kept row hrow := ⟨row, hrequests ▸ hrow, rfl⟩
  requests_new _ hrow := .inl (hrequests ▸ hrow)
  events_kept := hevents
  snapshots_kept _ hsnap := hsnapshots ▸ hsnap
  snapshots_new _ hsnap := .inl (hsnapshots ▸ hsnap)

theorem Accrues.refl (now : ℚ) (db : Db) : db.Accrues now db := of_same rfl (fun _ h ↦ h) rfl

theorem accrues_received {request : Request} {ttlS : ℤ} {fresh : Bool}
    (h : (StoreCall.recordReceived request ttlS).exec num now db = .ok (db', fresh)) :
    db.Accrues now db' := by
  cases hfind : db.requests.find? request.key with
  | none =>
      rw [StoreCall.exec_recordReceived_none hfind] at h
      cases h
      exact
        { requests_kept := fun row hrow ↦ ⟨row, List.mem_append_left _ hrow, rfl⟩
          requests_new := fun row hrow ↦ by
            rcases List.mem_append.mp hrow with hrow | hrow
            · exact .inl hrow
            · obtain rfl := List.mem_singleton.mp hrow
              right
              intro c hc
              cases hc
          events_kept := fun event hevent ↦ List.mem_append_left _ hevent
          snapshots_kept := fun snap hsnap ↦ hsnap
          snapshots_new := fun snap hsnap ↦ .inl hsnap }
  | some row =>
      rw [StoreCall.exec_recordReceived_some hfind] at h
      cases h
      exact .refl ..

theorem accrues_completion {requestId nodeId : String} {finalState : FinalState}
    {response : Option Response} {errorCode : Option String} {a : Unit}
    (h : (StoreCall.recordCompletion requestId nodeId finalState response errorCode).exec num now
      db = .ok (db', a)) : db.Accrues now db' := by
  rw [StoreCall.exec_recordCompletion] at h
  cases h
  refine
    { requests_kept := fun row hrow ↦ ?_
      requests_new := fun row hrow ↦ ?_
      events_kept := fun event hevent ↦ hevent
      snapshots_kept := fun snap hsnap ↦ hsnap
      snapshots_new := fun snap hsnap ↦ .inl hsnap }
  · refine ⟨_, List.mem_map.mpr ⟨row, hrow, rfl⟩, ?_⟩
    split
    · rfl
    · rfl
  · obtain ⟨old, hold, rfl⟩ := List.mem_map.mp hrow
    split
    · right
      intro c hc
      exact (Option.some.inj hc).symm
    · exact .inl hold

theorem accrues_snapshot {state detail since : PyVal} {a : Unit}
    (h : (StoreCall.recordGatewaySnapshot state detail since).exec num now db = .ok (db', a)) :
    db.Accrues now db' := by
  obtain ⟨n, hn⟩ := StoreCall.atomically_execute h
  simp only [Stmt.apply] at hn
  iterate 3 obtain ⟨_, _, hn⟩ := except_bind_ok hn
  cases hn
  refine
    { requests_kept := fun row hrow ↦ ⟨row, hrow, rfl⟩
      requests_new := fun row hrow ↦ .inl hrow
      events_kept := fun event hevent ↦ hevent
      snapshots_kept := fun snap hsnap ↦ List.mem_append_left _ hsnap
      snapshots_new := fun snap hsnap ↦ ?_ }
  rcases List.mem_append.mp hsnap with hsnap | hsnap
  · exact .inl hsnap
  · obtain rfl := List.mem_singleton.mp hsnap
    exact .inr rfl

theorem accrues_exec {c : StoreCall} {a : c.Answer} (hc : ∀ cutoff, c ≠ .purgeBefore cutoff)
    (h : c.exec num now db = .ok (db', a)) : db.Accrues now db' := by
  have hsame := StoreCall.exec_same h
  cases c with
  | recordReceived request ttlS => exact accrues_received h
  | recordCompletion requestId nodeId finalState response errorCode => exact accrues_completion h
  | recordGatewaySnapshot state detail since => exact accrues_snapshot h
  | recordEvent requestId nodeId state detail =>
      rw [StoreCall.exec_recordEvent] at h
      cases h
      exact .of_same rfl (fun event hevent ↦ List.mem_append_left _ hevent) rfl
  | purgeBefore cutoff => exact absurd rfl (hc cutoff)
  | _ =>
      refine .of_same (hsame.requests rfl) (fun event hevent ↦ ?_) (hsame.gatewaySnapshots rfl)
      rwa [hsame.requestEvents rfl]

theorem accrues_transition {e : Eff} {r : e.Answer} (he : e.purges = false)
    (h : e.Transition num now r db db') : db.Accrues now db' := by
  induction e with
  | store c =>
      cases r with
      | ok a =>
          refine accrues_exec (fun cutoff hc ↦ ?_) h
          rw [hc] at he
          cases he
      | error err => exact (show db' = db from h) ▸ .refl ..
  | time => exact h.2 ▸ .refl ..
  | underTtl ttlS e ih =>
      cases r with
      | none => exact (show db' = db from h) ▸ .refl ..
      | some r => exact ih he h
  | afterTtl e ih => exact ih he h
  | _ => exact (show db' = db from h) ▸ .refl ..

end Db

/-! ## Sweeps in a run -/

namespace Service

variable {ι : Type} {service : Service ι}

/-- How long the service keeps what it has finished. -/
def window (service : Service ι) : ℚ := service.days * RetentionSweeper.secondsPerDay

theorem window_nonneg (service : Service ι) : 0 ≤ service.window :=
  mul_nonneg (Nat.cast_nonneg _) (by norm_num [RetentionSweeper.secondsPerDay])

/-- The task `i` has purged `n` requests. -/
def swept (i : ι) (now cutoff : ℚ) (n : ℕ) : Event ι Eff.Answer ℚ Empty :=
  .task i now ⟨.store (.purgeBefore cutoff), Except.ok n⟩

/-- On the way from `s₀` a sweep at some time `now` met a state `s` with `Taken s now`. -/
def SweptIn (service : Service ι) (s₀ : Db) (tr : List (Event ι Eff.Answer ℚ Empty))
    (Taken : Db → ℚ → Prop) : Prop :=
  ∃ pre i now cutoff n post s, tr = pre ++ swept i now cutoff n :: post ∧
    Evolves (Owned service.num ι) s₀ pre s ∧ Taken s now

variable {db db' db₀ db₁ : Db} {tr before after : List (Event ι Eff.Answer ℚ Empty)}
  {ev : Event ι Eff.Answer ℚ Empty}

theorem SweptIn.mono {Taken Taken' : Db → ℚ → Prop} (h : service.SweptIn db₀ tr Taken)
    (hmono : ∀ s now, Taken s now → Taken' s now) : service.SweptIn db₀ tr Taken' := by
  obtain ⟨pre, i, now, cutoff, n, post, s, htr, hpre, htaken⟩ := h
  exact ⟨pre, i, now, cutoff, n, post, s, htr, hpre, hmono s now htaken⟩

/-- The events of the service purge only where the sweeper does. -/
def Proper (tr : List (Event ι Eff.Answer ℚ Empty)) : Prop :=
  ∀ i now x, .task i now x ∈ tr → x.1.SweepsOnly

/-- A step of the service adds, or it is a sweep that went through. -/
theorem step_cases (hev : ∀ i now x, ev = .task i now x → x.1.SweepsOnly)
    (h : Owned service.num ι db ev db') :
    db.Accrues ev.now db' ∨ ∃ i now cutoff n, ev = swept i now cutoff n ∧ db' =
      db.purged cutoff := by
  cases ev with
  | env now a => exact a.elim
  | task i now x =>
      obtain ⟨e, r⟩ := x
      cases hpurges : e.purges with
      | false => exact .inl (Db.accrues_transition hpurges h)
      | true =>
          obtain ⟨cutoff, rfl⟩ := hev i now _ rfl hpurges
          cases r with
          | error err =>
              left
              exact (show db' = db from h) ▸ .refl ..
          | ok n =>
              right
              have hexec : (StoreCall.purgeBefore cutoff).exec service.num now db = .ok (db', n) :=
                h
              obtain ⟨rfl, -⟩ :=
                Prod.mk.inj (Except.ok.inj ((Db.exec_purge ..).symm.trans hexec))
              exact ⟨i, now, cutoff, n, rfl, rfl⟩

/-- What is there and later is not, has been swept away. -/
theorem swept_of_lost {P : Db → Prop} (hproper : Proper tr)
    (hkept : ∀ s s' now, s.Accrues now s' → P s → P s')
    (h : Evolves (Owned service.num ι) db₀ tr db) (h₀ : P db₀) (hlost : ¬ P db) :
    ∃ pre i now cutoff n post s, tr = pre ++ swept i now cutoff n :: post ∧
      Evolves (Owned service.num ι) db₀ pre s ∧ P s ∧ ¬ P (s.purged cutoff) := by
  obtain ⟨pre, ev, post, s, s', rfl, hpre, hstep, hs, hs'⟩ := h.lost h₀ hlost
  have hev : ∀ i now x, ev = .task i now x → x.1.SweepsOnly := by
    rintro i now x rfl
    exact hproper i now x (by simp)
  rcases step_cases hev hstep with haccrues | ⟨i, now, cutoff, n, rfl, rfl⟩
  · exact absurd (hkept s s' _ haccrues hs) hs'
  · exact ⟨pre, i, now, cutoff, n, post, s, rfl, hpre, hs, hs'⟩

/-- Nothing from before `cutoff` is left. -/
structure Swept (cutoff : ℚ) (db : Db) : Prop where
  requests : ∀ row ∈ db.requests.rows, ∀ c ∈ row.completedAt, cutoff ≤ c
  snapshots : ∀ snap ∈ db.gatewaySnapshots, cutoff ≤ snap.ts

theorem swept_purged (cutoff : ℚ) (db : Db) : Swept cutoff (db.purged cutoff) := by
  constructor
  · intro row hrow
    have hstays := (List.mem_filter.mp hrow).2
    rw [RequestRow.not_expired, decide_eq_true_iff] at hstays
    exact hstays
  · intro snap hsnap
    simpa using (List.mem_filter.mp hsnap).2

theorem Swept.purged {cutoff : ℚ} (h : Swept cutoff db) (cutoff' : ℚ) :
    Swept cutoff (db.purged cutoff') where
  requests row hrow := h.requests row (List.mem_filter.mp hrow).1
  snapshots snap hsnap := h.snapshots snap (List.mem_filter.mp hsnap).1

theorem Swept.accrues {cutoff now : ℚ} (h : Swept cutoff db) (hnow : cutoff ≤ now)
    (hstep : db.Accrues now db') : Swept cutoff db' := by
  constructor
  · intro row hrow c hc
    rcases hstep.requests_new row hrow with hold | hnew
    · exact h.requests row hold c hc
    · rwa [hnew c hc]
  · intro snap hsnap
    rcases hstep.snapshots_new snap hsnap with hold | hnew
    · exact h.snapshots snap hold
    · rwa [hnew]

theorem Swept.evolves {cutoff : ℚ} (hproper : Proper tr) (htimes : ∀ ev ∈ tr, cutoff ≤ ev.now)
    (h : Evolves (Owned service.num ι) db₀ tr db) (h₀ : Swept cutoff db₀) : Swept cutoff db := by
  refine h.invariant (Swept cutoff) (fun s ev s' hev hs hstep ↦ ?_) h₀
  rcases step_cases (fun i now x hx ↦ hproper i now x (hx ▸ hev)) hstep with
    haccrues | ⟨i, now, cutoff', n, -, rfl⟩
  · exact hs.accrues (htimes ev hev) haccrues
  · exact hs.purged cutoff'

section Run

variable [DecidableEq ι] {p p₁ : ι → Prog (Option Response)}

theorem run_proper (h : Run (Owned service.num ι) service.pool db₀ tr p db) : Proper tr := by
  intro i now x hx
  exact ((pool_sweepsOnly service i).steps (h.steps i)).1 x (mem_exchangesOf.mpr ⟨now, hx⟩)

/-- A sweep deletes what is `days` older than the time its own task has read. -/
theorem cutoff_read (h : Run (Owned service.num ι) service.pool db₀ tr p db) (hclock : Ascends tr)
    {pre post : List (Event ι Eff.Answer ℚ Empty)} {i : ι} {now cutoff : ℚ} {n : ℕ}
    (hsplit : tr = pre ++ swept i now cutoff n :: post) :
    ∃ t, .task i t ⟨.time, t⟩ ∈ pre ∧ t ≤ now ∧ cutoff = t - service.window := by
  subst hsplit
  have hjust := pool_justified (h.steps i)
  rw [exchangesOf_append, swept, exchangesOf_task_self] at hjust
  obtain ⟨t, ht, hcutoff⟩ := hjust _ _ _ rfl cutoff rfl
  obtain ⟨now', hmem⟩ := mem_exchangesOf.mp ht
  obtain ⟨m, m', hstep⟩ := h.evolves.acted (List.mem_append_left _ hmem)
  obtain rfl : t = now' := hstep.1
  refine ⟨t, hmem, ?_, hcutoff⟩
  exact (List.pairwise_append.mp hclock).2.2 _ hmem _ List.mem_cons_self

theorem cutoff_before (h : Run (Owned service.num ι) service.pool db₀ tr p db)
    (hclock : Ascends tr) {pre post : List (Event ι Eff.Answer ℚ Empty)} {i : ι} {now cutoff : ℚ}
    {n : ℕ} (hsplit : tr = pre ++ swept i now cutoff n :: post) :
    cutoff + service.window ≤ now := by
  obtain ⟨t, -, hle, rfl⟩ := cutoff_read h hclock hsplit
  linarith

/-- What the service loses after a while, a sweep took that looks `days` back. -/
theorem sweptIn_of_lost {P : Db → Prop}
    (hbefore : Run (Owned service.num ι) service.pool db₀ before p₁ db₁)
    (hafter : Run (Owned service.num ι) p₁ db₁ after p db) (hclock : Ascends (before ++ after))
    (hkept : ∀ s s' now, s.Accrues now s' → P s → P s') (h₁ : P db₁) (hlost : ¬ P db) :
    service.SweptIn db₁ after fun s now ↦
      P s ∧ ∃ cutoff, cutoff + service.window ≤ now ∧ ¬ P (s.purged cutoff) := by
  have hrun := hbefore.append hafter
  have hproper : Proper after := fun i now x hx ↦
    run_proper hrun i now x (List.mem_append_right _ hx)
  obtain ⟨pre, i, now, cutoff, n, post, s, rfl, hpre, hs, hgone⟩ :=
    swept_of_lost hproper hkept hafter.evolves h₁ hlost
  have hcutoff : cutoff + service.window ≤ now :=
    cutoff_before hrun hclock (List.append_assoc before pre _).symm
  exact ⟨pre, i, now, cutoff, n, post, s, rfl, hpre, hs, cutoff, hcutoff, hgone⟩

/-- A request stays until it has been completed for longer than `days`. -/
theorem request_kept (hbefore : Run (Owned service.num ι) service.pool db₀ before p₁ db₁)
    (hafter : Run (Owned service.num ι) p₁ db₁ after p db) (hclock : Ascends (before ++ after))
    {row : RequestRow} (hrow : row ∈ db₁.requests.rows) :
    (∃ row' ∈ db.requests.rows, row'.asReceived = row.asReceived) ∨
    service.SweptIn db₁ after fun s now ↦ ∃ row' ∈ s.requests.rows,
      row'.asReceived = row.asReceived ∧ ∃ c ∈ row'.completedAt, c + service.window < now := by
  by_cases hstays : ∃ row' ∈ db.requests.rows, row'.asReceived = row.asReceived
  · exact .inl hstays
  · right
    refine (sweptIn_of_lost (P := fun s ↦ ∃ row' ∈ s.requests.rows,
      row'.asReceived = row.asReceived) hbefore hafter hclock ?_ ⟨row, hrow, rfl⟩ hstays).mono ?_
    · rintro s s' now hstep ⟨row₁, hrow₁, hsame⟩
      obtain ⟨row₂, hrow₂, hsame₂⟩ := hstep.requests_kept row₁ hrow₁
      exact ⟨row₂, hrow₂, hsame₂.trans hsame⟩
    · rintro s now ⟨⟨row', hrow', hsame⟩, cutoff, hcutoff, hgone⟩
      refine ⟨row', hrow', hsame, ?_⟩
      have hexpired : row'.expired cutoff = true := by
        by_contra hfalse
        rw [Bool.not_eq_true] at hfalse
        exact hgone ⟨row', List.mem_filter.mpr ⟨hrow', by rw [hfalse]; rfl⟩, hsame⟩
      obtain ⟨c, hc, hlt⟩ : ∃ c ∈ row'.completedAt, c < cutoff := by
        cases hcompleted : row'.completedAt with
        | none => simp [RequestRow.expired, hcompleted] at hexpired
        | some c =>
            refine ⟨c, rfl, ?_⟩
            simpa [RequestRow.expired, hcompleted] using hexpired
      exact ⟨c, hc, by linarith⟩

/-- An event stays for `days`, and longer where a request still has its id. -/
theorem event_kept (hbefore : Run (Owned service.num ι) service.pool db₀ before p₁ db₁)
    (hafter : Run (Owned service.num ι) p₁ db₁ after p db) (hclock : Ascends (before ++ after))
    {event : EventRow} (hevent : event ∈ db₁.requestEvents) :
    event ∈ db.requestEvents ∨
    service.SweptIn db₁ after fun s now ↦ event.ts + service.window < now ∧
      ∀ row ∈ s.requests.rows, row.id = event.requestId →
        ∃ c ∈ row.completedAt, c + service.window < now := by
  by_cases hstays : event ∈ db.requestEvents
  · exact .inl hstays
  · right
    refine (sweptIn_of_lost (P := fun s ↦ event ∈ s.requestEvents) hbefore hafter hclock
      (fun s s' now hstep hs ↦ hstep.events_kept event hs) hevent hstays).mono ?_
    rintro s now ⟨hs, cutoff, hcutoff, hgone⟩
    have hold : event.ts < cutoff := by
      by_contra hnew
      refine hgone (List.mem_filter.mpr ⟨hs, ?_⟩)
      simp [EventRow.orphaned, hnew]
    refine ⟨by linarith, fun row hrow hid ↦ ?_⟩
    cases hcompleted : row.completedAt with
    | none =>
        refine absurd ((Db.mem_purged_events hold).mpr ⟨hs, row, hrow, ?_, hid⟩) hgone
        simp [RequestRow.expired, hcompleted]
    | some c =>
        refine ⟨c, rfl, ?_⟩
        by_contra hlate
        refine hgone ((Db.mem_purged_events hold).mpr ⟨hs, row, hrow, ?_, hid⟩)
        simp only [RequestRow.expired, hcompleted, decide_eq_false_iff_not]
        intro hlt
        exact hlate (by linarith)

theorem snapshot_kept (hbefore : Run (Owned service.num ι) service.pool db₀ before p₁ db₁)
    (hafter : Run (Owned service.num ι) p₁ db₁ after p db) (hclock : Ascends (before ++ after))
    {snap : GatewaySnapshotRow} (hsnap : snap ∈ db₁.gatewaySnapshots) :
    snap ∈ db.gatewaySnapshots ∨
    service.SweptIn db₁ after fun _ now ↦ snap.ts + service.window < now := by
  by_cases hstays : snap ∈ db.gatewaySnapshots
  · exact .inl hstays
  · right
    refine (sweptIn_of_lost (P := fun s ↦ snap ∈ s.gatewaySnapshots) hbefore hafter hclock
      (fun s s' now hstep hs ↦ hstep.snapshots_kept snap hs) hsnap hstays).mono ?_
    rintro s now ⟨hs, cutoff, hcutoff, hgone⟩
    have hold : snap.ts < cutoff := by
      by_contra hnew
      refine hgone (List.mem_filter.mpr ⟨hs, ?_⟩)
      simp [hnew]
    linarith

/-- After a sweep nothing older than its cutoff comes back. -/
theorem swept_lasts (h : Run (Owned service.num ι) service.pool db₀ tr p db)
    (hclock : Ascends tr) {i : ι} {now cutoff : ℚ} {n : ℕ} (hswept : swept i now cutoff n ∈ tr) :
    (∃ t, .task i t ⟨.time, t⟩ ∈ tr ∧ t ≤ now ∧ cutoff = t - service.window) ∧
      Swept cutoff db := by
  obtain ⟨pre, post, rfl⟩ := List.append_of_mem hswept
  obtain ⟨t, hmem, hle, hcutoff⟩ := cutoff_read h hclock rfl
  refine ⟨⟨t, List.mem_append_left _ hmem, hle, hcutoff⟩, ?_⟩
  obtain ⟨s, -, hrest⟩ := Evolves.append_iff.mp h.evolves
  obtain ⟨s', hstep, hpost⟩ := Evolves.cons_iff.mp hrest
  have hproper := run_proper h
  have hexec : (StoreCall.purgeBefore cutoff).exec service.num now s = .ok (s', n) := hstep
  obtain ⟨rfl, -⟩ := Prod.mk.inj (Except.ok.inj ((Db.exec_purge ..).symm.trans hexec))
  refine Swept.evolves (fun i now x hx ↦ hproper i now x (by simp [hx])) (fun ev hev ↦ ?_) hpost
    (swept_purged cutoff s)
  have hlater : now ≤ ev.now :=
    (List.pairwise_cons.mp (List.pairwise_append.mp hclock).2.1).1 ev hev
  have hwindow := service.window_nonneg
  linarith

/-- What is there stays for the days of the retention, a request counted from its
completion; and after a sweep nothing is left that is older than its cutoff. -/
theorem retention_window (hbefore : Run (Owned service.num ι) service.pool db₀ before p₁ db₁)
    (hafter : Run (Owned service.num ι) p₁ db₁ after p db) (hclock : Ascends (before ++ after)) :
    (∀ row ∈ db₁.requests.rows,
      (∃ row' ∈ db.requests.rows, row'.asReceived = row.asReceived) ∨
      service.SweptIn db₁ after fun s now ↦ ∃ row' ∈ s.requests.rows,
        row'.asReceived = row.asReceived ∧ ∃ c ∈ row'.completedAt, c + service.window < now) ∧
    (∀ event ∈ db₁.requestEvents, event ∈ db.requestEvents ∨
      service.SweptIn db₁ after fun s now ↦ event.ts + service.window < now ∧
        ∀ row ∈ s.requests.rows, row.id = event.requestId →
          ∃ c ∈ row.completedAt, c + service.window < now) ∧
    (∀ snap ∈ db₁.gatewaySnapshots, snap ∈ db.gatewaySnapshots ∨
      service.SweptIn db₁ after fun _ now ↦ snap.ts + service.window < now) ∧
    ∀ i now cutoff n, swept i now cutoff n ∈ before ++ after →
      (∃ t, .task i t ⟨.time, t⟩ ∈ before ++ after ∧ t ≤ now ∧ cutoff = t - service.window) ∧
        Swept cutoff db := by
  refine ⟨fun row hrow ↦ ?_, fun event hevent ↦ ?_, fun snap hsnap ↦ ?_, ?_⟩
  · exact request_kept hbefore hafter hclock hrow
  · exact event_kept hbefore hafter hclock hevent
  · exact snapshot_kept hbefore hafter hclock hsnap
  · intro i now cutoff n hswept
    exact swept_lasts (hbefore.append hafter) hclock hswept

/-! ## The same request again -/

/-- The task `i` is told that its request is new. -/
def acceptance (service : Service ι) (i : ι) (request : Request) (now : ℚ) :
    Event ι Eff.Answer ℚ Empty :=
  .task i now ⟨.store (.recordReceived request
    (service.policy.resolve request.type request.ttl)), Except.ok true⟩

/-- Between the two events a sweep took the request `k`, for longer than the days
of the retention completed. -/
def SweptBetween (service : Service ι) (db₀ : Db) (tr : List (Event ι Eff.Answer ℚ Empty))
    (first again : Event ι Eff.Answer ℚ Empty) (k : RequestKey) : Prop :=
  ∃ a b c s, tr = a ++ first :: (b ++ again :: c) ∧
    Evolves (Owned service.num ι) db₀ (a ++ [first]) s ∧
    service.SweptIn s b fun m now ↦
      ∃ row ∈ m.requests.rows, row.key = k ∧ ∃ c ∈ row.completedAt, c + service.window < now

theorem accepted_again (h : Run (Owned service.num ι) service.pool db₀ tr p db)
    (hclock : Ascends tr) {u v : ι} {request request' : Request} {now now' : ℚ}
    (hkey : request'.key = request.key) {a b c : List (Event ι Eff.Answer ℚ Empty)}
    (hsplit : tr = a ++ service.acceptance u request now ::
      (b ++ service.acceptance v request' now' :: c)) :
    service.SweptBetween db₀ tr (service.acceptance u request now)
      (service.acceptance v request' now') request.key := by
  have hassoc : tr = ((a ++ [service.acceptance u request now]) ++ b) ++
      service.acceptance v request' now' :: c := by
    simp [hsplit]
  rw [hassoc] at h hclock
  obtain ⟨p₂, s₂, hsofar, hrest⟩ := h.split
  obtain ⟨p₁, s₁, hfirst, hmid⟩ := hsofar.split
  refine ⟨a, b, c, s₁, hsplit, hfirst.evolves, ?_⟩
  obtain ⟨row, hrow, hrowkey⟩ : ∃ row ∈ s₁.requests.rows, row.key = request.key := by
    obtain ⟨m, -, hstep⟩ := Evolves.snoc_iff.mp hfirst.evolves
    rcases StoreCall.exec_recordReceived hstep with ⟨-, -, hrows, -⟩ | ⟨hfalse, -⟩
    · exact ⟨_, Table.find?_eq_some.mp ((hrows request.key).trans (if_pos rfl))⟩
    · cases hfalse
  have hnone : s₂.requests.find? request.key = none := by
    obtain ⟨m, hstep, -⟩ := Evolves.cons_iff.mp hrest.evolves
    rcases StoreCall.exec_recordReceived hstep with ⟨-, hfree, -⟩ | ⟨hfalse, -⟩
    · rwa [hkey] at hfree
    · cases hfalse
  rcases request_kept hfirst hmid hclock.left hrow with ⟨row', hrow', hsame⟩ | hswept
  · refine absurd ?_ (Table.find?_eq_none.mp hnone row' hrow')
    rw [← RequestRow.key_asReceived, hsame, RequestRow.key_asReceived, hrowkey]
  · refine hswept.mono ?_
    rintro m t ⟨row', hrow', hsame, hcompleted⟩
    refine ⟨row', hrow', ?_, hcompleted⟩
    rw [← RequestRow.key_asReceived, hsame, RequestRow.key_asReceived, hrowkey]

theorem accepted_of_handled (h : Run (Owned service.num ι) service.pool db₀ tr p db) {i : ι}
    {request : Request} (hjob : service.job i = .request request)
    (hhandled : ⟨.inc, ()⟩ ∈ exchangesOf i tr) : ∃ now, service.acceptance i request now ∈ tr := by
  have hsteps := h.steps i
  rw [pool_request hjob] at hsteps
  obtain ⟨z, hz, -⟩ := hsteps.of_bind_pure
  exact mem_exchangesOf.mp (started_fresh hz hhandled)

/-- Two requests with one key are both handled only where a sweep took the one before the
other came, and it had been completed for longer than the days of the retention. -/
theorem handled_again (h : Run (Owned service.num ι) service.pool db₀ tr p db)
    (hclock : Ascends tr) {i j : ι} (hij : i ≠ j) {request request' : Request}
    (hi : service.job i = .request request) (hj : service.job j = .request request')
    (hkey : request'.key = request.key) (hhandled : ⟨.inc, ()⟩ ∈ exchangesOf i tr)
    (hhandled' : ⟨.inc, ()⟩ ∈ exchangesOf j tr) :
    ∃ now now',
      service.SweptBetween db₀ tr (service.acceptance i request now)
        (service.acceptance j request' now') request.key ∨
      service.SweptBetween db₀ tr (service.acceptance j request' now')
        (service.acceptance i request now) request.key := by
  obtain ⟨now, hmem⟩ := accepted_of_handled h hi hhandled
  obtain ⟨now', hmem'⟩ := accepted_of_handled h hj hhandled'
  refine ⟨now, now', ?_⟩
  rcases mem_order hmem hmem' with heq | ⟨a, b, c, hsplit⟩ | ⟨a, b, c, hsplit⟩
  · exact absurd (Event.task.inj heq).1 hij
  · exact .inl (accepted_again h hclock hkey hsplit)
  · right
    have hswept := accepted_again h hclock hkey.symm hsplit
    rwa [hkey] at hswept

end Run

end Service

/-! ## A ping that is swept away and comes again -/

/-- The sweeper, and two tasks that get the same ping. -/
def repeating : Service (Option Bool) where
  num := .plain
  geo := Transport.unusedGeo
  loads := Transport.sampleLoads
  policy := {}
  days := 1
  job
    | none => .sweep 1
    | some _ => .request Transport.pingRequest

/-- The pool plays a schedule on a database of its own. -/
def repeatingPlay (schedule : List (Option Bool × ℚ))
    (start : (Option Bool → Prog (Option Response)) × Db) :
    List (Event (Option Bool) Eff.Answer ℚ Empty) × (Option Bool → Prog (Option Response)) × Db :=
  play (fun _ now e db ↦ e.respond .plain now (fun _ ↦ none) db) schedule start

/-- The first task gets the ping. -/
def firstMoves : List (Option Bool × ℚ) := List.replicate 15 (some true, 1)

/-- More than a day later the sweeper comes, then the second task gets the ping. -/
def laterMoves : List (Option Bool × ℚ) :=
  [(none, 100000), (none, 100000)] ++ List.replicate 15 (some false, 100001)

def firstPlay := repeatingPlay firstMoves (repeating.pool, Db.empty)

def laterPlay := repeatingPlay laterMoves firstPlay.2

theorem firstPlay_run : Run (Owned repeating.num (Option Bool)) repeating.pool Db.empty firstPlay.1
    firstPlay.2.1 firstPlay.2.2 :=
  run_of_played rfl fun _ now e db ↦ e.respond_transition .plain now (fun _ ↦ none) db

theorem laterPlay_run : Run (Owned repeating.num (Option Bool)) firstPlay.2.1 firstPlay.2.2
    laterPlay.1 laterPlay.2.1 laterPlay.2.2 :=
  run_of_played rfl fun _ now e db ↦ e.respond_transition .plain now (fun _ ↦ none) db

theorem repeating_ascends : Ascends (firstPlay.1 ++ laterPlay.1) := by
  have hmoves : ((firstMoves ++ laterMoves).map Prod.snd).Pairwise (· ≤ ·) := by
    decide +kernel
  refine List.pairwise_map.mp (hmoves.sublist ?_)
  rw [List.map_append, List.map_append]
  exact (now_play ..).append (now_play ..)

/-- The sweeps that went through: task, time, cutoff and what they deleted. -/
def sweepOf : Event (Option Bool) Eff.Answer ℚ Empty → Option (Option Bool × ℚ × ℚ × ℕ)
  | .task i now ⟨.store (.purgeBefore cutoff), .ok n⟩ => some (i, now, cutoff, n)
  | _ => none

theorem swept_mem {tr : List (Event (Option Bool) Eff.Answer ℚ Empty)} {i : Option Bool}
    {now cutoff : ℚ} {n : ℕ} (h : (i, now, cutoff, n) ∈ tr.filterMap sweepOf) :
    Service.swept i now cutoff n ∈ tr := by
  obtain ⟨ev, hmem, hev⟩ := List.mem_filterMap.mp h
  unfold sweepOf at hev
  split at hev
  · cases hev
    exact hmem
  · cases hev

/-- The sweep finds the first ping, which has been completed for more than a day. -/
theorem ping_swept_away : Service.Swept 13600 laterPlay.2.2 ∧
    ∀ row ∈ firstPlay.2.2.requests.rows,
      repeating.SweptIn firstPlay.2.2 laterPlay.1 fun s now ↦ ∃ row' ∈ s.requests.rows,
        row'.asReceived = row.asReceived ∧ ∃ c ∈ row'.completedAt, c + repeating.window < now := by
  have hwindow := Service.retention_window firstPlay_run laterPlay_run repeating_ascends
  have hswept : Service.swept none 100000 13600 1 ∈ firstPlay.1 ++ laterPlay.1 :=
    swept_mem (by decide +kernel)
  have hfirst : ∀ row ∈ firstPlay.2.2.requests.rows, row.receivedAt = 1 := by decide +kernel
  have hagain : ∀ row ∈ laterPlay.2.2.requests.rows, row.receivedAt = 100001 := by decide +kernel
  refine ⟨(hwindow.2.2.2 _ _ _ _ hswept).2, fun row hrow ↦ (hwindow.1 row hrow).resolve_left ?_⟩
  rintro ⟨row', hrow', hsame⟩
  have hreceived : row'.receivedAt = row.receivedAt := (RequestRow.mk.inj hsame).2.2.2.2.1
  rw [hfirst row hrow, hagain row' hrow'] at hreceived
  exact absurd hreceived (by norm_num)

theorem inc_mem {tr : Trace} (h : true ∈ marks Eff.handling tr) : ⟨.inc, ()⟩ ∈ tr := by
  obtain ⟨⟨e, r⟩, hmem, he⟩ := List.mem_filterMap.mp h
  cases e with
  | inc => exact hmem
  | _ => cases he

/-- Both pings have been handled. -/
theorem ping_handled_again : ∃ now now',
    repeating.SweptBetween Db.empty (firstPlay.1 ++ laterPlay.1)
      (repeating.acceptance (some true) Transport.pingRequest now)
      (repeating.acceptance (some false) Transport.pingRequest now') ("node-a", "r1") ∨
    repeating.SweptBetween Db.empty (firstPlay.1 ++ laterPlay.1)
      (repeating.acceptance (some false) Transport.pingRequest now')
      (repeating.acceptance (some true) Transport.pingRequest now) ("node-a", "r1") :=
  Service.handled_again (firstPlay_run.append laterPlay_run) repeating_ascends
    (by decide) rfl rfl rfl (inc_mem (by decide +kernel)) (inc_mem (by decide +kernel))

end MeshcoreRpc
