import MeshcoreRpc.Lib.Interleaving

/-!
# Transactions on one shared database connection

A transaction body is a coroutine whose effects are statements.  Under
`with conn:` the statements are executed and then committed, or rolled back
when the body raises.  Run alone that is atomic (`atomically`).  Here many
threads run their bodies on *one* connection: it holds a single open
transaction, whoever executes adds to it, and whoever commits or rolls back
does so for everybody.  `run_journal` is what remains of atomicity when every
rollback finds nothing but its own statements.
-/

namespace SharedConnection

open Coroutine Coro Interleaving

variable {S N D ε α β ι τ : Type}

/-- The body of a transaction: it awaits statements of type `S`, each of which
returns a row count or raises. -/
abbrev Tx (S N ε : Type) : Type → Type := Coro (fun _ : S ↦ Except ε N) ε

def execute (s : S) : Tx S N ε N := .await s fun r ↦ .ofOutcome r

inductive Sql (S : Type) where
  | execute (s : S)
  | commit
  | rollback

abbrev Sql.Answer (N ε : Type) : Sql S → Type
  | .execute _ => Except ε N
  | .commit => Unit
  | .rollback => Unit

abbrev Thread (S N ε : Type) : Type → Type := Coro (Sql.Answer (S := S) N ε) ε

/-- `with conn: body` -/
def withConn : Tx S N ε α → Thread S N ε α
  | .ret a => .await .commit fun _ ↦ .ret a
  | .raise err => .await .rollback fun _ ↦ .raise err
  | .await s next => .await (.execute s) fun r ↦ withConn (next r)

/-- The body executes along the list `l` and raises what a statement raises. -/
def Straight : Tx S N ε α → List S → Prop
  | .ret _, _ => True
  | .raise _, _ => True
  | .await _ _, [] => False
  | .await s next, s' :: l =>
    s = s' ∧ (∀ n, Straight (next (.ok n)) l) ∧ ∀ err, Straight (next (.error err)) []

theorem Straight.ret (a : α) (l : List S) : Straight (.ret a : Tx S N ε α) l := by
  cases l <;> exact True.intro

theorem Straight.execute {s : S} {f : N → Tx S N ε α} {l : List S}
    (h : ∀ n, Straight (f n) l) : Straight (execute s >>= f) (s :: l) :=
  ⟨rfl, h, fun _ ↦ True.intro⟩

theorem Straight.bind_ret {body : Tx S N ε α} {l : List S} (h : Straight body l)
    (f : α → β) : Straight (body >>= fun a ↦ pure (f a)) l := by
  change Straight (body.bind fun a ↦ .ret (f a)) l
  induction body generalizing l with
  | ret a => exact .ret (f a) l
  | raise err => cases l <;> exact True.intro
  | await s next ih =>
      cases l with
      | nil => exact h.elim
      | cons s' l =>
          obtain ⟨rfl, hok, herr⟩ := h
          exact ⟨rfl, fun n ↦ ih (.ok n) (hok n), fun err ↦ ih (.error err) (herr err)⟩

@[simp] theorem wp_execute {s : S}
    {Q : List (Exchange fun _ : S ↦ Except ε N) → Except ε N → Prop} :
    (execute s : Tx S N ε N).wp Q ↔ ∀ r, Q [⟨s, r⟩] r := by
  simp [execute]

/-- The exchanges of a block whose body has made the exchanges `tr` and ended in `o`. -/
def blockExchanges (tr : List (Exchange fun _ : S ↦ Except ε N)) (o : Except ε α) :
    List (Exchange (Sql.Answer (S := S) N ε)) :=
  tr.map (fun x ↦ ⟨.execute x.1, x.2⟩) ++
    match o with
    | .ok _ => [⟨.commit, ()⟩]
    | .error _ => [⟨.rollback, ()⟩]

theorem wp_withConn {body : Tx S N ε α}
    {Q : List (Exchange (Sql.Answer (S := S) N ε)) → Except ε α → Prop} :
    (withConn body).wp Q ↔ body.wp fun tr o ↦ Q (blockExchanges tr o) o := by
  induction body generalizing Q with
  | ret a => exact ⟨fun h ↦ h (), fun h _ ↦ h⟩
  | raise err => exact ⟨fun h ↦ h (), fun h _ ↦ h⟩
  | await s next ih => exact forall_congr' fun r ↦ ih r

section Database

variable (apply : S → D → Except ε (D × N))

/-- A statement that raises leaves the database alone. -/
def answer (s : S) (d : D) : Except ε N × D :=
  match apply s d with
  | .ok (d', n) => (.ok n, d')
  | .error err => (.error err, d)

@[simp] theorem eval_execute (s : S) (d : D) :
    (execute s : Tx S N ε N).eval (answer apply) d = answer apply s d := by
  simp [execute]

/-- A body run with the connection to itself. -/
def atomically (body : Tx S N ε α) (d : D) : Except ε (D × α) :=
  match body.eval (answer apply) d with
  | (.ok a, d') => .ok (d', a)
  | (.error err, _) => .error err

/-- The statements a connection has executed, with the threads that did it:
those committed, and those of the open transaction. -/
structure Journal (ι S : Type) where
  committed : List (ι × S)
  pending : List (ι × S)

def Journal.start : Journal ι S := ⟨[], []⟩

/-- The database a list of statements leaves. -/
def replay (d₀ : D) (log : List (ι × S)) : D :=
  log.foldl (fun d entry ↦ (answer apply entry.2 d).2) d₀

def Journal.log (j : Journal ι S) : List (ι × S) := j.committed ++ j.pending

/-- What the connection sees: its open transaction included. -/
def Journal.view (d₀ : D) (j : Journal ι S) : D := replay apply d₀ j.log

/-- What is in the database file. -/
def Journal.stored (d₀ : D) (j : Journal ι S) : D := replay apply d₀ j.committed

/-- One exchange of a thread with the connection.  An execute may also raise
for a reason of its own, whatever the statement would have done. -/
inductive Connection (d₀ : D) :
    Journal ι S → Event ι (Sql.Answer (S := S) N ε) τ Empty → Journal ι S → Prop
  | executed {j : Journal ι S} {d' : D} (i : ι) (now : τ) (s : S) (n : N)
      (h : apply s (j.view apply d₀) = .ok (d', n)) :
      Connection d₀ j (.task i now ⟨.execute s, Except.ok n⟩)
        ⟨j.committed, j.pending ++ [(i, s)]⟩
  | raised {j : Journal ι S} (i : ι) (now : τ) (s : S) (err : ε) :
      Connection d₀ j (.task i now ⟨.execute s, Except.error err⟩) j
  | commit {j : Journal ι S} (i : ι) (now : τ) :
      Connection d₀ j (.task i now ⟨.commit, ()⟩) ⟨j.committed ++ j.pending, []⟩
  | rollback {j : Journal ι S} (i : ι) (now : τ) :
      Connection d₀ j (.task i now ⟨.rollback, ()⟩) ⟨j.committed, []⟩

/-- The statements a thread has executed without an exception. -/
def executedIn (tr : List (Exchange (Sql.Answer (S := S) N ε))) : List S :=
  tr.filterMap fun
    | ⟨.execute s, Except.ok _⟩ => some s
    | _ => none

@[simp] theorem executedIn_append (tr tr' : List (Exchange (Sql.Answer (S := S) N ε))) :
    executedIn (tr ++ tr') = executedIn tr ++ executedIn tr' :=
  List.filterMap_append

section Own

variable [DecidableEq ι]

def own (i : ι) (log : List (ι × S)) : List S :=
  (log.filter fun entry ↦ decide (entry.1 = i)).map Prod.snd

@[simp] theorem own_nil (i : ι) : own i ([] : List (ι × S)) = [] := rfl

@[simp] theorem own_append (i : ι) (log log' : List (ι × S)) :
    own i (log ++ log') = own i log ++ own i log' := by
  simp [own]

@[simp] theorem own_singleton_self (i : ι) (s : S) : own i [(i, s)] = [s] := by simp [own]

theorem own_singleton_ne {i j : ι} (h : j ≠ i) (s : S) : own i [(j, s)] = [] := by
  simp [own, h]

theorem own_eq_nil {i : ι} {log : List (ι × S)} : own i log = [] ↔ ∀ entry ∈ log, entry.1 ≠ i := by
  simp [own]

theorem mem_own {i : ι} {log : List (ι × S)} {s : S} : s ∈ own i log ↔ (i, s) ∈ log := by
  simp [own]

end Own

/-- In the run `tr` every rollback finds in the open transaction only statements
of the thread that rolls back, and none of its statements committed. -/
def IsolatedRollbacks (d₀ : D)
    (tr : List (Event ι (Sql.Answer (S := S) N ε) τ Empty)) : Prop :=
  ∀ pre i now post j, tr = pre ++ .task i now ⟨.rollback, ()⟩ :: post →
    Evolves (Connection (ι := ι) (τ := τ) apply d₀) .start pre j →
      (∀ entry ∈ j.pending, entry.1 = i) ∧ ∀ entry ∈ j.committed, entry.1 ≠ i

/-- The journal after an event. -/
def Journal.after (j : Journal ι S) : Event ι (Sql.Answer (S := S) N ε) τ Empty → Journal ι S
  | .task i _ ⟨.execute s, .ok _⟩ => ⟨j.committed, j.pending ++ [(i, s)]⟩
  | .task _ _ ⟨.execute _, .error _⟩ => j
  | .task _ _ ⟨.commit, _⟩ => ⟨j.committed ++ j.pending, []⟩
  | .task _ _ ⟨.rollback, _⟩ => ⟨j.committed, []⟩

theorem Connection.eq_after {apply : S → D → Except ε (D × N)} {d₀ : D} {j j' : Journal ι S}
    {ev : Event ι (Sql.Answer (S := S) N ε) τ Empty} (h : Connection apply d₀ j ev j') :
    j' = j.after ev := by
  cases h <;> rfl

section Test

variable [DecidableEq ι]

def Journal.isolated (j : Journal ι S) : Event ι (Sql.Answer (S := S) N ε) τ Empty → Bool
  | .task i _ ⟨.rollback, _⟩ =>
    j.pending.all (fun entry ↦ entry.1 = i) && j.committed.all fun entry ↦ entry.1 ≠ i
  | _ => true

/-- `IsolatedRollbacks` as a test along the run. -/
def isolatedFrom (j : Journal ι S) : List (Event ι (Sql.Answer (S := S) N ε) τ Empty) → Bool
  | [] => true
  | ev :: tr => j.isolated ev && isolatedFrom (j.after ev) tr

theorem isolated_of_test {apply : S → D → Except ε (D × N)} {d₀ : D} {j₀ j : Journal ι S}
    {pre post : List (Event ι (Sql.Answer (S := S) N ε) τ Empty)} {i : ι} {now : τ}
    (h : isolatedFrom j₀ (pre ++ .task i now ⟨.rollback, ()⟩ :: post) = true)
    (hpre : Evolves (Connection apply d₀) j₀ pre j) :
    (∀ entry ∈ j.pending, entry.1 = i) ∧ ∀ entry ∈ j.committed, entry.1 ≠ i := by
  induction pre generalizing j₀ with
  | nil =>
      rw [Evolves.nil_iff.mp hpre]
      have hnow := (Bool.and_eq_true_iff.mp h).1
      simpa [Journal.isolated] using hnow
  | cons ev pre ih =>
      obtain ⟨j₁, hev, hrest⟩ := Evolves.cons_iff.mp hpre
      have hlater := (Bool.and_eq_true_iff.mp h).2
      rw [← hev.eq_after] at hlater
      exact ih hlater hrest

end Test

/-- Where a thread stands: inside its block everything it executed is in the
journal; once it has returned all of that is committed; once it has raised
nothing of it is left. -/
def ThreadState [DecidableEq ι] (i : ι) (c : Thread S N ε α) (j : Journal ι S)
    (done : List S) : Prop :=
  (∃ body : Tx S N ε α, c = withConn body ∧ own i (j.committed ++ j.pending) = done) ∨
    (∃ a, c = .ret a ∧ own i j.committed = done ∧ own i j.pending = []) ∨
    ∃ err, c = .raise err ∧ own i j.committed = [] ∧ own i j.pending = []

section Isolation

variable {apply}
variable [DecidableEq ι] {d₀ : D} {bodies : ι → Tx S N ε α} {p : ι → Thread S N ε α}
  {tr : List (Event ι (Sql.Answer (S := S) N ε) τ Empty)} {j j' : Journal ι S}
  {ev : Event ι (Sql.Answer (S := S) N ε) τ Empty}

omit [DecidableEq ι] in
theorem IsolatedRollbacks.of_snoc (h : IsolatedRollbacks apply d₀ (tr ++ [ev])) :
    IsolatedRollbacks apply d₀ tr := by
  intro pre i now post j htr hpre
  apply h pre i now (post ++ [ev]) j _ hpre
  rw [htr, List.append_assoc, List.cons_append]

theorem isolatedRollbacks_of_test (h : isolatedFrom .start tr = true) :
    IsolatedRollbacks apply d₀ tr := by
  rintro pre i now post j rfl hpre
  exact isolated_of_test h hpre

/-- What another thread does moves a thread's statements at most from the open
transaction to the database, as long as rollbacks are isolated. -/
theorem ThreadState.frame {i k : ι} (hk : k ≠ i) {c : Thread S N ε α} {done : List S} {now : τ}
    {x : Exchange (Sql.Answer (S := S) N ε)} (h : ThreadState k c j done)
    (hstep : Connection apply d₀ j (.task i now x) j')
    (hroll : x = ⟨.rollback, ()⟩ → ∀ entry ∈ j.pending, entry.1 = i) :
    ThreadState k c j' done := by
  cases hstep with
  | executed _ _ s n happly =>
      have hown : own k [(i, s)] = [] := own_singleton_ne (Ne.symm hk) s
      simpa [ThreadState, hown] using h
  | raised => exact h
  | commit =>
      rcases h with ⟨b, hc, hown⟩ | ⟨a, hc, hown, hpend⟩ | ⟨err, hc, hown, hpend⟩
      · exact .inl ⟨b, hc, by simpa using hown⟩
      · exact .inr (.inl ⟨a, hc, by simp [hown, hpend], rfl⟩)
      · exact .inr (.inr ⟨err, hc, by simp [hown, hpend], rfl⟩)
  | rollback =>
      have hpend : own k j.pending = [] :=
        own_eq_nil.mpr fun entry hmem heq ↦ hk (heq.symm.trans (hroll rfl entry hmem))
      rcases h with ⟨b, hc, hown⟩ | ⟨a, hc, hown, _⟩ | ⟨err, hc, hown, _⟩
      · exact .inl ⟨b, hc, by simpa [hpend] using hown⟩
      · exact .inr (.inl ⟨a, hc, hown, rfl⟩)
      · exact .inr (.inr ⟨err, hc, hown, rfl⟩)

/-- The thread that steps: a statement is added, a commit ends the block with
everything in the database, an isolated rollback with nothing. -/
theorem ThreadState.step {i : ι} {now : τ} {e : Sql S} {next : Sql.Answer N ε e → Thread S N ε α}
    {r : Sql.Answer N ε e} {done : List S} (h : ThreadState i (.await e next) j done)
    (hstep : Connection apply d₀ j (.task i now ⟨e, r⟩) j')
    (hroll : (⟨e, r⟩ : Exchange (Sql.Answer (S := S) N ε)) = ⟨.rollback, ()⟩ →
      ∀ entry ∈ j.committed, entry.1 ≠ i) :
    ThreadState i (next r) j' (done ++ executedIn [⟨e, r⟩]) := by
  rcases h with ⟨b, hc, hown⟩ | ⟨a, hc, _⟩ | ⟨err, hc, _⟩
  · cases b with
    | ret a =>
        cases hc
        cases hstep
        exact .inr (.inl ⟨a, rfl, by simpa [executedIn] using hown, rfl⟩)
    | raise err =>
        cases hc
        cases hstep
        exact .inr (.inr ⟨err, rfl, own_eq_nil.mpr (hroll rfl), rfl⟩)
    | await s nextBody =>
        cases hc
        cases hstep with
        | executed _ _ _ n happly =>
            refine .inl ⟨nextBody (.ok n), rfl, ?_⟩
            rw [← hown, ← List.append_assoc, own_append, own_singleton_self]
            rfl
        | raised _ _ _ err =>
            exact .inl ⟨nextBody (.error err), rfl, by simpa [executedIn] using hown⟩
  · cases hc
  · cases hc

theorem run_journal (h : Run (Connection apply d₀) (fun i ↦ withConn (bodies i)) .start tr p j)
    (hiso : IsolatedRollbacks apply d₀ tr) (i : ι) :
    ThreadState i (p i) j (executedIn (exchangesOf i tr)) := by
  induction h with
  | start => exact .inl ⟨bodies i, rfl, rfl⟩
  | @task tr p j j' k now e next r past waiting answered ih =>
      have hroll : (⟨e, r⟩ : Exchange (Sql.Answer (S := S) N ε)) = ⟨.rollback, ()⟩ →
          (∀ entry ∈ j.pending, entry.1 = k) ∧ ∀ entry ∈ j.committed, entry.1 ≠ k := by
        intro hx
        exact hiso tr k now [] j (by rw [hx]) past.evolves
      have ih' := ih hiso.of_snoc
      rw [exchangesOf_append]
      by_cases hk : i = k
      · subst hk
        rw [exchangesOf_task_self, exchangesOf_nil, executedIn_append, Function.update_self]
        exact (waiting ▸ ih').step answered fun hx ↦ (hroll hx).2
      · rw [exchangesOf_task_ne (Ne.symm hk), exchangesOf_nil, List.append_nil,
          Function.update_of_ne hk]
        exact ih'.frame hk answered fun hx ↦ (hroll hx).1
  | env now a past acted ih => exact a.elim

/-- A thread that returned has everything it executed in the database. -/
theorem returned_committed
    (h : Run (Connection apply d₀) (fun i ↦ withConn (bodies i)) .start tr p j)
    (hiso : IsolatedRollbacks apply d₀ tr) {i : ι} {a : α} (hp : p i = .ret a) :
    own i j.committed = executedIn (exchangesOf i tr) := by
  rcases run_journal h hiso i with ⟨b, hc, _⟩ | ⟨_, _, hown, _⟩ | ⟨err, hc, _⟩
  · rw [hp] at hc
    cases b <;> cases hc
  · exact hown
  · rw [hp] at hc
    cases hc

theorem raised_absent
    (h : Run (Connection apply d₀) (fun i ↦ withConn (bodies i)) .start tr p j)
    (hiso : IsolatedRollbacks apply d₀ tr) {i : ι} {err : ε} (hp : p i = .raise err) :
    own i j.committed = [] := by
  rcases run_journal h hiso i with ⟨b, hc, _⟩ | ⟨a, hc, _⟩ | ⟨_, _, hown, _⟩
  · rw [hp] at hc
    cases b <;> cases hc
  · rw [hp] at hc
    cases hc
  · exact hown

end Isolation

section Logs

variable [DecidableEq ι]

/-- Every statement of the log was executed in the run, and on the database
that the statements before it leave. -/
inductive Logged (d₀ : D) (tr : List (Event ι (Sql.Answer (S := S) N ε) τ Empty)) :
    List (ι × S) → Prop
  | nil : Logged d₀ tr []
  | snoc {log : List (ι × S)} {d' : D} {i : ι} {s : S} {n : N} (past : Logged d₀ tr log)
      (happly : apply s (replay apply d₀ log) = .ok (d', n))
      (hmem : ⟨.execute s, Except.ok n⟩ ∈ exchangesOf i tr) : Logged d₀ tr (log ++ [(i, s)])

variable {apply}
variable {d₀ d' : D} {tr tr' : List (Event ι (Sql.Answer (S := S) N ε) τ Empty)}
  {j : Journal ι S} {log log' : List (ι × S)} {i : ι} {s : S} {n : N}

omit [DecidableEq ι] in
theorem replay_snoc (h : apply s (replay apply d₀ log) = .ok (d', n)) :
    replay apply d₀ (log ++ [(i, s)]) = d' := by
  have hfold : replay apply d₀ (log ++ [(i, s)]) = (answer apply s (replay apply d₀ log)).2 := by
    rw [replay, List.foldl_append]
    rfl
  rw [hfold, answer, h]

theorem Logged.mono (h : Logged apply d₀ tr log) :
    Logged apply d₀ (tr ++ tr') log := by
  induction h with
  | nil => exact .nil
  | snoc past happly hmem ih =>
      refine .snoc ih happly ?_
      rw [exchangesOf_append]
      exact List.mem_append_left _ hmem

theorem Logged.left (h : Logged apply d₀ tr (log ++ log')) :
    Logged apply d₀ tr log := by
  generalize hl : log ++ log' = l at h
  induction h generalizing log' with
  | nil =>
      rw [(List.append_eq_nil_iff.mp hl).1]
      exact .nil
  | snoc past happly hmem ih =>
      rcases List.eq_nil_or_concat log' with rfl | ⟨init, entry, rfl⟩
      · rw [List.append_nil] at hl
        exact hl ▸ .snoc past happly hmem
      · rw [List.concat_eq_append, ← List.append_assoc] at hl
        exact ih (List.append_inj' hl rfl).1

theorem logged (h : Evolves (Connection apply d₀) .start tr j) :
    Logged apply d₀ tr j.log := by
  induction h with
  | start => exact .nil
  | @step tr j j' ev past now ih =>
      cases now with
      | executed i t s n happly =>
          rw [Journal.log, ← List.append_assoc]
          refine .snoc ih.mono happly ?_
          simp
      | raised => exact ih.mono
      | commit i t =>
          rw [Journal.log, List.append_nil]
          exact ih.mono
      | rollback i t =>
          rw [Journal.log, List.append_nil]
          exact ih.left.mono

theorem own_sublist (h : Evolves (Connection apply d₀) .start tr j) (i : ι) :
    (own i j.log).Sublist (executedIn (exchangesOf i tr)) := by
  induction h with
  | start => exact List.Sublist.refl _
  | @step tr j j' ev past now ih =>
      have grow {ev : Event ι (Sql.Answer (S := S) N ε) τ Empty} :
          (executedIn (exchangesOf i tr)).Sublist (executedIn (exchangesOf i (tr ++ [ev]))) := by
        rw [exchangesOf_append, executedIn_append]
        exact List.sublist_append_left _ _
      cases now with
      | executed k t s n happly =>
          rw [Journal.log, ← List.append_assoc, own_append, exchangesOf_append, executedIn_append]
          refine ih.append ?_
          by_cases hk : k = i
          · subst hk
            simp [executedIn]
          · rw [own_singleton_ne hk]
            exact List.nil_sublist _
      | raised => exact ih.trans grow
      | commit k t =>
          rw [Journal.log, List.append_nil]
          exact ih.trans grow
      | rollback k t =>
          rw [Journal.log, own_append] at ih
          rw [Journal.log, List.append_nil]
          exact ((List.sublist_append_left _ _).trans ih).trans grow

end Logs

theorem Straight.executedIn_prefix {body : Tx S N ε α} {l : List S}
    {tr : List (Exchange (Sql.Answer (S := S) N ε))} {c : Thread S N ε α}
    (h : Straight body l) (hsteps : Steps (withConn body) tr c) : executedIn tr <+: l := by
  induction body generalizing l tr with
  | ret a =>
      cases hsteps with
      | refl => exact List.nil_prefix
      | answer _ _ r rest =>
          obtain ⟨rfl, _⟩ := Steps.ret_iff.mp rest
          exact List.nil_prefix
  | raise err =>
      cases hsteps with
      | refl => exact List.nil_prefix
      | answer _ _ r rest =>
          obtain ⟨rfl, _⟩ := Steps.raise_iff.mp rest
          exact List.nil_prefix
  | await s next ih =>
      cases l with
      | nil => exact h.elim
      | cons s' l =>
          obtain ⟨rfl, hok, herr⟩ := h
          cases hsteps with
          | refl => exact List.nil_prefix
          | answer _ _ r rest =>
              cases r with
              | ok n => exact List.cons_prefix_cons.mpr ⟨rfl, ih (.ok n) (hok n) rest⟩
              | error err => exact (ih (.error err) (herr err) rest).trans List.nil_prefix

theorem returns_withConn {P : α → Prop} {body : Tx S N ε α} (h : body.Returns P) :
    (withConn body).Returns P := by
  induction body with
  | ret a => exact fun _ ↦ h
  | raise err => exact fun _ ↦ True.intro
  | await s next ih => exact fun r ↦ ih r (h r)

/-! ## An answering connection -/

/-- Answer a thread as the connection stands. -/
def Journal.respond (d₀ : D) (i : ι) : (e : Sql S) → Journal ι S → Sql.Answer N ε e × Journal ι S
  | .execute s, j =>
    match apply s (j.view apply d₀) with
    | .ok (_, n) => (.ok n, ⟨j.committed, j.pending ++ [(i, s)]⟩)
    | .error err => (.error err, j)
  | .commit, j => ((), ⟨j.log, []⟩)
  | .rollback, j => ((), ⟨j.committed, []⟩)

theorem Journal.respond_connection (d₀ : D) (i : ι) (now : τ) (e : Sql S) (j : Journal ι S) :
    Connection apply d₀ j (.task i now ⟨e, (j.respond apply (N := N) (ε := ε) d₀ i e).1⟩)
      (j.respond apply (N := N) (ε := ε) d₀ i e).2 := by
  cases e with
  | execute s =>
      cases h : apply s (j.view apply d₀) with
      | ok out =>
          simp only [Journal.respond, h]
          exact .executed i now s out.2 h
      | error err =>
          simp only [Journal.respond, h]
          exact .raised i now s err
  | commit => exact .commit i now
  | rollback => exact .rollback i now

/-- A block that has the connection to itself leaves in the database what its
body leaves when run atomically. -/
theorem eval_withConn (d₀ : D) (i : ι) (body : Tx S N ε α) (j : Journal ι S) :
    ((withConn body).eval (Journal.respond apply d₀ i) j).1 =
        (body.eval (answer apply) (j.view apply d₀)).1 ∧
      ((withConn body).eval (Journal.respond apply d₀ i) j).2.stored apply d₀ =
        match body.eval (answer apply) (j.view apply d₀) with
        | (.ok _, d') => d'
        | (.error _, _) => replay apply d₀ j.committed := by
  induction body generalizing j with
  | ret a => exact ⟨rfl, rfl⟩
  | raise err => exact ⟨rfl, rfl⟩
  | await s next ih =>
      cases h : apply s (j.view apply d₀) with
      | error err => simpa [withConn, Journal.respond, answer, h] using ih (.error err) j
      | ok out =>
          obtain ⟨d', n⟩ := out
          have hview : Journal.view apply d₀ ⟨j.committed, j.pending ++ [(i, s)]⟩ = d' := by
            rw [Journal.view, Journal.log, ← List.append_assoc]
            exact replay_snoc h
          have ih' := ih (.ok n) ⟨j.committed, j.pending ++ [(i, s)]⟩
          rw [hview] at ih'
          simpa [withConn, Journal.respond, answer, h] using ih'

end Database

end SharedConnection
