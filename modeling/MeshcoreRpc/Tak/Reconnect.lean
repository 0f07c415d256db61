import MeshcoreRpc.Tak.Sink
import MeshcoreRpc.Transport.Gpsd

/-!
# The waits between two attempts

`_run` of the sink with its counter, over the steps of the sink.  As with the
GPSD client a session returns only when the sink is stopping, so the counter is
never set back between two attempts, and after a lost session the wait goes on
growing.
-/

namespace MeshcoreRpc.Tak

/-- `_RECONNECT_DELAYS` -/
def reconnectDelays : List ℚ := [1, 2, 5, 10, 30]

/-- The sink with the locals of `_run`. -/
structure Reconnecting (α : Type) where
  sink : TakSink α
  /-- The loop condition of `_session` has failed, so that it returns. -/
  returning : Bool := false
  retries : Backoff.Retries ℚ := {}

namespace TakSink

variable {α : Type}

/-- The event loop of `_session` has been left. -/
def left (s : TakSink α) : Bool :=
  match s.phase with
  | .closing _ => true
  | _ => false

@[simp] theorem serve_stop (s : TakSink α) : s.serve.stop = s.stop := rfl

@[simp] theorem serve_left (s : TakSink α) : s.serve.left = s.stop := by
  cases h : s.stop <;> simp [serve, left, h]

@[simp] theorem established_stop (s : TakSink α) : s.established.stop = s.stop := by
  simp only [established]
  split
  · split <;> rfl
  · rfl

theorem established_left {s : TakSink α} (h : s.established.left = true) : s.stop = true := by
  simp only [established] at h
  split at h
  · split at h
    · cases h
    · rwa [serve_left] at h
  · rwa [serve_left] at h

/-- The flag of `stop` is cleared by nothing but the start of a new task. -/
theorem step_stop {s s' : TakSink α} {action : SinkAction α} (h : s.step action = some s')
    (hstop : s.stop = true) : action = .start ∧ s.phase = .absent ∨ s'.stop = true := by
  cases step_moves h with
  | start =>
      cases hphase : s.phase with
      | absent => exact .inl ⟨rfl, rfl⟩
      | _ => exact .inr (by simp [start, hphase, hstop])
  | stop => exact .inr rfl
  | opened => exact .inr (by rw [established_stop, hstop])
  | _ => exact .inr hstop

end TakSink

namespace Reconnecting

variable {α : Type}

/-- Back in `_run` after `_session`, the sink being as that leaves it. -/
def retry (sink : TakSink α) (connected returned : Bool) (r : Reconnecting α) : Reconnecting α :=
  { r with
    sink := sink
    retries := r.retries.after reconnectDelays connected returned r.sink.stop }

def step (r : Reconnecting α) (action : SinkAction α) : Option (Reconnecting α) := do
  let sink ← r.sink.step action
  match action, r.sink.phase with
  | .start, .absent => return { sink }
  | .opened, .connecting => return { r with sink, returning := sink.left }
  | .calledBack, .reconnecting => return { r with sink, returning := sink.left }
  | .timedOut, .serving => return { r with sink, returning := sink.left }
  | .drained, .draining _ => return { r with sink, returning := sink.left }
  | .failed, _ => return { r with sink, returning := false }
  | .raised, .connecting => return r.retry sink false false
  | .raised, _ => return { r with sink, returning := false }
  | .closed, .closing false => return r.retry sink true r.returning
  | _, _ => return { r with sink }

/-- The sink and its loop after the actions, if they can be taken one after the
other. -/
def run (onReconnect : Bool) (actions : List (SinkAction α)) : Option (Reconnecting α) :=
  actions.foldlM step { sink := { onReconnect } }

theorem step_sink {r r' : Reconnecting α} {action : SinkAction α} (h : r.step action = some r') :
    r.sink.step action = some r'.sink := by
  rw [step, Option.bind_eq_bind, Option.bind_eq_some_iff] at h
  obtain ⟨sink, hsink, h⟩ := h
  rw [hsink]
  split at h <;> cases h <;> rfl

theorem step_of_sink (r : Reconnecting α) {action : SinkAction α} {sink : TakSink α}
    (h : r.sink.step action = some sink) : ∃ r', r.step action = some r' := by
  rw [step, h, Option.bind_eq_bind, Option.bind_some]
  split <;> exact ⟨_, rfl⟩

/-! ## The counter -/

/-- The counter counts the attempts, and no session returns before the sink is
stopping. -/
structure Retrying (r : Reconnecting α) : Prop where
  counts : Backoff.Counts reconnectDelays r.retries
  returning : r.returning = true → r.sink.stop = true

/-- A step that takes the flag along keeps the bound on `returning`. -/
theorem Retrying.move {r : Reconnecting α} {sink : TakSink α} (h : Retrying r) {returning : Bool}
    (hreturning : returning = true → sink.stop = true) :
    Retrying { r with sink := sink, returning := returning } :=
  ⟨h.counts, hreturning⟩

theorem Retrying.step {r r' : Reconnecting α} {action : SinkAction α} (h : Retrying r)
    (hstep : r.step action = some r') : Retrying r' := by
  rw [Reconnecting.step, Option.bind_eq_bind, Option.bind_eq_some_iff] at hstep
  obtain ⟨sink, hsink, hstep⟩ := hstep
  have hstop (hreturning : r.returning = true)
      (hnew : ¬ (action = .start ∧ r.sink.phase = .absent)) :
      sink.stop = true :=
    (TakSink.step_stop hsink (h.returning hreturning)).resolve_left hnew
  have hserve (hserved : r.sink.serve = sink) : sink.left = true → sink.stop = true := by
    rw [← hserved, TakSink.serve_left, TakSink.serve_stop]
    exact id
  split at hstep
  case h_1 =>
    cases hstep
    exact ⟨Backoff.counts_start, by simp⟩
  case h_2 hphase =>
    cases hstep
    simp only [TakSink.step, hphase, Option.some.injEq] at hsink
    refine h.move fun hleft ↦ ?_
    rw [← hsink] at hleft ⊢
    rw [TakSink.established_stop]
    exact TakSink.established_left hleft
  -- The callback, the poll and the drain all lead to the loop condition.
  case h_3 hphase | h_4 hphase | h_5 hphase =>
    cases hstep
    simp only [TakSink.step, hphase, Option.some.injEq] at hsink
    exact h.move (hserve hsink)
  case h_6 | h_8 =>
    cases hstep
    exact h.move (by simp)
  case h_7 =>
    cases hstep
    exact ⟨h.counts.after false (by simp), fun hreturning ↦ hstop hreturning (by simp)⟩
  case h_9 =>
    cases hstep
    exact ⟨h.counts.after true h.returning, fun hreturning ↦ hstop hreturning (by simp)⟩
  case h_10 =>
    cases hstep
    refine h.move fun hreturning ↦ hstop hreturning fun hstart ↦ ?_
    simp_all

theorem run_retrying {onReconnect : Bool} {actions : List (SinkAction α)} {r : Reconnecting α}
    (h : run onReconnect actions = some r) : Retrying r :=
  Machine.invariant h ⟨Backoff.counts_start, by simp⟩ fun _ _ _ ↦ Retrying.step

end Reconnecting

/-! ## Both loops -/

/-- The waits of both loops start again after every connection exactly where at
every wait no attempt but the first has connected, or four have failed in a row
since one did. -/
theorem waits_restart_iff (α : Type) (onReconnect onFix : Bool) (maxAccM : Option PyFloat)
    (actions : List (SinkAction α)) (moves : List Gpsd.ClientAction) :
    (∀ r, Reconnecting.run onReconnect actions = some r →
      (Backoff.Restarts reconnectDelays r.retries ↔ Backoff.Worn 4 r.retries.connected)) ∧
    ∀ s, Gpsd.GpsdClient.run onFix maxAccM moves = some s →
      (Backoff.Restarts Gpsd.reconnectDelays s.retries ↔ Backoff.Worn 4 s.retries.connected) := by
  refine ⟨fun r hrun ↦ ?_, fun s hrun ↦ ?_⟩
  · exact (Reconnecting.run_retrying hrun).counts.restarts_iff (by decide) (by decide)
  · exact (Gpsd.GpsdClient.run_retrying hrun).counts.restarts_iff (by decide) (by decide)

/-- A session of the sink that ends with a failed write, `n` times over. -/
def lostSessions (n : ℕ) : List (SinkAction ℕ) :=
  .start :: (List.replicate n
    [.attempt, .opened, .send 7, .took, .wrote, .failed, .closed]).flatten

/-- A session of the GPSD client that ends with the stream, `n` times over. -/
def endedStreams (n : ℕ) : List Gpsd.ClientAction :=
  .start :: (List.replicate n
    [.attempt, .opened, .banner, .drained, .read 0 .eof, .closed]).flatten

/-- After one lost session both wait one second. -/
theorem lost_once_restarts :
    (∃ r, Reconnecting.run false (lostSessions 1) = some r ∧ r.retries.waits = [1] ∧
        Backoff.Restarts reconnectDelays r.retries) ∧
      ∃ s, Gpsd.GpsdClient.run true none (endedStreams 1) = some s ∧ s.retries.waits = [1] ∧
        Backoff.Restarts Gpsd.reconnectDelays s.retries := by
  have hworn : Backoff.Worn 4 [true] := by
    intro n hn
    have hzero : n = 0 := by simpa using hn
    subst hzero
    exact .inl (by decide)
  have hrestart := waits_restart_iff ℕ false true none (lostSessions 1) (endedStreams 1)
  exact ⟨⟨_, rfl, rfl, (hrestart.1 _ rfl).mpr hworn⟩, ⟨_, rfl, rfl, (hrestart.2 _ rfl).mpr hworn⟩⟩

/-- After a second lost session, which had connected at once, both wait two
seconds. -/
theorem lost_twice_waits_two :
    (∃ r, Reconnecting.run false (lostSessions 2) = some r ∧ r.retries.connected = [true, true] ∧
        r.retries.waits = [1, 2] ∧ ¬ Backoff.Restarts reconnectDelays r.retries) ∧
      ∃ s, Gpsd.GpsdClient.run true none (endedStreams 2) = some s ∧
        s.retries.connected = [true, true] ∧ s.retries.waits = [1, 2] ∧
        ¬ Backoff.Restarts Gpsd.reconnectDelays s.retries := by
  refine ⟨⟨_, rfl, rfl, rfl, fun h ↦ ?_⟩, ⟨_, rfl, rfl, rfl, fun h ↦ ?_⟩⟩
  · exact absurd (h 1 2 rfl) (by decide)
  · exact absurd (h 1 2 rfl) (by decide)

end MeshcoreRpc.Tak
