import MeshcoreRpc.Lib.Machine
import Mathlib.Data.List.Basic
import Mathlib.Data.List.Infix

/-!
# The TAK sink

`tak/takserver.py`.  The queue is filled by `send` at any await of the task that
empties it.  A failed write puts its event back at the tail, behind newer ones;
it never leaves there, because every session but the first drops the queue.
-/

namespace MeshcoreRpc.Tak

/-- An event with its place among those handed to `send`. -/
structure Sent (α : Type) where
  place : ℕ
  cot : α

/-- An event passed to the writer of a session. -/
structure Written (α : Type) where
  session : ℕ
  event : Sent α

/-- Where the task of the sink is suspended. -/
inductive Phase (α : Type) where
  /-- There is no task, or it has ended. -/
  | absent
  /-- Before the loop condition of `_run`: just created, or between two attempts. -/
  | waiting
  | connecting
  /-- In the `on_reconnect` callback. -/
  | reconnecting
  | serving
  /-- `get` has returned the event. -/
  | holding (e : Sent α)
  | draining (e : Sent α)
  | closing (cancelled : Bool)

namespace Phase

variable {α : Type}

/-- A connection is open and the event loop of `_session` not left. -/
def inSession : Phase α → Bool
  | reconnecting => true
  | serving => true
  | holding _ => true
  | draining _ => true
  | _ => false

/-- The event taken from the queue and not yet written. -/
def held : Phase α → List (Sent α)
  | holding e => [e]
  | _ => []

end Phase

inductive SinkAction (α : Type) where
  | send (cot : α)
  | start
  | stop
  | attempt
  | opened
  | calledBack
  | took
  | timedOut
  | wrote
  | drained
  /-- `drain` raises a `ConnectionError`. -/
  | failed
  /-- What the task awaits raises another `Exception`. -/
  | raised
  | cancelled
  | closed

/-- `_QUEUE_CAP` -/
def queueCap : ℕ := 256

structure TakSink (α : Type) where
  /-- A callback was given. -/
  onReconnect : Bool
  queue : List (Sent α) := []
  phase : Phase α := .absent
  stop : Bool := false
  wasConnected : Bool := false
  /-- What was handed to `send`. -/
  sent : List α := []
  written : List (Written α) := []
  /-- How many events had been sent when each session was opened. -/
  openedAt : List ℕ := []

namespace TakSink

variable {α : Type}

/-- `put_nowait`, none for `QueueFull`. -/
def putNowait (queue : List (Sent α)) (e : Sent α) : Option (List (Sent α)) :=
  if queue.length < queueCap then some (queue ++ [e]) else none

def send (cot : α) (s : TakSink α) : TakSink α :=
  let e : Sent α := ⟨s.sent.length, cot⟩
  { s with
    sent := s.sent ++ [cot]
    queue :=
      match putNowait s.queue e with
      | some queue => queue
      | none => (putNowait s.queue.tail e).getD s.queue.tail }

def start (s : TakSink α) : TakSink α :=
  match s.phase with
  | .absent => { s with stop := false, phase := .waiting }
  | _ => s

/-- Back at the loop condition of `_session`. -/
def serve (s : TakSink α) : TakSink α :=
  { s with phase := if s.stop then .closing false else .serving }

/-- `open_connection` has returned. -/
def established (s : TakSink α) : TakSink α :=
  let s := { s with openedAt := s.openedAt ++ [s.sent.length] }
  if s.wasConnected then
    let s := { s with queue := [] }
    if s.onReconnect then { s with phase := .reconnecting } else s.serve
  else { s with wasConnected := true }.serve

/-- After a session, or the attempt at one. -/
def retry (s : TakSink α) : TakSink α :=
  { s with phase := if s.stop then .absent else .waiting }

def step (s : TakSink α) (action : SinkAction α) : Option (TakSink α) :=
  match action, s.phase with
  | .send cot, _ => some (s.send cot)
  | .start, _ => some s.start
  | .stop, _ => some { s with stop := true }
  | .attempt, .waiting => some { s with phase := if s.stop then .absent else .connecting }
  | .opened, .connecting => some s.established
  | .calledBack, .reconnecting => some s.serve
  | .took, .serving =>
    match s.queue with
    | e :: rest => some { s with queue := rest, phase := .holding e }
    | [] => none
  | .timedOut, .serving => some s.serve
  | .wrote, .holding e =>
    some { s with written := s.written ++ [⟨s.openedAt.length - 1, e⟩], phase := .draining e }
  | .drained, .draining _ => some s.serve
  | .failed, .draining e =>
    some { s with queue := (putNowait s.queue e).getD s.queue, phase := .closing false }
  | .raised, .connecting => some s.retry
  | .raised, .serving => some { s with phase := .closing false }
  | .raised, .holding _ => some { s with phase := .closing false }
  | .raised, .draining _ => some { s with phase := .closing false }
  | .cancelled, .waiting => some { s with phase := .absent }
  | .cancelled, .connecting => some { s with phase := .absent }
  | .cancelled, .reconnecting => some { s with phase := .absent }
  | .cancelled, .serving => some { s with phase := .closing true }
  | .cancelled, .holding _ => some { s with phase := .closing true }
  | .cancelled, .draining _ => some { s with phase := .closing true }
  | .cancelled, .closing _ => some { s with phase := .absent }
  | .closed, .closing cancelled => some (if cancelled then { s with phase := .absent } else s.retry)
  | _, _ => none

/-- The sink after the actions, if they can be taken one after the other. -/
def run (onReconnect : Bool) (actions : List (SinkAction α)) : Option (TakSink α) :=
  actions.foldlM step { onReconnect }

/-- What one step does, by what becomes of the queue and the session. -/
inductive Moves (s : TakSink α) : SinkAction α → TakSink α → Prop
  | send (cot : α) : Moves s (.send cot) (s.send cot)
  | start : Moves s .start s.start
  | stop : Moves s .stop { s with stop := true }
  | attempt (phase : s.phase = .waiting) :
      Moves s .attempt { s with phase := if s.stop then .absent else .connecting }
  | opened (phase : s.phase = .connecting) : Moves s .opened s.established
  | serves {action : SinkAction α} (inside : s.phase.inSession = true) (held : s.phase.held = []) :
      Moves s action s.serve
  | took {e : Sent α} {rest : List (Sent α)} (phase : s.phase = .serving)
      (queue : s.queue = e :: rest) : Moves s .took { s with queue := rest, phase := .holding e }
  | wrote {e : Sent α} (phase : s.phase = .holding e) :
      Moves s .wrote
        { s with written := s.written ++ [⟨s.openedAt.length - 1, e⟩], phase := .draining e }
  | failed {e : Sent α} (phase : s.phase = .draining e) :
      Moves s .failed
        { s with queue := (putNowait s.queue e).getD s.queue, phase := .closing false }
  | retries {action : SinkAction α} (outside : s.phase.inSession = false) :
      Moves s action s.retry
  /-- Out of the session, to the end of the connection. -/
  | closes {action : SinkAction α} (cancelled : Bool) (inside : s.phase.inSession = true)
      (how : action = .raised ∨ action = .cancelled) :
      Moves s action { s with phase := .closing cancelled }
  /-- The task has ended. -/
  | ends {action : SinkAction α} (held : s.phase.held = []) :
      Moves s action { s with phase := .absent }

theorem step_moves {s s' : TakSink α} {action : SinkAction α} (h : s.step action = some s') :
    Moves s action s' := by
  cases action with
  | send cot =>
      cases h
      exact .send cot
  | start =>
      cases h
      exact .start
  | stop =>
      cases h
      exact .stop
  | took =>
      cases hphase : s.phase <;> simp only [step, hphase, reduceCtorEq] at h
      split at h
      · rename_i hqueue
        cases h
        exact .took hphase hqueue
      · cases h
  | closed =>
      cases hphase : s.phase <;> simp only [step, hphase, reduceCtorEq, Option.some.injEq] at h
      subst h
      split
      · exact .ends (by rw [hphase]; rfl)
      · exact .retries (by rw [hphase]; rfl)
  | _ =>
      cases hphase : s.phase <;> simp only [step, hphase, reduceCtorEq, Option.some.injEq] at h
      all_goals subst h
      all_goals first
        | exact .attempt hphase
        | exact .opened hphase
        | exact .wrote hphase
        | exact .failed hphase
        | exact .serves (by rw [hphase]; rfl) (by rw [hphase]; rfl)
        | exact .retries (by rw [hphase]; rfl)
        | exact .closes _ (by rw [hphase]; rfl) (by simp)
        | exact .ends (by rw [hphase]; rfl)

/-! ## The queue -/

/-- A full queue loses its oldest event to the new one. -/
theorem send_drops (cot : α) {s : TakSink α} (h : s.queue.length ≤ queueCap) :
    (s.send cot).queue = s.queue.drop (s.queue.length + 1 - queueCap) ++
      [(⟨s.sent.length, cot⟩ : Sent α)] := by
  have hcap : queueCap = 256 := rfl
  by_cases hroom : s.queue.length < queueCap
  · have hnone : s.queue.length + 1 - queueCap = 0 := by omega
    simp only [send, putNowait, if_pos hroom, hnone, List.drop_zero]
  · have hone : s.queue.length + 1 - queueCap = 1 := by omega
    have htail : s.queue.tail.length < queueCap := by
      rw [List.length_tail]
      omega
    simp only [send, putNowait, if_neg hroom, if_pos htail, Option.getD_some, hone, List.drop_one]

theorem send_queue (cot : α) {s : TakSink α} (h : s.queue.length ≤ queueCap) :
    ∃ kept, kept <:+ s.queue ∧ (s.send cot).queue = kept ++ [⟨s.sent.length, cot⟩] ∧
      (s.send cot).queue.length ≤ queueCap := by
  have hcap : queueCap = 256 := rfl
  refine ⟨_, List.drop_suffix _ _, send_drops cot h, ?_⟩
  rw [send_drops cot h, List.length_append, List.length_drop, List.length_singleton]
  omega

/-! ## What every step keeps -/

/-- The events written, then the one held, then those waiting. -/
def line (s : TakSink α) : List (Sent α) :=
  s.written.map Written.event ++ s.phase.held ++ s.queue

/-- The queue is in order before the first session and inside every session; in
between a failed write may have put an old event at its tail. -/
structure Sound (s : TakSink α) : Prop where
  cap : s.queue.length ≤ queueCap
  placed : ∀ e ∈ s.line, s.sent[e.place]? = some e.cot
  drains : ∀ e, s.phase = .draining e → s.sent[e.place]? = some e.cot
  ascending : (s.written.map fun w ↦ w.event.place).Pairwise (· < ·)
  inOrder : s.wasConnected = false ∨ s.phase.inSession →
    (s.line.map Sent.place).Pairwise (· < ·)
  connected : s.wasConnected = !s.openedAt.isEmpty
  session : s.phase.inSession → s.wasConnected = true
  opened : ∀ n ∈ s.openedAt, n ≤ s.sent.length
  fresh : s.phase.inSession → 1 < s.openedAt.length →
    ∀ n ∈ s.openedAt.getLast?, ∀ e ∈ s.phase.held ++ s.queue, n ≤ e.place
  kept : ∀ w ∈ s.written, w.session < s.openedAt.length ∧
    (0 < w.session → ∀ n, s.openedAt[w.session]? = some n → n ≤ w.event.place)

namespace Sound

variable {s : TakSink α}

theorem move (h : Sound s) {p : Phase α} (stop : Bool) (hheld : p.held = [])
    (hdrains : ∀ e, p ≠ .draining e) (hin : p.inSession → s.phase.inSession) :
    Sound { s with phase := p, stop := stop } := by
  have hline : List.Sublist (s.written.map Written.event ++ p.held ++ s.queue) s.line := by
    rw [hheld, line]
    exact List.Sublist.append (List.Sublist.append_left (List.nil_sublist _) _)
      (List.Sublist.refl _)
  refine ⟨h.cap, fun e he ↦ h.placed e (hline.subset he), fun e he ↦ absurd he (hdrains e),
    h.ascending, fun hlive ↦ ?_, h.connected, fun hp ↦ h.session (hin hp), h.opened,
    fun hp hlen n hn e he ↦ ?_, h.kept⟩
  · exact (h.inOrder (hlive.imp id hin)).sublist (hline.map _)
  · refine h.fresh (hin hp) hlen n hn e ?_
    simp only [hheld, List.nil_append] at he
    exact List.mem_append_right _ he

theorem stopped (h : Sound s) : Sound { s with stop := true } :=
  ⟨h.cap, h.placed, h.drains, h.ascending, h.inOrder, h.connected, h.session, h.opened, h.fresh,
    h.kept⟩

theorem serve (h : Sound s) (hin : s.phase.inSession) : Sound s.serve := by
  refine h.move s.stop ?_ (fun e ↦ ?_) fun _ ↦ hin
  · split <;> rfl
  · split <;> simp

theorem retry (h : Sound s) : Sound s.retry := by
  refine h.move s.stop ?_ (fun e ↦ ?_) fun hp ↦ ?_
  · split <;> rfl
  · split <;> simp
  · split at hp <;> cases hp

theorem send (h : Sound s) (cot : α) : Sound (s.send cot) := by
  obtain ⟨kept, ⟨gone, hgone⟩, hqueue, hcap⟩ := send_queue cot h.cap
  have hsub : List.Sublist (s.written.map Written.event ++ s.phase.held ++ kept) s.line := by
    rw [line, ← hgone]
    exact List.Sublist.append_left (List.sublist_append_right ..) _
  have hline : (s.send cot).line =
      s.written.map Written.event ++ s.phase.held ++ kept ++ [⟨s.sent.length, cot⟩] := by
    rw [line, hqueue, ← List.append_assoc]
    rfl
  have hold {e : Sent α} (he : s.sent[e.place]? = some e.cot) :
      (s.send cot).sent[e.place]? = some e.cot ∧ e.place < s.sent.length := by
    have hlt : e.place < s.sent.length := (List.getElem?_eq_some_iff.mp he).1
    exact ⟨(List.getElem?_append_left hlt).trans he, hlt⟩
  refine ⟨hcap, fun e he ↦ ?_, fun e he ↦ (hold (h.drains e he)).1, h.ascending, fun hlive ↦ ?_,
    h.connected, h.session, fun n hn ↦ ?_, fun hp hlen n hn e he ↦ ?_, h.kept⟩
  · rw [hline] at he
    rcases List.mem_append.mp he with he | he
    · exact (hold (h.placed e (hsub.subset he))).1
    · cases List.mem_singleton.mp he
      exact List.getElem?_concat_length
  · rw [hline, List.map_append, List.pairwise_append]
    refine ⟨(h.inOrder hlive).sublist (hsub.map _), List.pairwise_singleton _ _, ?_⟩
    intro m hm n hn
    obtain ⟨e, he, rfl⟩ := List.mem_map.mp hm
    cases List.mem_singleton.mp hn
    exact (hold (h.placed e (hsub.subset he))).2
  · have hle := h.opened n hn
    simp only [TakSink.send, List.length_append, List.length_singleton]
    omega
  · rw [hqueue, ← List.append_assoc] at he
    rcases List.mem_append.mp he with he | he
    · refine h.fresh hp hlen n hn e ?_
      rcases List.mem_append.mp he with he | he
      · exact List.mem_append_left _ he
      · rw [← hgone]
        exact List.mem_append_right _ (List.mem_append_right _ he)
    · cases List.mem_singleton.mp he
      exact h.opened n (List.mem_of_getLast? hn)

/-- The first session starts with the queue, every other one with an empty one. -/
theorem enter (h : Sound s) (queue : List (Sent α))
    (hqueue : queue = [] ∨ s.wasConnected = false ∧ queue = s.queue) :
    Sound
      { s with
        queue := queue, phase := .serving, wasConnected := true
        openedAt := s.openedAt ++ [s.sent.length] } := by
  have hsub : List.Sublist queue s.queue := by
    rcases hqueue with rfl | ⟨_, rfl⟩
    · exact List.nil_sublist _
    · exact List.Sublist.refl _
  have hfirst (hfalse : s.wasConnected = false) : s.openedAt = [] ∧ s.written = [] := by
    have hnil : s.openedAt = [] := by
      have := h.connected
      rw [hfalse] at this
      simpa using this
    refine ⟨hnil, List.eq_nil_iff_forall_not_mem.mpr fun w hw ↦ ?_⟩
    have hlt := (h.kept w hw).1
    rw [hnil, List.length_nil] at hlt
    omega
  have hline : List.Sublist (s.written.map Written.event ++ [] ++ queue) s.line := by
    rw [line]
    exact List.Sublist.append (List.Sublist.append_left (List.nil_sublist _) _) hsub
  refine ⟨hsub.length_le.trans h.cap, fun e he ↦ h.placed e (hline.subset he),
    fun e he ↦ (by cases he), h.ascending, fun _ ↦ ?_, ?_, fun _ ↦ rfl, fun n hn ↦ ?_,
    fun _ hlen n hn e he ↦ ?_, fun w hw ↦ ?_⟩
  · rcases hqueue with rfl | ⟨hfalse, rfl⟩
    · simpa [line, Phase.held, Function.comp_def] using h.ascending
    · exact (h.inOrder (.inl hfalse)).sublist (hline.map _)
  · simp
  · rcases List.mem_append.mp hn with hn | hn
    · exact h.opened n hn
    · exact (List.mem_singleton.mp hn).le
  · rcases hqueue with rfl | ⟨hfalse, rfl⟩
    · cases he
    · rw [(hfirst hfalse).1] at hlen
      simp at hlen
  · obtain ⟨hlt, hopened⟩ := h.kept w hw
    refine ⟨by rw [List.length_append]; omega, fun hpos n hn ↦ hopened hpos n ?_⟩
    rwa [List.getElem?_append_left hlt] at hn

theorem established (h : Sound s) : Sound s.established := by
  cases hconnected : s.wasConnected with
  | false =>
      have hsound := (h.enter s.queue (.inr ⟨hconnected, rfl⟩)).serve rfl
      simpa [TakSink.established, hconnected, TakSink.serve] using hsound
  | true =>
      have hsound := h.enter [] (.inl rfl)
      cases hcallback : s.onReconnect with
      | true =>
          have hmoved := hsound.move s.stop (p := .reconnecting) rfl (fun e ↦ by simp) fun _ ↦ rfl
          simpa [TakSink.established, hconnected, hcallback] using hmoved
      | false =>
          simpa [TakSink.established, hconnected, hcallback, TakSink.serve] using hsound.serve rfl

theorem took (h : Sound s) {e : Sent α} {rest : List (Sent α)} (hphase : s.phase = .serving)
    (hqueue : s.queue = e :: rest) : Sound { s with queue := rest, phase := .holding e } := by
  have hin : s.phase.inSession = true := by rw [hphase]; rfl
  have hline : s.line = s.written.map Written.event ++ [e] ++ rest := by
    rw [line, hphase, hqueue]
    simp [Phase.held]
  have hcap := h.cap
  rw [hqueue, List.length_cons] at hcap
  refine ⟨Nat.le_of_succ_le hcap, fun e' he ↦ h.placed e' (hline ▸ he), fun e' he ↦ (by cases he),
    h.ascending,
    fun _ ↦ ?_, h.connected, fun _ ↦ h.session hin, h.opened, fun _ hlen n hn e' he ↦ ?_, h.kept⟩
  · have hord := h.inOrder (.inr hin)
    rwa [hline] at hord
  · refine h.fresh hin hlen n hn e' ?_
    rw [hphase, hqueue]
    exact he

theorem wrote (h : Sound s) {e : Sent α} (hphase : s.phase = .holding e) :
    Sound
      { s with
        written := s.written ++ [⟨s.openedAt.length - 1, e⟩], phase := .draining e } := by
  have hin : s.phase.inSession = true := by rw [hphase]; rfl
  have hline : s.line = s.written.map Written.event ++ [e] ++ s.queue := by
    rw [line, hphase]
    rfl
  have hline' : (s.written ++ [(⟨s.openedAt.length - 1, e⟩ : Written α)]).map Written.event ++ [] ++
      s.queue = s.line := by
    rw [hline, List.map_append, List.append_nil]
    rfl
  have hord := h.inOrder (.inr hin)
  have hopened : s.openedAt ≠ [] := by
    have := h.connected
    rw [h.session hin] at this
    simpa using this
  have hpos := List.length_pos_iff.mpr hopened
  refine ⟨h.cap, fun e' he ↦ h.placed e' (hline' ▸ he), ?_, ?_, fun _ ↦ ?_, h.connected,
    fun _ ↦ h.session hin, h.opened, fun _ hlen n hn e' he ↦ ?_, fun w hw ↦ ?_⟩
  · rintro e' ⟨⟩
    exact h.placed e (by rw [hline]; simp)
  · rw [hline, List.map_append] at hord
    have hwritten := (List.pairwise_append.mp hord).1
    simpa [Function.comp_def] using hwritten
  · rw [← hline'] at hord
    exact hord
  · refine h.fresh hin hlen n hn e' ?_
    exact List.mem_append_right _ he
  · rcases List.mem_append.mp hw with hw | hw
    · exact h.kept w hw
    · cases List.mem_singleton.mp hw
      refine ⟨by simp only; omega, fun hlater n hn ↦ ?_⟩
      refine h.fresh hin (by simp only at hlater; omega) n ?_ e (by simp [hphase, Phase.held])
      rwa [List.getLast?_eq_getElem?]

theorem failed (h : Sound s) {e : Sent α} (hphase : s.phase = .draining e) :
    Sound
      { s with queue := (putNowait s.queue e).getD s.queue, phase := .closing false } := by
  have hin : s.phase.inSession = true := by rw [hphase]; rfl
  have hqueue : (putNowait s.queue e).getD s.queue = s.queue ∨
      (putNowait s.queue e).getD s.queue = s.queue ++ [e] ∧ s.queue.length < queueCap := by
    rw [putNowait]
    split
    · exact .inr ⟨rfl, ‹_›⟩
    · exact .inl rfl
  have hmem {e' : Sent α} (he : e' ∈ (putNowait s.queue e).getD s.queue) :
      e' ∈ s.queue ∨ e' = e := by
    rcases hqueue with hq | ⟨hq, _⟩ <;> rw [hq] at he
    · exact .inl he
    · exact (List.mem_append.mp he).imp id List.mem_singleton.mp
  refine ⟨?_, fun e' he ↦ ?_, fun e' he ↦ (by cases he), h.ascending, fun hlive ↦ ?_, h.connected,
    fun hp ↦ (by cases hp), h.opened, fun hp ↦ (by cases hp), h.kept⟩
  · have hcap := h.cap
    rcases hqueue with hq | ⟨hq, hroom⟩
    · simpa only [hq] using hcap
    · simp only [hq, List.length_append, List.length_singleton]
      omega
  · simp only [line, Phase.held, List.append_nil] at he
    rcases List.mem_append.mp he with he | he
    · exact h.placed e' (List.mem_append_left _ (List.mem_append_left _ he))
    · rcases hmem he with he | rfl
      · exact h.placed e' (List.mem_append_right _ he)
      · exact h.drains e' hphase
  · rcases hlive with hfalse | hp
    · rw [h.session hin] at hfalse
      cases hfalse
    · cases hp

end Sound

theorem step_sound {s s' : TakSink α} {action : SinkAction α} (h : Sound s)
    (hstep : s.step action = some s') : Sound s' := by
  cases step_moves hstep with
  | send cot => exact h.send cot
  | start =>
      rw [start]
      split
      · exact h.move false rfl (by simp) fun hp ↦ by cases hp
      · exact h
  | stop => exact h.stopped
  | attempt =>
      refine h.move s.stop ?_ (fun e ↦ ?_) fun hp ↦ ?_
      · split <;> rfl
      · split <;> simp
      · split at hp <;> cases hp
  | opened => exact h.established
  | serves hin => exact h.serve hin
  | took hphase hqueue => exact h.took hphase hqueue
  | wrote hphase => exact h.wrote hphase
  | failed hphase => exact h.failed hphase
  | retries => exact h.retry
  | closes => exact h.move s.stop rfl (by simp) fun hp ↦ by cases hp
  | ends => exact h.move s.stop rfl (by simp) fun hp ↦ by cases hp

theorem sound_init (onReconnect : Bool) : Sound ({ onReconnect } : TakSink α) := by
  refine ⟨?_, ?_, ?_, ?_, ?_, ?_, ?_, ?_, ?_, ?_⟩ <;>
    simp [queueCap, line, Phase.held, Phase.inSession]

theorem run_sound {onReconnect : Bool} {actions : List (SinkAction α)} {s : TakSink α}
    (h : run onReconnect actions = some s) : Sound s :=
  Machine.invariant h (sound_init onReconnect) fun _ _ _ ↦ step_sound

/-- Events found at ascending places of a list are a sublist of it. -/
theorem sublist_of_places {all : List α} {es : List (Sent α)}
    (hplaced : ∀ e ∈ es, all[e.place]? = some e.cot)
    (hasc : (es.map Sent.place).Pairwise (· < ·)) : (es.map Sent.cot).Sublist all := by
  have hlt (e : Sent α) (he : e ∈ es) : e.place < all.length :=
    (List.getElem?_eq_some_iff.mp (hplaced e he)).1
  have hcots : es.map Sent.cot =
      (es.attach.map fun e ↦ (⟨e.1.place, hlt e.1 e.2⟩ : Fin all.length)).map (all[·]) := by
    rw [List.map_map]
    conv_lhs => rw [← List.attach_map_subtype_val es, List.map_map]
    refine List.map_congr_left fun e _ ↦ ?_
    exact (List.getElem?_eq_some_iff.mp (hplaced e.1 e.2)).2.symm
  rw [hcots]
  refine List.map_getElem_sublist ?_
  rw [List.pairwise_map] at hasc ⊢
  rw [← List.attach_map_subtype_val es, List.pairwise_map] at hasc
  exact hasc

/-- What a run has written is a part of what was sent, in order and each event
once; the queue keeps to its cap and takes every new event at its tail; and a
session after the first writes nothing that was sent before it was opened. -/
theorem run_written {onReconnect : Bool} {actions : List (SinkAction α)} {s : TakSink α}
    (h : run onReconnect actions = some s) :
    ((s.written.map fun w ↦ w.event.cot).Sublist s.sent ∧
        (∀ w ∈ s.written, s.sent[w.event.place]? = some w.event.cot) ∧
        (s.written.map fun w ↦ w.event.place).Pairwise (· < ·)) ∧
      (s.queue.length ≤ queueCap ∧
        ∀ cot, (s.send cot).queue.getLast? = some ⟨s.sent.length, cot⟩ ∧
          (s.send cot).queue.length ≤ queueCap) ∧
      ∀ w ∈ s.written, 0 < w.session →
        ∃ n, s.openedAt[w.session]? = some n ∧ n ≤ w.event.place := by
  have hsound := run_sound h
  have hplaced (e : Sent α) (he : e ∈ s.written.map Written.event) :
      s.sent[e.place]? = some e.cot :=
    hsound.placed e (List.mem_append_left _ (List.mem_append_left _ he))
  refine ⟨⟨?_, fun w hw ↦ hplaced w.event (List.mem_map_of_mem hw), hsound.ascending⟩,
    ⟨hsound.cap, fun cot ↦ ?_⟩, fun w hw hpos ↦ ?_⟩
  · have hsub := sublist_of_places hplaced (by simpa [Function.comp_def] using hsound.ascending)
    simpa [Function.comp_def] using hsub
  · obtain ⟨kept, _, hqueue, hcap⟩ := send_queue cot hsound.cap
    rw [hqueue] at hcap ⊢
    exact ⟨List.getLast?_concat, hcap⟩
  · obtain ⟨hlt, hopened⟩ := hsound.kept w hw
    exact ⟨s.openedAt[w.session], List.getElem?_eq_getElem hlt,
      hopened hpos _ (List.getElem?_eq_getElem hlt)⟩

/-- A failed write, a reconnect, and a new event. -/
def flap : List (SinkAction ℕ) :=
  [.start, .attempt, .opened, .send 7, .send 8, .took, .wrote, .failed, .closed, .attempt, .send 9,
    .opened, .calledBack, .send 10, .took, .wrote]

/-- After a flap the backlog is gone: neither 8 nor 9 nor the failed 7 comes back. -/
theorem flap_written : ∃ s, run true flap = some s ∧ s.sent = [7, 8, 9, 10] ∧
    (s.written.map fun w ↦ w.event.cot) = [7, 10] ∧
    (s.written.map fun w ↦ w.event.cot).Sublist s.sent := by
  have hrun : run true flap = some ((run true flap).get rfl) := rfl
  exact ⟨_, hrun, rfl, rfl, (run_written hrun).1.1⟩

end TakSink

end MeshcoreRpc.Tak
