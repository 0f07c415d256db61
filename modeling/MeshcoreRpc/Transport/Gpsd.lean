import MeshcoreRpc.Lib.Backoff
import MeshcoreRpc.Lib.Machine
import MeshcoreRpc.Python

/-!
# The GPSD client

`gpsd.py`.  A session is left by its loop condition only when the client is
stopping; the end of the stream, a failed connection and a fix that cannot be
converted all raise.  So `_run` never sets its counter back between two
attempts.
-/

namespace MeshcoreRpc

namespace PyVal

/-- `x in (2, 3)` -/
def isFixMode : PyVal → Bool
  | int n => n == 2 || n == 3
  | float (.fin q) => q == 2 || q == 3
  | _ => false

/-- `v == s` for a string `s` -/
def eqStr (s : String) : PyVal → Bool
  | str s' => s' == s
  | _ => false

/-- The number as a float of any precision, which is how Python compares. -/
def exact : PyVal → PyFloat
  | bool b => .fin (if b then 1 else 0)
  | int n => .fin n
  | float f => f
  | _ => .nan

end PyVal

/-- `f < g` -/
def PyFloat.below : PyFloat → PyFloat → Bool
  | nan, _ => false
  | _, nan => false
  | inf negative, inf negative' => negative && !negative'
  | inf negative, fin _ => negative
  | fin _, inf negative => !negative
  | fin p, fin q => decide (p < q)

/-- `max(v, w)` of two numbers -/
def PyVal.maxNumber (v w : PyVal) : PyVal := if v.exact.below w.exact then w else v

namespace Gpsd

structure GpsdFix where
  lat : PyFloat
  lon : PyFloat
  ts : ℚ
  alt : Option PyFloat := none
  acc : Option PyFloat := none
  spd : Option PyFloat := none
  hdg : Option PyFloat := none
  fix : Option ℤ := none

/-- `_parse_tpv` -/
def parseTpv (now : ℚ) (msg : PyDict) : Except PyExc (Option GpsdFix) := do
  let mode := msg.get "mode"
  if !mode.isFixMode then
    return none
  let lat := msg.get "lat"
  let lon := msg.get "lon"
  if !lat.isNumber || !lon.isNumber then
    return none
  let epx := msg.get "epx"
  let epy := msg.get "epy"
  let acc :=
    if epx.isNumber && epy.isNumber then epx.maxNumber epy
    else if epx.isNumber then epx
    else if epy.isNumber then epy
    else .none
  return some
    { lat := ← lat.numberToFloat
      lon := ← lon.numberToFloat
      ts := now
      alt := ← optFloat (msg.get "alt")
      acc := ← optFloat acc
      spd := ← optFloat (msg.get "speed")
      hdg := ← optFloat (msg.get "track")
      fix := some (← mode.numberToInt) }

/-- What `readline` and `json.loads` make of the next line. -/
inductive Line where
  | eof
  /-- `json.loads` raises a `JSONDecodeError`. -/
  | undecodable
  | loaded (msg : PyVal)

/-- How `_session` is being left. -/
inductive Leaving where
  | returning
  | raising
  | cancelled
  deriving DecidableEq

/-- Where the task of the client is suspended. -/
inductive Phase where
  /-- There is no task, or it has ended. -/
  | absent
  /-- Before the loop condition of `_run`: just created, or between two attempts. -/
  | waiting
  | connecting
  | awaitingBanner
  | draining
  | reading
  /-- In the `on_fix` callback. -/
  | reporting
  | closing (how : Leaving)

inductive ClientAction where
  | start
  | stop
  | attempt
  | opened
  /-- The banner has come, or two seconds have passed. -/
  | banner
  | drained
  | read (now : ℚ) (line : Line)
  /-- `on_fix` has ended; what it raises is logged. -/
  | calledBack
  /-- What the task awaits raises an `Exception`. -/
  | raised
  | cancelled
  | closed

/-- `_RECONNECT_DELAYS` -/
def reconnectDelays : List ℚ := [1, 2, 5, 10, 30]

structure GpsdClient where
  /-- A callback was given. -/
  onFix : Bool
  maxAccM : Option PyFloat
  phase : Phase := .absent
  stop : Bool := false
  /-- The fixes handed to the callback. -/
  reported : List GpsdFix := []
  retries : Backoff.Retries ℚ := {}

namespace GpsdClient

/-- Back at the loop condition of `_session`. -/
def serve (s : GpsdClient) : GpsdClient :=
  { s with phase := if s.stop then .closing .returning else .reading }

/-- A fix worse than `max_acc_m` is dropped. -/
def tooCoarse (s : GpsdClient) (fix : GpsdFix) : Bool :=
  match s.maxAccM, fix.acc with
  | some limit, some acc => limit.below acc
  | _, _ => false

/-- The loop body of `_session` up to the callback. -/
def handleLine (now : ℚ) (line : Line) (s : GpsdClient) : GpsdClient :=
  match line with
  | .eof => { s with phase := .closing .raising }
  | .undecodable => s.serve
  | .loaded (.dict kvs) =>
    let msg := PyDict.ofPairs kvs
    if (msg.get "class").eqStr "TPV" then
      match parseTpv now msg with
      | .error _ => { s with phase := .closing .raising }
      | .ok none => s.serve
      | .ok (some fix) =>
        if s.tooCoarse fix then s.serve
        else if s.onFix then { s with phase := .reporting, reported := s.reported ++ [fix] }
        else s.serve
    else s.serve
  | .loaded _ => s.serve

/-- Back in `_run` after `_session`. -/
def retry (connected returned : Bool) (s : GpsdClient) : GpsdClient :=
  { s with
    phase := if s.stop then .absent else .waiting
    retries := s.retries.after reconnectDelays connected returned s.stop }

def step (s : GpsdClient) (action : ClientAction) : Option GpsdClient :=
  match action, s.phase with
  | .start, .absent => some { s with stop := false, phase := .waiting, retries := {} }
  | .start, _ => some s
  | .stop, _ => some { s with stop := true }
  | .attempt, .waiting => some { s with phase := if s.stop then .absent else .connecting }
  | .opened, .connecting => some { s with phase := .awaitingBanner }
  | .banner, .awaitingBanner => some { s with phase := .draining }
  | .drained, .draining => some s.serve
  | .read now line, .reading => some (s.handleLine now line)
  | .calledBack, .reporting => some s.serve
  | .raised, .connecting => some (s.retry false false)
  | .raised, .awaitingBanner => some { s with phase := .closing .raising }
  | .raised, .draining => some { s with phase := .closing .raising }
  | .raised, .reading => some { s with phase := .closing .raising }
  | .cancelled, .waiting => some { s with phase := .absent }
  | .cancelled, .connecting => some { s with phase := .absent }
  | .cancelled, .awaitingBanner => some { s with phase := .closing .cancelled }
  | .cancelled, .draining => some { s with phase := .closing .cancelled }
  | .cancelled, .reading => some { s with phase := .closing .cancelled }
  | .cancelled, .reporting => some { s with phase := .closing .cancelled }
  | .cancelled, .closing _ => some { s with phase := .absent }
  | .closed, .closing .cancelled => some { s with phase := .absent }
  | .closed, .closing .returning => some (s.retry true true)
  | .closed, .closing .raising => some (s.retry true false)
  | _, _ => none

/-- The client after the actions, if they can be taken one after the other. -/
def run (onFix : Bool) (maxAccM : Option PyFloat) (actions : List ClientAction) :
    Option GpsdClient :=
  actions.foldlM step { onFix, maxAccM }

/-! ## The counter -/

/-- The counter counts the attempts, and no session returns before the client is
stopping. -/
structure Retrying (s : GpsdClient) : Prop where
  counts : Backoff.Counts reconnectDelays s.retries
  returning : s.phase = .closing .returning → s.stop = true

namespace Retrying

variable {s : GpsdClient}

theorem move (h : Retrying s) {p : Phase} {reported : List GpsdFix}
    (hp : p ≠ .closing .returning) : Retrying { s with phase := p, reported := reported } :=
  ⟨h.counts, fun hreturning ↦ absurd hreturning hp⟩

theorem serve (h : Retrying s) : Retrying s.serve := by
  refine ⟨h.counts, fun hreturning ↦ ?_⟩
  by_cases hstop : s.stop = true
  · exact hstop
  · simp [GpsdClient.serve, hstop] at hreturning

theorem handleLine (h : Retrying s) (now : ℚ) (line : Line) : Retrying (s.handleLine now line) := by
  have hraising : Retrying { s with phase := .closing .raising } := h.move (by simp)
  unfold GpsdClient.handleLine
  split
  · exact hraising
  · exact h.serve
  · simp only
    split
    · split
      · exact hraising
      · exact h.serve
      · split
        · exact h.serve
        · split
          · exact h.move (by simp)
          · exact h.serve
    · exact h.serve
  · exact h.serve

theorem retry (h : Retrying s) (connected : Bool) {returned : Bool}
    (hreturned : returned = true → s.stop = true) : Retrying (s.retry connected returned) := by
  refine ⟨h.counts.after connected hreturned, fun hreturning ↦ ?_⟩
  by_cases hstop : s.stop = true
  · exact hstop
  · simp [GpsdClient.retry, hstop] at hreturning

theorem step {s' : GpsdClient} {action : ClientAction} (h : Retrying s)
    (hstep : s.step action = some s') : Retrying s' := by
  unfold GpsdClient.step at hstep
  split at hstep
  all_goals cases hstep
  -- a first attempt starts a new count
  case h_1 => exact ⟨Backoff.counts_start, by simp⟩
  case h_2 => exact h
  case h_3 => exact ⟨h.counts, fun _ ↦ rfl⟩
  case h_4 =>
    split
    · exact h.move (by simp)
    · exact h.move (by simp)
  case h_7 => exact h.serve
  case h_8 now line _ => exact h.handleLine now line
  case h_9 => exact h.serve
  case h_10 => exact h.retry false (by simp)
  case h_22 hphase => exact h.retry true fun _ ↦ h.returning hphase
  case h_23 => exact h.retry true (by simp)
  all_goals exact h.move (by simp)

end Retrying

theorem run_retrying {onFix : Bool} {maxAccM : Option PyFloat} {actions : List ClientAction}
    {s : GpsdClient} (h : run onFix maxAccM actions = some s) : Retrying s :=
  Machine.invariant h ⟨Backoff.counts_start, by simp⟩ fun _ _ _ ↦ Retrying.step

end GpsdClient

end Gpsd

end MeshcoreRpc
