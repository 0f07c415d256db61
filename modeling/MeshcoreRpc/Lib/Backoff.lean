import Mathlib.Data.List.DropRight
import Mathlib.Data.List.Nodup

/-!
# Retrying with growing delays

A loop makes one attempt after the other and waits in between; a counter of its
own chooses the delay from a list whose last entry stands for all that follow.
The counter is set back when the body of an attempt returns.  Where no body ever
returns it counts the attempts of the whole run.
-/

namespace Backoff

variable {D : Type} [Inhabited D]

/-- `delays[min(k, len(delays) - 1)]` -/
def delay (delays : List D) (k : ℕ) : D := delays.getD (min k (delays.length - 1)) default

/-- The counter of a loop with its past: for every attempt that a wait followed
whether it had connected, and the waits. -/
structure Retries (D : Type) where
  attempt : ℕ := 0
  connected : List Bool := []
  waits : List D := []

/-- After an attempt: the counter is set back if it has returned, and unless the
loop is left here the wait is chosen. -/
def Retries.after (delays : List D) (connected returned stop : Bool) (r : Retries D) : Retries D :=
  let attempt := if returned then 0 else r.attempt
  if stop then r
  else ⟨attempt + 1, r.connected ++ [connected], r.waits ++ [delay delays attempt]⟩

/-- How many attempts in a row have failed: since the last one that connected, or
since the first one. -/
def failures (connected : List Bool) : ℕ := (connected.tail.rtakeWhile (!·)).length

/-- Every wait is chosen by the failures before it. -/
def Restarts (delays : List D) (r : Retries D) : Prop :=
  ∀ n d, r.waits[n]? = some d → d = delay delays (failures (r.connected.take (n + 1)))

/-- At every wait no attempt but the first has connected so far, or at least `last`
have failed in a row. -/
def Worn (last : ℕ) (connected : List Bool) : Prop :=
  ∀ n < connected.length, (∀ b ∈ (connected.take (n + 1)).tail, b = false) ∨
    last ≤ failures (connected.take (n + 1))

/-- The counter counts the attempts. -/
structure Counts (delays : List D) (r : Retries D) : Prop where
  attempt : r.attempt = r.connected.length
  waits : r.waits = (List.range r.connected.length).map (delay delays)

variable {delays : List D} {r : Retries D}

theorem counts_start : Counts delays ({} : Retries D) := ⟨rfl, rfl⟩

/-- An attempt counts unless it has returned, whether it had connected or not. -/
theorem Counts.after (h : Counts delays r) (connected : Bool) {returned stop : Bool}
    (hraised : returned = true → stop = true) :
    Counts delays (r.after delays connected returned stop) := by
  cases stop with
  | true => exact h
  | false =>
      have hfalse : returned = false := by simpa using hraised
      subst hfalse
      refine ⟨?_, ?_⟩
      · simp [Retries.after, h.attempt]
      · simp [Retries.after, h.attempt, h.waits, List.range_succ]

theorem delay_eq_iff (hdistinct : delays.Nodup) (hne : delays ≠ []) {j k : ℕ} :
    delay delays j = delay delays k ↔
      min j (delays.length - 1) = min k (delays.length - 1) := by
  have hpos : 0 < delays.length := List.length_pos_iff.mpr hne
  have hlt (n : ℕ) : min n (delays.length - 1) < delays.length := by omega
  have hget (n : ℕ) : delay delays n = delays.get ⟨min n (delays.length - 1), hlt n⟩ := by
    rw [delay, List.getD_eq_getElem?_getD, List.getElem?_eq_getElem (hlt n), Option.getD_some]
    rfl
  rw [hget, hget, hdistinct.get_inj_iff, Fin.mk.injEq]

theorem failures_le (connected : List Bool) : failures connected ≤ connected.tail.length :=
  (List.rtakeWhile_suffix _ _).length_le

theorem failures_eq_iff (connected : List Bool) :
    failures connected = connected.tail.length ↔ ∀ b ∈ connected.tail, b = false := by
  have hself : failures connected = connected.tail.length ↔
      connected.tail.rtakeWhile (!·) = connected.tail :=
    ⟨(List.rtakeWhile_suffix _ _).eq_of_length, congrArg List.length⟩
  rw [hself, List.rtakeWhile_eq_self_iff]
  simp

/-- A loop that counts its attempts waits by the failures exactly where it is worn. -/
theorem Counts.restarts_iff (h : Counts delays r) (hdistinct : delays.Nodup) (hne : delays ≠ []) :
    Restarts delays r ↔ Worn (delays.length - 1) r.connected := by
  have hwait (n : ℕ) (d : D) : r.waits[n]? = some d ↔
      n < r.connected.length ∧ d = delay delays n := by
    rw [h.waits, List.getElem?_map]
    by_cases hn : n < r.connected.length <;> simp [hn, eq_comm]
  have hone (n : ℕ) (hn : n < r.connected.length) :
      delay delays n = delay delays (failures (r.connected.take (n + 1))) ↔
        (∀ b ∈ (r.connected.take (n + 1)).tail, b = false) ∨
          delays.length - 1 ≤ failures (r.connected.take (n + 1)) := by
    have hlen : (r.connected.take (n + 1)).tail.length = n := by
      rw [List.length_tail, List.length_take]
      omega
    have hle := failures_le (r.connected.take (n + 1))
    rw [← failures_eq_iff, delay_eq_iff hdistinct hne, hlen]
    omega
  constructor
  · intro hrestarts n hn
    exact (hone n hn).mp (hrestarts n _ ((hwait n _).mpr ⟨hn, rfl⟩))
  · intro hworn n d hd
    obtain ⟨hn, rfl⟩ := (hwait n d).mp hd
    exact (hone n hn).mpr (hworn n hn)

end Backoff
