import MeshcoreRpc.Effects

/-!
# Handlers, the router and TTLs

`handlers/base.py`, `router.py`, `timeouts/policy.py` and
`timeouts/tracker.py`.
-/

namespace MeshcoreRpc

open Tables Coroutine Coro

/-- What a coroutine does with a `CancelledError` that reaches it at the await of an
effect, after some exchanges: it ends in a value or an exception of its own, or in
none, which lets the cancellation through. -/
abbrev Unwinding (α : Type) := Trace → Eff → Prog (Option α)

/-- No handler of the repository catches a cancellation. -/
def letThrough {α : Type} : Unwinding α := fun _ _ ↦ .ret none

theorem only_letThrough {α : Type} {P : Eff → Prop} (done : Trace) (e : Eff) :
    (letThrough (α := α) done e).Only P := True.intro

/-- A handler reaches the store and the bus through its context, but it has no
part in the lifecycle of its own request. -/
structure Handler where
  type : String
  handle : Request → Prog Response
  unwind : Request → Unwinding Response := fun _ ↦ letThrough
  quiet : ∀ request, (handle request).Only Eff.Quiet
  quiet_unwind : ∀ request done e, (unwind request done e).Only Eff.Quiet

/-- The handler builds its responses from the request it has received, those after a
cancellation included. -/
structure Handler.Answers (handler : Handler) (request : Request) : Prop where
  handle : (handler.handle request).Returns fun response ↦ response.Answers request
  unwind : ∀ done e, (handler.unwind request done e).Returns fun o ↦
    ∀ response, o = some response → response.Answers request

/-- One handler for each type. -/
abbrev Router := Table Handler.type

namespace Router

def register (router : Router) (handler : Handler) : Except PyExc Router :=
  if h : router.find? handler.type = none then .ok (router.append handler h)
  else .error .valueError

/-- `Router(handlers)` -/
def ofHandlers (handlers : List Handler) : Except PyExc Router :=
  handlers.foldlM register Table.empty

def resolve (router : Router) (requestType : String) : Option Handler := router.find? requestType

end Router

/-! ## TTLs -/

structure TimeoutPolicy where
  defaultS : ℤ := 30
  minS : ℤ := 1
  maxS : ℤ := 300
  perTypeDefaultS : Dict String ℤ := Table.empty

def TimeoutPolicy.resolve (policy : TimeoutPolicy) (requestType : String)
    (requestedTtl : Option ℤ) : ℤ :=
  let base :=
    match requestedTtl with
    | some ttl => ttl
    | none =>
      match policy.perTypeDefaultS.get? requestType with
      | some ttl => ttl
      | none => policy.defaultS
  max policy.minS (min base policy.maxS)

/-- What is left of a coroutine once its timeout has cancelled it. -/
def windUp {α : Type} : Prog (Option α) → Prog α
  | .ret (some a) => .ret a
  | .ret none => .raise .timeoutError
  | .raise err => .raise err
  | .await e next => .await (.afterTtl e) fun r ↦ windUp (next r)

/-- A coroutine whose timeout can come at any await. -/
def guarded {α : Type} (ttlS : ℤ) : Prog α → Unwinding α → Prog α
  | .ret a, _ => .ret a
  | .raise err, _ => .raise err
  | .await e next, unwind => .await (.underTtl ttlS e) fun
    | some r => guarded ttlS (next r) fun done ↦ unwind (⟨e, r⟩ :: done)
    | none => windUp (unwind [] e)

/-- `asyncio.wait_for(x, timeout=ttl_s)`: with no time left nothing is started. -/
def waitFor {α : Type} (ttlS : ℤ) (x : Prog α) (unwind : Unwinding α) : Prog α :=
  if ttlS ≤ 0 then .raise .timeoutError else guarded ttlS x unwind

/-- A handler as `process_request` waits for it. -/
abbrev Handler.timed (handler : Handler) (request : Request) (ttlS : ℤ) : Prog Response :=
  waitFor ttlS (handler.handle request) (handler.unwind request)

def runWithTimeout {α : Type} (x : Prog α) (unwind : Unwinding α) (ttlS : ℤ) : Prog α := do
  Prog.inc
  let outcome ← (waitFor ttlS x unwind).attempt
  Prog.dec
  .ofOutcome outcome

section Rules

variable {α : Type} {x : Prog α} {unwind : Unwinding α} {ttlS : ℤ}

/-- Whatever holds of the exception of a timeout and of the guarded coroutine holds of
the one that is waited for. -/
theorem waitFor_cases {C : Prog α → Prop} (hraise : C (.raise .timeoutError))
    (hguarded : C (guarded ttlS x unwind)) : C (waitFor ttlS x unwind) := by
  unfold waitFor
  split
  · exact hraise
  · exact hguarded

theorem waitFor_never (h : ttlS ≤ 0) : waitFor ttlS x unwind = .raise .timeoutError := if_pos h

theorem only_windUp {y : Prog (Option α)} {P : Eff → Prop}
    (hy : y.Only fun e ↦ P (.afterTtl e)) : (windUp y).Only P := by
  induction y with
  | ret o => cases o <;> trivial
  | raise err => trivial
  | await e next ih =>
      rw [windUp, Only.await_iff]
      exact ⟨hy.1, fun r ↦ ih r (hy.2 r)⟩

theorem only_waitFor {P : Eff → Prop} (hx : x.Only fun e ↦ P (.underTtl ttlS e))
    (hu : ∀ done e, (unwind done e).Only fun e' ↦ P (.afterTtl e')) :
    (waitFor ttlS x unwind).Only P := by
  refine waitFor_cases trivial ?_
  induction x generalizing unwind with
  | ret a => trivial
  | raise err => trivial
  | await e next ih =>
      rw [guarded, Only.await_iff]
      refine ⟨hx.1, fun r ↦ ?_⟩
      cases r with
      | none => exact only_windUp (hu [] e)
      | some r => exact ih r (hx.2 r) fun done ↦ hu _

theorem returns_windUp {y : Prog (Option α)} {P : α → Prop}
    (hy : y.Returns fun o ↦ ∀ a, o = some a → P a) : (windUp y).Returns P := by
  induction y with
  | ret o =>
      cases o with
      | none => exact True.intro
      | some a => exact hy a rfl
  | raise err => exact hy
  | await e next ih => exact fun r ↦ ih r (hy r)

theorem returns_waitFor {P : α → Prop} (hx : x.Returns P)
    (hu : ∀ done e, (unwind done e).Returns fun o ↦ ∀ a, o = some a → P a) :
    (waitFor ttlS x unwind).Returns P := by
  refine waitFor_cases True.intro ?_
  induction x generalizing unwind with
  | ret a => exact hx
  | raise err => exact hx
  | await e next ih =>
      rw [guarded]
      intro r
      cases r with
      | none => exact returns_windUp (hu [] e)
      | some r => exact ih r (hx r) fun done ↦ hu _

end Rules

end MeshcoreRpc
