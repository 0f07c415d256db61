import MeshcoreRpc.Core.Calls
import MeshcoreRpc.Handlers
import MeshcoreRpc.Transport.Consume

/-!
# The running service

The tasks of `Service` over the database they own: the consume loop, the
requests, the retention sweeper and the heartbeat.  None of them writes
`base_state`.
-/

namespace MeshcoreRpc

open Tables Coroutine Coro Interleaving

/-- The payload of `_publish_health`; `powerOk` is what `vcgencmd` says. -/
def healthBody (state : String) (now : ℚ) (powerOk : Option Bool) : List (String × PyVal) :=
  [("state", .str state), ("ts", .float (.fin now))] ++
    (powerOk.map fun b ↦ ("power_ok", PyVal.bool b)).toList

def publishHealth (state : String) (powerOk : Option Bool) : Prog Unit := do
  let now ← Prog.time
  Prog.publish Topics.svcHealth (healthBody state now powerOk) true

/-- `_heartbeat`, once for each beat. -/
def heartbeat : List (Option Bool) → Prog Unit
  | [] => pure ()
  | powerOk :: rest => do
    tryCatch (publishHealth "running" powerOk) fun _ ↦ pure ()
    heartbeat rest

namespace RetentionSweeper

def secondsPerDay : ℚ := 86400

def runOnce (days : ℕ) : Prog ℕ := do
  let now ← Prog.time
  tryCatch (Prog.store (.purgeBefore (now - days * secondsPerDay))) fun _ ↦ pure 0

/-- `_run`, for a number of ticks. -/
def run (days : ℕ) : ℕ → Prog Unit
  | 0 => pure ()
  | n + 1 => do
    let _ ← runOnce days
    run days n

end RetentionSweeper

/-- A task of the service; `ask` is the handler of a request without the
pipeline around it. -/
inductive Job where
  | consume (msgs : List Message)
  | request (request : Request)
  | sweep (ticks : ℕ)
  | beat (beats : List (Option Bool))
  | ask (request : Request)

structure Service (ι : Type) where
  num : Numerals
  geo : Geo
  loads : Loads
  policy : TimeoutPolicy
  days : ℕ
  job : ι → Job

namespace Service

variable {ι : Type}

def router (service : Service ι) : Router := Handlers.defaultRouter service.num service.geo

def pool (service : Service ι) (i : ι) : Prog (Option Response) :=
  match service.job i with
  | .consume msgs => do
    Transport.consumeLoop service.num service.loads msgs
    return none
  | .request request => do
    processRequest service.policy service.router request
    return none
  | .sweep ticks => do
    RetentionSweeper.run service.days ticks
    return none
  | .beat beats => do
    heartbeat beats
    return none
  | .ask request =>
    match service.router.resolve request.type with
    | some handler => do
      let response ← handler.handle request
      return some response
    | none => return none

theorem pool_ask {service : Service ι} {i : ι} {request : Request} {handler : Handler}
    (hjob : service.job i = .ask request)
    (hhandler : service.router.resolve request.type = some handler) :
    service.pool i = do
      let response ← handler.handle request
      return some response := by
  simp only [pool, hjob, hhandler]

end Service

/-- A database that the tasks of the service have to themselves. -/
def Owned (num : Numerals) (ι : Type) : World Db ι Eff.Answer ℚ Empty
  | db, .task _ now x, db' => x.1.Transition num now x.2 db db'
  | _, .env _ a, _ => a.elim

/-! ## Nobody writes the base -/

/-- The effects that write `base_state`. -/
def Eff.writesBase : Eff → Bool
  | store c => c.writesBase
  | underTtl _ e => e.writesBase
  | afterTtl e => e.writesBase
  | _ => false

theorem Eff.NodeSide.not_writesBase {e : Eff} (h : e.NodeSide) : e.writesBase = false := by
  cases e with
  | store c => exact h.2
  | underTtl => exact h.elim
  | afterTtl => exact h.elim
  | _ => rfl

theorem Eff.Transition.base {num : Numerals} {now : ℚ} {e : Eff} {r : e.Answer} {db db' : Db}
    (he : e.writesBase = false) (h : e.Transition num now r db db') :
    db'.baseState = db.baseState := by
  induction e with
  | store c =>
      cases r with
      | ok a => exact StoreCall.exec_base he h
      | error err => exact congrArg Db.baseState h
  | time => exact congrArg Db.baseState h.2
  | underTtl ttlS e ih =>
      cases r with
      | none => exact congrArg Db.baseState h
      | some r => exact ih he h
  | afterTtl e ih => exact ih he h
  | _ => exact congrArg Db.baseState h

theorem only_maybeCache (loads : Loads) (msg : Message) :
    (Transport.maybeCache loads msg).Only fun e ↦ e.writesBase = false := by
  unfold Transport.maybeCache
  split
  · exact True.intro
  · split
    · exact .bind (Prog.only_cacheGatewaySnapshot.mpr rfl) fun _ ↦
        .tryCatch (Prog.only_store.mpr rfl) fun _ ↦ True.intro
    · split <;> exact True.intro

theorem only_dispatch (num : Numerals) (loads : Loads) (msg : Message) :
    (Transport.dispatch num loads msg).Only fun e ↦ e.writesBase = false := by
  unfold Transport.dispatch
  split
  · exact Prog.only_createTask.mpr rfl
  · split
    · exact .tryCatch ((Transport.only_routeEvent num loads).mono fun _ he ↦ he.not_writesBase)
        fun _ ↦ True.intro
    · exact True.intro

theorem only_consumeLoop (num : Numerals) (loads : Loads) (msgs : List Message) :
    (Transport.consumeLoop num loads msgs).Only fun e ↦ e.writesBase = false := by
  induction msgs with
  | nil => exact True.intro
  | cons msg rest ih =>
      exact .bind (only_maybeCache loads msg) fun _ ↦ .bind (only_dispatch num loads msg) fun _ ↦ ih

theorem only_heartbeat {P : Eff → Prop} (beats : List (Option Bool)) (htime : P .time)
    (hpublish : ∀ topic payload retain, P (.publish topic payload retain)) :
    (heartbeat beats).Only P := by
  induction beats with
  | nil => exact True.intro
  | cons powerOk rest ih =>
      refine .bind (.tryCatch (.bind (Prog.only_time.mpr htime) fun _ ↦
        Prog.only_publish.mpr (hpublish ..)) fun _ ↦ ?_) fun _ ↦ ih
      exact True.intro

theorem only_sweeper {P : Eff → Prop} (days ticks : ℕ) (htime : P .time)
    (hpurge : ∀ cutoff, P (.store (.purgeBefore cutoff))) :
    (RetentionSweeper.run days ticks).Only P := by
  induction ticks with
  | zero => exact True.intro
  | succ n ih =>
      refine .bind (.bind (Prog.only_time.mpr htime) fun _ ↦
        .tryCatch (Prog.only_store.mpr (hpurge _)) fun _ ↦ ?_) fun _ ↦ ih
      exact True.intro

theorem Service.pool_only {ι : Type} (service : Service ι) (i : ι) :
    (service.pool i).Only fun e ↦ e.writesBase = false := by
  unfold Service.pool
  cases service.job i with
  | consume msgs => exact .bind (only_consumeLoop _ _ msgs) fun _ ↦ True.intro
  | request request =>
      refine .bind (processRequest_only_of (fun e he houter ↦ ?_) fun handler hrouter ↦ ?_)
        fun _ ↦ True.intro
      · cases he with
        | handler e he => cases houter
        | unwinding e he => cases houter
        | _ => rfl
      · exact Handlers.defaultRouter_timed _ _ hrouter request fun e he ↦ he.not_writesBase
  | sweep ticks => exact .bind (only_sweeper _ ticks rfl fun _ ↦ rfl) fun _ ↦ True.intro
  | beat beats => exact .bind (only_heartbeat beats rfl fun _ _ _ ↦ rfl) fun _ ↦ True.intro
  | ask request =>
      dsimp only
      cases hrouter : service.router.resolve request.type with
      | none => exact True.intro
      | some handler =>
          refine .bind ?_ fun _ ↦ True.intro
          exact (Handlers.defaultRouter_only _ _ hrouter request).mono fun e he ↦ he.not_writesBase

/-- Steps that do not write the base leave it. -/
theorem base_kept {ι : Type} {num : Numerals} {s s' : Db} {tr : List (Event ι Eff.Answer ℚ Empty)}
    (hquiet : ∀ i now x, .task i now x ∈ tr → x.1.writesBase = false)
    (h : Evolves (Owned num ι) s tr s') : s'.baseState = s.baseState := by
  refine h.invariant (fun db ↦ db.baseState = s.baseState) (fun m ev m' hev hm hstep ↦ ?_) rfl
  cases ev with
  | env now a => exact a.elim
  | task i now x => exact (Eff.Transition.base (hquiet i now x hev) hstep).trans hm

end MeshcoreRpc
