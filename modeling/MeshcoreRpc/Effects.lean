import MeshcoreRpc.Persistence.StoreCalls

/-!
# What the tasks of the service await

The pipeline, the handlers, the state aggregator and the consume loop are
coroutines over one signature of effects.  `Performs` is the database they
share: a store call either raises and leaves it alone, or does what the method
does with the connection to itself.
-/

namespace MeshcoreRpc

open Tables Coroutine Coro Interleaving

/-- The last gateway status the bus has cached. -/
structure GatewaySnapshot where
  state : PyVal := .none
  detail : PyVal := .none
  since : PyVal := .none
  snappedAt : Option ℚ := none

/-- An entry of `_last_radio`. -/
structure Radio where
  rssi : Option ℤ
  snr : Option PyFloat
  ts : PyVal

inductive Eff where
  | time
  | store (c : StoreCall)
  | publish (topic : String) (payload : List (String × PyVal)) (retain : Bool)
  | emit (nodeId : String) (response : Response)
  | getGatewaySnapshot
  | cacheGatewaySnapshot (state detail since : PyVal)
  | getRadio (nodeId : PyVal)
  | setRadio (nodeId : PyVal) (radio : Radio)
  /-- `PendingTracker._inc` and `_dec`, around every handler. -/
  | inc
  | dec
  /-- `asyncio.create_task(self._handle_one(topic, payload))` -/
  | createTask (payload : List UInt8)
  /-- An effect awaited inside `asyncio.wait_for`; no answer means that the
  timeout came first. -/
  | underTtl (ttlS : ℤ) (e : Eff)
  /-- An effect of a handler that its timeout has cancelled. -/
  | afterTtl (e : Eff)

namespace Eff

abbrev Answer : Eff → Type
  | time => ℚ
  | store c => Except PyExc c.Answer
  | publish .. => Except PyExc Unit
  | emit .. => Except PyExc Unit
  | getGatewaySnapshot => GatewaySnapshot
  | cacheGatewaySnapshot .. => Unit
  | getRadio _ => Option Radio
  | setRadio .. => Unit
  | inc => Unit
  | dec => Unit
  | createTask _ => Unit
  | underTtl _ e => Option e.Answer
  | afterTtl e => e.Answer

theorem answer_nonempty : ∀ e : Eff, Nonempty e.Answer
  | time => ⟨(0 : ℚ)⟩
  | store _ => ⟨.error .runtimeError⟩
  | publish .. => ⟨.ok ()⟩
  | emit .. => ⟨.ok ()⟩
  | getGatewaySnapshot => ⟨{}⟩
  | cacheGatewaySnapshot .. => ⟨()⟩
  | getRadio _ => ⟨none⟩
  | setRadio .. => ⟨()⟩
  | inc => ⟨()⟩
  | dec => ⟨()⟩
  | createTask _ => ⟨()⟩
  | underTtl _ _ => ⟨none⟩
  | afterTtl e => e.answer_nonempty

/-- The exception an effect was answered with. -/
def raised? : (e : Eff) → e.Answer → Option PyExc
  | store _, .error err => some err
  | publish .., .error err => some err
  | emit .., .error err => some err
  | _, _ => none

/-- The effects of a handler: no write to the lifecycle tables, no response, no
task of its own. -/
def Quiet : Eff → Prop
  | store c => c.lifecycle = false
  | emit .. => False
  | inc => False
  | dec => False
  | createTask _ => False
  | underTtl .. => False
  | afterTtl _ => False
  | _ => True

/-- The effects of whatever serves nodes: quiet ones that leave the state of the
base and the cached gateway status alone too. -/
def NodeSide : Eff → Prop
  | store c => c.lifecycle = false ∧ c.writesBase = false
  | cacheGatewaySnapshot .. => False
  | emit .. => False
  | inc => False
  | dec => False
  | createTask _ => False
  | underTtl .. => False
  | afterTtl _ => False
  | _ => True

/-- The effects of the pipeline itself, not of the handler it waits for. -/
def outer : Eff → Bool
  | underTtl .. => false
  | afterTtl _ => false
  | _ => true

/-- The effects that change nothing. -/
def Reads : Eff → Prop
  | time => True
  | store c => c.reads = true
  | getGatewaySnapshot => True
  | getRadio _ => True
  | _ => False

theorem Reads.nodeSide {e : Eff} (h : e.Reads) : e.NodeSide := by
  cases e with
  | store c => exact StoreCall.reads_quiet h
  | time | getGatewaySnapshot | getRadio => trivial
  | _ => exact h.elim

theorem NodeSide.quiet {e : Eff} (h : e.NodeSide) : e.Quiet := by
  cases e with
  | store c => exact h.1
  | cacheGatewaySnapshot => exact h.elim
  | _ => exact h

end Eff

/-- A coroutine of the service. -/
abbrev Prog : Type → Type := Coro Eff.Answer PyExc

abbrev Trace := List (Exchange Eff.Answer)

namespace Prog

def time : Prog ℚ := .await .time fun t ↦ .ret t

def store (c : StoreCall) : Prog c.Answer := .await (.store c) fun r ↦ .ofOutcome r

def publish (topic : String) (payload : List (String × PyVal)) (retain : Bool) : Prog Unit :=
  .await (.publish topic payload retain) fun r ↦ .ofOutcome r

def emit (nodeId : String) (response : Response) : Prog Unit :=
  .await (.emit nodeId response) fun r ↦ .ofOutcome r

def getGatewaySnapshot : Prog GatewaySnapshot := .await .getGatewaySnapshot fun s ↦ .ret s

def cacheGatewaySnapshot (state detail since : PyVal) : Prog Unit :=
  .await (.cacheGatewaySnapshot state detail since) fun _ ↦ .ret ()

def getRadio (nodeId : PyVal) : Prog (Option Radio) := .await (.getRadio nodeId) fun r ↦ .ret r

def setRadio (nodeId : PyVal) (radio : Radio) : Prog Unit :=
  .await (.setRadio nodeId radio) fun _ ↦ .ret ()

def inc : Prog Unit := .await .inc fun _ ↦ .ret ()

def dec : Prog Unit := .await .dec fun _ ↦ .ret ()

def createTask (payload : List UInt8) : Prog Unit :=
  .await (.createTask payload) fun _ ↦ .ret ()

section Rules

variable {Q : Trace → Except PyExc Unit → Prop} {P : Eff → Prop}

@[simp] theorem wp_time {Q : Trace → Except PyExc ℚ → Prop} :
    time.wp Q ↔ ∀ t : ℚ, Q [⟨.time, t⟩] (.ok t) := Iff.rfl

@[simp] theorem wp_publish {topic : String} {payload : List (String × PyVal)} {retain : Bool} :
    (publish topic payload retain).wp Q ↔
      ∀ r : Except PyExc Unit, Q [⟨.publish topic payload retain, r⟩] r :=
  forall_congr' fun _ ↦ wp_ofOutcome

@[simp] theorem wp_emit {nodeId : String} {response : Response} :
    (emit nodeId response).wp Q ↔ ∀ r : Except PyExc Unit, Q [⟨.emit nodeId response, r⟩] r :=
  forall_congr' fun _ ↦ wp_ofOutcome

@[simp] theorem wp_inc : inc.wp Q ↔ Q [⟨.inc, ()⟩] (.ok ()) :=
  ⟨fun h ↦ h (), fun h _ ↦ h⟩

@[simp] theorem wp_dec : dec.wp Q ↔ Q [⟨.dec, ()⟩] (.ok ()) :=
  ⟨fun h ↦ h (), fun h _ ↦ h⟩

@[simp] theorem wp_createTask {payload : List UInt8} :
    (createTask payload).wp Q ↔ Q [⟨.createTask payload, ()⟩] (.ok ()) :=
  ⟨fun h ↦ h (), fun h _ ↦ h⟩

@[simp] theorem wp_cacheGatewaySnapshot {state detail since : PyVal} :
    (cacheGatewaySnapshot state detail since).wp Q ↔
      Q [⟨.cacheGatewaySnapshot state detail since, ()⟩] (.ok ()) :=
  ⟨fun h ↦ h (), fun h _ ↦ h⟩

@[simp] theorem only_time : time.Only P ↔ P .time := by simp [time]

@[simp] theorem only_store {c : StoreCall} : (store c).Only P ↔ P (.store c) := by simp [store]

@[simp] theorem only_publish {topic : String} {payload : List (String × PyVal)} {retain : Bool} :
    (publish topic payload retain).Only P ↔ P (.publish topic payload retain) := by
  simp [publish]

@[simp] theorem only_emit {nodeId : String} {response : Response} :
    (emit nodeId response).Only P ↔ P (.emit nodeId response) := by
  simp [emit]

@[simp] theorem only_getGatewaySnapshot : getGatewaySnapshot.Only P ↔ P .getGatewaySnapshot := by
  simp [getGatewaySnapshot]

@[simp] theorem only_cacheGatewaySnapshot {state detail since : PyVal} :
    (cacheGatewaySnapshot state detail since).Only P ↔
      P (.cacheGatewaySnapshot state detail since) := by
  simp [cacheGatewaySnapshot]

@[simp] theorem only_getRadio {nodeId : PyVal} :
    (getRadio nodeId).Only P ↔ P (.getRadio nodeId) := by
  simp [getRadio]

@[simp] theorem only_setRadio {nodeId : PyVal} {radio : Radio} :
    (setRadio nodeId radio).Only P ↔ P (.setRadio nodeId radio) := by
  simp [setRadio]

@[simp] theorem only_inc : inc.Only P ↔ P .inc := by simp [inc]

@[simp] theorem only_dec : dec.Only P ↔ P .dec := by simp [dec]

@[simp] theorem only_createTask {payload : List UInt8} :
    (createTask payload).Only P ↔ P (.createTask payload) := by
  simp [createTask]

end Rules

end Prog

/-! ## The shared database -/

/-- What the answer `r` to the effect `e` at the time `now` says about the
database before and after. -/
def Eff.Transition (num : Numerals) (now : ℚ) : (e : Eff) → e.Answer → Db → Db → Prop
  | .store c, .ok a, db, db' => c.exec num now db = .ok (db', a)
  | .time, t, db, db' => t = now ∧ db' = db
  | .underTtl _ e, some r, db, db' => e.Transition num now r db db'
  | .afterTtl e, r, db, db' => e.Transition num now r db db'
  | _, _, db, db' => db' = db

/-- A store call of the rest of the service with its answer: of the retention
sweeper, the event routes, the gateway status cache. -/
abbrev Background :=
  { x : (c : StoreCall) × Except PyExc c.Answer //
    x.1.lifecycle = false ∨ ∃ cutoff, x.1 = .purgeBefore cutoff }

def Performs (num : Numerals) (ι : Type) : World Db ι Eff.Answer ℚ Background
  | db, .task _ now x, db' => x.1.Transition num now x.2 db db'
  | db, .env now x, db' => (Eff.store x.1.1).Transition num now x.1.2 db db'

theorem Eff.Transition.frame {num : Numerals} {now : ℚ} {e : Eff} {r : e.Answer} {db db' : Db}
    (he : e.Quiet) (h : e.Transition num now r db db') :
    db'.requests = db.requests ∧ db'.requestEvents = db.requestEvents := by
  cases e with
  | store c =>
      cases r with
      | ok a => exact StoreCall.exec_frame he h
      | error err =>
          cases h
          exact ⟨rfl, rfl⟩
  | time =>
      cases h.2
      exact ⟨rfl, rfl⟩
  | underTtl => cases he
  | afterTtl => cases he
  | emit => cases he
  | inc => cases he
  | dec => cases he
  | createTask => cases he
  | publish | getGatewaySnapshot | cacheGatewaySnapshot | getRadio | setRadio =>
      cases h
      exact ⟨rfl, rfl⟩

theorem Eff.Transition.unique {num : Numerals} {now : ℚ} {e : Eff} {r : e.Answer} {db s s' : Db}
    (h : e.Transition num now r db s) (h' : e.Transition num now r db s') : s = s' := by
  induction e with
  | store c =>
      cases r with
      | ok a =>
          have heq := Eq.trans (Eq.symm h) h'
          cases heq
          rfl
      | error err => exact Eq.trans h (Eq.symm h')
  | time => exact h.2.trans h'.2.symm
  | underTtl ttlS e ih =>
      cases r with
      | none => exact Eq.trans h (Eq.symm h')
      | some r => exact ih h h'
  | afterTtl e ih => exact ih h h'
  | _ => exact Eq.trans h (Eq.symm h')

theorem performs_unique {num : Numerals} {ι : Type} (db : Db)
    (ev : Event ι Eff.Answer ℚ Background) (s s' : Db) (h : Performs num ι db ev s)
    (h' : Performs num ι db ev s') : s = s' := by
  cases ev with
  | task i now x => exact Eff.Transition.unique h h'
  | env now x => exact Eff.Transition.unique h h'

/-! ## An environment that answers -/

/-- Answer an effect at the time `now`: with the exception `fails` names, else as
the database has it. -/
def Eff.respond (num : Numerals) (now : ℚ) (fails : Eff → Option PyExc) :
    (e : Eff) → Db → e.Answer × Db
  | .store c, db =>
    match fails (.store c), c.exec num now db with
    | some err, _ => (.error err, db)
    | none, .error err => (.error err, db)
    | none, .ok (db', a) => (.ok a, db')
  | .publish topic payload retain, db =>
    match fails (.publish topic payload retain) with
    | some err => (.error err, db)
    | none => (.ok (), db)
  | .emit nodeId response, db =>
    match fails (.emit nodeId response) with
    | some err => (.error err, db)
    | none => (.ok (), db)
  | .time, db => (now, db)
  | .getGatewaySnapshot, db => ({}, db)
  | .getRadio _, db => (none, db)
  | .cacheGatewaySnapshot .., db => ((), db)
  | .setRadio .., db => ((), db)
  | .inc, db => ((), db)
  | .dec, db => ((), db)
  | .createTask _, db => ((), db)
  | .underTtl _ e, db =>
    match e.respond num now fails db with
    | (r, db') => (some r, db')
  | .afterTtl e, db => e.respond num now fails db

theorem Eff.respond_transition (num : Numerals) (now : ℚ) (fails : Eff → Option PyExc) (e : Eff)
    (db : Db) :
    e.Transition num now (e.respond num now fails db).1 db (e.respond num now fails db).2 := by
  induction e with
  | store c =>
      simp only [Eff.respond]
      cases hfails : fails (.store c) with
      | some err => rfl
      | none =>
          cases hexec : c.exec num now db with
          | error err => rfl
          | ok out => exact hexec
  | publish topic payload retain =>
      simp only [Eff.respond]
      cases fails (.publish topic payload retain) <;> rfl
  | emit nodeId response =>
      simp only [Eff.respond]
      cases fails (.emit nodeId response) <;> rfl
  | time => exact ⟨rfl, rfl⟩
  | underTtl ttlS e ih => exact ih
  | afterTtl e ih => exact ih
  | _ => rfl

end MeshcoreRpc
