import MeshcoreRpc.Core.Pipeline

/-!
# The course of a call

A call of `process_request` is described by its *verdict*: what the store said
about the request and what became of the handler.  The verdict fixes the
effects before the finalizer, the response, and the final state; `Course` says
that every finished call is cut short by one of those effects or goes through
to the finalizer (`processRequest_course`).
-/

namespace MeshcoreRpc

open Tables Coroutine Coro

inductive Verdict where
  /-- `record_received` raised. -/
  | lost (err : PyExc)
  | duplicate
  | unknownType
  /-- What came out of `run_with_timeout`. -/
  | handled (outcome : Except PyExc Response)

namespace Verdict

def received : Verdict → Except PyExc Bool
  | lost err => .error err
  | duplicate => .ok false
  | unknownType => .ok true
  | handled _ => .ok true

/-- The states logged before the finalizer, after `received`. -/
def states : Verdict → List (EventState × Option String)
  | lost _ => []
  | duplicate => [(.rejected, some "duplicate")]
  | unknownType => [(.validated, none), (.rejected, some "unknown_type")]
  | handled (.error .timeoutError) =>
    [(.validated, none), (.handlerStarted, none), (.timeout, none)]
  | handled _ => [(.validated, none), (.handlerStarted, none)]

def response (request : Request) (ttlS : ℤ) : Verdict → Response
  | lost _ => error Errors.internal "persistence error"
  | duplicate => error Errors.duplicate "Duplicate request id for this node"
  | unknownType => error Errors.unknownType ("Unknown request type: " ++ request.type)
  | handled (.error .timeoutError) =>
    error Errors.timeout ("No response before timeout (" ++ toString ttlS ++ "s)")
  | handled (.error (.rpcError code message)) => error code message
  | handled (.error (.other typeName)) => error Errors.internal typeName
  | handled (.ok response) => response
where
  error (code message : String) : Response :=
    Response.makeError request.id request.type request.from_ code message

def finalState : Verdict → FinalState
  | handled (.ok _) => .completedOk
  | _ => .completedError

def errorCode : Verdict → Option String
  | lost _ => some Errors.internal
  | duplicate => some Errors.duplicate
  | unknownType => some Errors.unknownType
  | handled (.error .timeoutError) => some Errors.timeout
  | handled (.error (.rpcError code _)) => some code
  | handled (.error (.other _)) => some Errors.internal
  | handled (.ok _) => none

abbrev eventEff (request : Request) (state : EventState × Option String) : Eff :=
  .store (.recordEvent request.id request.from_ state.1 state.2)

abbrev seenEff (request : Request) (seenAt : ℚ) : Eff :=
  .store (.markNodeSeen (.str request.from_) (.float (.fin seenAt)))

abbrev completionEff (request : Request) (ttlS : ℤ) (verdict : Verdict) : Eff :=
  .store (.recordCompletion request.id request.from_ verdict.finalState
    (some (verdict.response request ttlS)) verdict.errorCode)

/-- The effects between `record_received` and the finalizer. -/
def before (request : Request) (seenAt : ℚ) : Verdict → List Eff
  | lost _ => []
  | duplicate => [eventEff request (.rejected, some "duplicate")]
  | unknownType =>
    [eventEff request (.validated, none), seenEff request seenAt,
      eventEff request (.rejected, some "unknown_type")]
  | handled (.error .timeoutError) =>
    [eventEff request (.validated, none), seenEff request seenAt,
      eventEff request (.handlerStarted, none), .inc, .dec, eventEff request (.timeout, none)]
  | handled _ =>
    [eventEff request (.validated, none), seenEff request seenAt,
      eventEff request (.handlerStarted, none), .inc, .dec]

theorem before_handled (request : Request) (seenAt : ℚ) {outcome : Except PyExc Response}
    (h : outcome ≠ .error .timeoutError) :
    before request seenAt (.handled outcome) =
      [eventEff request (.validated, none), seenEff request seenAt,
        eventEff request (.handlerStarted, none), .inc, .dec] := by
  cases outcome with
  | ok response => rfl
  | error err =>
      cases err with
      | timeoutError => exact absurd rfl h
      | rpcError code message => rfl
      | other typeName => rfl

/-- Where a verdict on a fresh request comes from. -/
def Decided (ttlS : ℤ) (router : Router) (request : Request) (tr : Trace) : Verdict → Prop
  | unknownType => router.resolve request.type = none
  | handled outcome => ∃ handler inner, router.resolve request.type = some handler ∧
      inner <:+: tr ∧ Steps (handler.timed request ttlS) inner (ofOutcome outcome)
  | _ => True

end Verdict

/-- What the request is answered with answers it when its handler does. -/
theorem Verdict.Decided.answers {ttlS : ℤ} {router : Router} {request : Request} {tr : Trace}
    {verdict : Verdict} (h : verdict.Decided ttlS router request tr)
    (hanswers : ∀ handler, router.resolve request.type = some handler → handler.Answers request) :
    (verdict.response request ttlS).Answers request := by
  cases verdict with
  | lost err => exact Response.makeError_answers ..
  | duplicate => exact Response.makeError_answers ..
  | unknownType => exact Response.makeError_answers ..
  | handled outcome =>
      cases outcome with
      | error err => cases err <;> exact Response.makeError_answers ..
      | ok response =>
          obtain ⟨handler, inner, hrouter, -, hsteps⟩ := h
          obtain ⟨hhandle, hunwind⟩ := hanswers handler hrouter
          exact (returns_waitFor hhandle hunwind).steps hsteps

/-! ## The course of a call -/

/-- The effects `es` awaited one after the other, up to the first that raises. -/
inductive Performed : List Eff → Trace → Except PyExc Unit → Prop
  | nil : Performed [] [] (.ok ())
  | raised {e : Eff} {r : e.Answer} {es : List Eff} {err : PyExc} (h : e.raised? r = some err) :
      Performed (e :: es) [⟨e, r⟩] (.error err)
  | answered {e : Eff} {r : e.Answer} {es : List Eff} {tr : Trace} {o : Except PyExc Unit}
      (h : e.raised? r = none) (rest : Performed es tr o) : Performed (e :: es) (⟨e, r⟩ :: tr) o

/-- What the finalizer does with a verdict: the exception of `emit` or of the
event is swallowed, that of `record_completion` is the outcome. -/
inductive Finalized (request : Request) (ttlS : ℤ) (verdict : Verdict) :
    Trace → Except PyExc Unit → Prop
  | published (logged completed : Except PyExc Unit) :
      Finalized request ttlS verdict
        [⟨.emit request.from_ (verdict.response request ttlS), Except.ok ()⟩,
          ⟨Verdict.eventEff request (.responsePublished, none), logged⟩,
          ⟨verdict.completionEff request ttlS, completed⟩] completed
  | dropped (err : PyExc) (completed : Except PyExc Unit) :
      Finalized request ttlS verdict
        [⟨.emit request.from_ (verdict.response request ttlS), Except.error err⟩,
          ⟨verdict.completionEff request ttlS, completed⟩] completed

/-- Clock readings and what happens inside the handler are left out. -/
def visible (tr : Trace) : Trace :=
  tr.filter fun x ↦
    match x.1 with
    | .time => false
    | .underTtl .. => false
    | .afterTtl _ => false
    | _ => true

/-- The course of a finished call. -/
inductive Course (ttlS : ℤ) (router : Router) (request : Request) (tr : Trace) :
    Except PyExc Unit → Prop
  | cut (verdict : Verdict) (seenAt : ℚ) (pre : Trace) (err : PyExc)
      (htr : visible tr = ⟨.store (.recordReceived request ttlS), verdict.received⟩ :: pre)
      (hpre : Performed (verdict.before request seenAt) pre (.error err)) :
      Course ttlS router request tr (.error err)
  | through (verdict : Verdict) (seenAt : ℚ) (pre fin : Trace) (o : Except PyExc Unit)
      (htr : visible tr =
        ⟨.store (.recordReceived request ttlS), verdict.received⟩ :: (pre ++ fin))
      (hpre : Performed (verdict.before request seenAt) pre (.ok ()))
      (hfin : Finalized request ttlS verdict fin o)
      (hdecided : verdict.Decided ttlS router request tr) :
      Course ttlS router request tr o

@[simp] theorem visible_nil : visible [] = [] := rfl

@[simp] theorem visible_append (tr tr' : Trace) : visible (tr ++ tr') = visible tr ++ visible tr' :=
  List.filter_append ..

@[simp] theorem visible_time (t : ℚ) (tr : Trace) : visible (⟨.time, t⟩ :: tr) = visible tr := rfl

@[simp] theorem visible_store (c : StoreCall) (r : Except PyExc c.Answer) (tr : Trace) :
    visible (⟨.store c, r⟩ :: tr) = ⟨.store c, r⟩ :: visible tr := rfl

@[simp] theorem visible_emit (nodeId : String) (response : Response) (r : Except PyExc Unit)
    (tr : Trace) :
    visible (⟨.emit nodeId response, r⟩ :: tr) = ⟨.emit nodeId response, r⟩ :: visible tr := rfl

@[simp] theorem visible_inc (tr : Trace) : visible (⟨.inc, ()⟩ :: tr) = ⟨.inc, ()⟩ :: visible tr :=
  rfl

@[simp] theorem visible_dec (tr : Trace) : visible (⟨.dec, ()⟩ :: tr) = ⟨.dec, ()⟩ :: visible tr :=
  rfl

theorem outer_of_waitFor {α : Type} {ttlS : ℤ} {x y : Prog α} {unwind : Unwinding α} {tr : Trace}
    (h : Steps (waitFor ttlS x unwind) tr y) {z : Exchange Eff.Answer} (hz : z ∈ tr) :
    z.1.outer = false := by
  have honly : (waitFor ttlS x unwind).Only fun e ↦ e.outer = false :=
    only_waitFor ((Only.trivial x).mono fun _ _ ↦ rfl) fun done e ↦
      (Only.trivial (unwind done e)).mono fun _ _ ↦ rfl
  exact (honly.steps h).1 z hz

theorem visible_waitFor {α : Type} {ttlS : ℤ} {x y : Prog α} {unwind : Unwinding α} {tr : Trace}
    (h : Steps (waitFor ttlS x unwind) tr y) : visible tr = [] := by
  rw [visible, List.filter_eq_nil_iff]
  intro z hz
  have houter := outer_of_waitFor h hz
  obtain ⟨e, r⟩ := z
  cases e with
  | underTtl => simp
  | afterTtl => simp
  | _ => cases houter

theorem wp_runWithTimeout {α : Type} {x : Prog α} {unwind : Unwinding α} {ttlS : ℤ}
    {Q : Trace → Except PyExc α → Prop} :
    (runWithTimeout x unwind ttlS).wp Q ↔
      ∀ inner o, Steps (waitFor ttlS x unwind) inner (ofOutcome o) →
        Q (⟨.inc, ()⟩ :: (inner ++ [⟨.dec, ()⟩])) o := by
  simp only [runWithTimeout, wp_bind, Prog.wp_inc, wp_attempt,
    wp_iff (x := waitFor ttlS x unwind), Prog.wp_dec, wp_ofOutcome]
  simp

theorem publishAndFinalize_spec (request : Request) (ttlS : ℤ) (verdict : Verdict) :
    (publishAndFinalize request (verdict.response request ttlS) verdict.finalState
      verdict.errorCode).wp (Finalized request ttlS verdict) := by
  simp only [publishAndFinalize, recordEvent, wp_bind, wp_tryCatch, Prog.wp_emit, Prog.store,
    wp_await, wp_ofOutcome]
  intro emitted
  cases emitted with
  | error err => exact fun completed ↦ .dropped err completed
  | ok _ =>
      intro logged
      cases logged with
      | error err => exact fun completed ↦ .published (.error err) completed
      | ok _ => exact fun completed ↦ .published (.ok ()) completed

theorem Finalized.visible_eq {request : Request} {ttlS : ℤ} {verdict : Verdict} {fin : Trace}
    {o : Except PyExc Unit} (h : Finalized request ttlS verdict fin o) : visible fin = fin := by
  cases h <;> rfl

theorem finalize_course {ttlS : ℤ} {router : Router} {request : Request} (verdict : Verdict)
    (seenAt : ℚ) {whole : Trace → Trace} {pre : Trace}
    (hpre : Performed (verdict.before request seenAt) pre (.ok ()))
    (hwhole : ∀ fin, visible (whole fin) =
      ⟨.store (.recordReceived request ttlS), verdict.received⟩ :: (pre ++ visible fin))
    (hdecided : ∀ fin, verdict.Decided ttlS router request (whole fin)) :
    (publishAndFinalize request (verdict.response request ttlS) verdict.finalState
      verdict.errorCode).wp fun fin o ↦ Course ttlS router request (whole fin) o := by
  refine wp_mono (publishAndFinalize_spec request ttlS verdict) fun fin o hfin ↦ ?_
  refine .through verdict seenAt pre fin o ?_ hpre hfin (hdecided fin)
  rw [hwhole, hfin.visible_eq]

theorem performed_duplicate (request : Request) (seenAt : ℚ) :
    Performed (Verdict.before request seenAt .duplicate)
      [⟨Verdict.eventEff request (.rejected, some "duplicate"), Except.ok ()⟩] (.ok ()) :=
  .answered rfl .nil

theorem performed_unknownType (request : Request) (seenAt : ℚ) :
    Performed (Verdict.before request seenAt .unknownType)
      [⟨Verdict.eventEff request (.validated, none), Except.ok ()⟩,
        ⟨Verdict.seenEff request seenAt, Except.ok ()⟩,
        ⟨Verdict.eventEff request (.rejected, some "unknown_type"), Except.ok ()⟩] (.ok ()) :=
  .answered rfl (.answered rfl (.answered rfl .nil))

/-- From validation to the end of the handler. -/
def handlerRun (request : Request) (seenAt : ℚ) : Trace :=
  [⟨Verdict.eventEff request (.validated, none), Except.ok ()⟩,
    ⟨Verdict.seenEff request seenAt, Except.ok ()⟩,
    ⟨Verdict.eventEff request (.handlerStarted, none), Except.ok ()⟩, ⟨.inc, ()⟩, ⟨.dec, ()⟩]

theorem performed_handled (request : Request) (seenAt : ℚ) {outcome : Except PyExc Response}
    (h : outcome ≠ .error .timeoutError) :
    Performed (Verdict.before request seenAt (.handled outcome)) (handlerRun request seenAt)
      (.ok ()) := by
  rw [Verdict.before_handled request seenAt h]
  exact .answered rfl (.answered rfl (.answered rfl (.answered rfl (.answered rfl .nil))))

theorem performed_timeout (request : Request) (seenAt : ℚ) (logged : Except PyExc Unit) :
    Performed (Verdict.before request seenAt (.handled (.error .timeoutError)))
      (handlerRun request seenAt ++ [⟨Verdict.eventEff request (.timeout, none), logged⟩])
      logged := by
  cases logged with
  | error err =>
      exact .answered rfl (.answered rfl (.answered rfl (.answered rfl (.answered rfl
        (.raised rfl)))))
  | ok _ =>
      exact .answered rfl (.answered rfl (.answered rfl (.answered rfl (.answered rfl
        (.answered rfl .nil)))))

theorem handled_course {ttlS : ℤ} {router : Router} {request : Request} {handler : Handler}
    (seenAt : ℚ) {inner : Trace} {outcome : Except PyExc Response} {whole : Trace → Trace}
    (hrouter : router.resolve request.type = some handler)
    (hinner : Steps (handler.timed request ttlS) inner (ofOutcome outcome))
    (hwithin : ∀ fin, inner <:+: whole fin)
    (hwhole : ∀ fin, visible (whole fin) =
      ⟨.store (.recordReceived request ttlS), Except.ok true⟩ ::
        (handlerRun request seenAt ++ visible fin)) :
    Coro.wp
      (match outcome with
        | .error .timeoutError => do
          recordEvent request .timeout none
          emitErrorFinal request Errors.timeout
            ("No response before timeout (" ++ toString ttlS ++ "s)")
        | .error (.rpcError code message) => emitErrorFinal request code message
        | .error (.other typeName) => emitErrorFinal request Errors.internal typeName
        | .ok response => publishAndFinalize request response .completedOk none)
      fun fin o ↦ Course ttlS router request (whole fin) o := by
  have hdecided (fin : Trace) :
      (Verdict.handled outcome).Decided ttlS router request (whole fin) :=
    ⟨handler, inner, hrouter, hwithin fin, hinner⟩
  cases outcome with
  | ok response =>
      exact finalize_course (.handled (.ok response)) seenAt
        (performed_handled request seenAt (by simp)) hwhole hdecided
  | error err =>
      cases err with
      | rpcError code message =>
          exact finalize_course (.handled (.error (.rpcError code message))) seenAt
            (performed_handled request seenAt (by simp)) hwhole hdecided
      | other typeName =>
          exact finalize_course (.handled (.error (.other typeName))) seenAt
            (performed_handled request seenAt (by simp)) hwhole hdecided
      | timeoutError =>
          simp only [recordEvent, wp_bind, Prog.store, wp_await, wp_ofOutcome]
          intro logged
          have hlogged := performed_timeout request seenAt logged
          cases logged with
          | error err =>
              exact .cut (.handled (.error .timeoutError)) seenAt _ err (hwhole _) hlogged
          | ok _ =>
              refine finalize_course (.handled (.error .timeoutError)) seenAt hlogged
                (fun fin ↦ ?_) fun fin ↦ ?_
              · rw [hwhole]
                rfl
              · exact ⟨handler, inner, hrouter, hwithin _, hinner⟩

theorem processRequest_course (policy : TimeoutPolicy) (router : Router) (request : Request) :
    (processRequest policy router request).wp
      (Course (policy.resolve request.type request.ttl) router request) := by
  simp only [processRequest, wp_bind, wp_attempt, Prog.store, wp_await, wp_ofOutcome]
  generalize policy.resolve request.type request.ttl = ttlS
  intro received
  cases received with
  | error err => exact finalize_course (.lost err) 0 .nil (fun _ ↦ rfl) fun _ ↦ trivial
  | ok fresh =>
      cases fresh with
      | false =>
          simp only [recordEvent, wp_bind, Prog.store, wp_await, wp_ofOutcome]
          intro logged
          cases logged with
          | error err => exact .cut .duplicate 0 _ err rfl (.raised rfl)
          | ok _ =>
              exact finalize_course .duplicate 0 (performed_duplicate request 0) (fun _ ↦ rfl)
                fun _ ↦ trivial
      | true =>
          simp only [recordEvent, wp_bind, Prog.store, wp_await, wp_ofOutcome]
          intro validated
          cases validated with
          | error err => exact .cut .unknownType 0 _ err rfl (.raised rfl)
          | ok _ =>
              simp only [Prog.wp_time]
              intro seenAt seen
              cases seen with
              | error err =>
                  exact .cut .unknownType seenAt _ err rfl (.answered rfl (.raised rfl))
              | ok _ =>
                  cases hrouter : router.resolve request.type with
                  | none =>
                      simp only [wp_bind, wp_await, wp_ofOutcome]
                      intro rejected
                      cases rejected with
                      | error err =>
                          exact .cut .unknownType seenAt _ err rfl
                            (.answered rfl (.answered rfl (.raised rfl)))
                      | ok _ =>
                          exact finalize_course .unknownType seenAt
                            (performed_unknownType request seenAt) (fun _ ↦ rfl)
                            fun _ ↦ hrouter
                  | some handler =>
                      simp only [wp_bind, wp_await, wp_ofOutcome]
                      intro started
                      cases started with
                      | error err =>
                          exact .cut (.handled (.error .timeoutError)) seenAt _ err rfl
                            (.answered rfl (.answered rfl (.raised rfl)))
                      | ok _ =>
                          simp only [wp_attempt, wp_runWithTimeout]
                          intro inner outcome hinner
                          refine handled_course seenAt hrouter hinner (fun fin ↦ ?_) fun fin ↦ ?_
                          · simp only [List.cons_append, List.nil_append, List.append_assoc]
                            iterate 6 refine List.infix_cons ?_
                            exact (List.prefix_append ..).isInfix
                          · simp [visible_waitFor hinner, handlerRun, Verdict.eventEff,
                              Verdict.seenEff]

theorem course_of_steps {policy : TimeoutPolicy} {router : Router} {request : Request} {tr : Trace}
    {y : Prog Unit} (h : Steps (processRequest policy router request) tr y) :
    ∃ rest o, Course (policy.resolve request.type request.ttl) router request (tr ++ rest) o := by
  obtain ⟨rest, o, hfinish⟩ := h.extend Eff.answer_nonempty
  exact ⟨rest, o, wp_iff.mp (processRequest_course policy router request) _ o hfinish⟩

end MeshcoreRpc
