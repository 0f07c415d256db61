import MeshcoreRpc.Core.Calls

/-!
# How handlers end

A handler finishes, or the TTL elapses first and cancels it.  The two reach the
pipeline through one channel: a `TimeoutError` that the handler raises itself is
taken for the TTL, and what a cancelled handler returns or raises is taken for
what it would have come to in time.
-/

namespace MeshcoreRpc

open Tables Coroutine Coro

/-! ## The handler under its TTL -/

inductive Ending where
  /-- The TTL has elapsed first; the cancelled handler may still return or raise. -/
  | elapsed (unwound : Except PyExc (Option Response))
  | finished (outcome : Except PyExc Response)

namespace Ending

/-- What comes out of `run_with_timeout`. -/
def outcome : Ending → Except PyExc Response
  | elapsed (.ok none) => .error .timeoutError
  | elapsed (.ok (some response)) => .ok response
  | elapsed (.error err) => .error err
  | finished outcome => outcome

def underTtl (ttlS : ℤ) (x : Exchange Eff.Answer) : Exchange Eff.Answer :=
  ⟨.underTtl ttlS x.1, some x.2⟩

def afterTtl (x : Exchange Eff.Answer) : Exchange Eff.Answer := ⟨.afterTtl x.1, x.2⟩

/-- `inner` is all that the handler `x` does before it ends, or is ended, like this. -/
inductive Of (ttlS : ℤ) (x : Prog Response) (unwind : Unwinding Response) : Trace → Ending → Prop
  /-- There is no time to start in. -/
  | never (httl : ttlS ≤ 0) : Of ttlS x unwind [] (elapsed (.ok none))
  | elapsed (httl : 0 < ttlS) (done after : Trace) {e : Eff} {next : e.Answer → Prog Response}
      {unwound : Except PyExc (Option Response)} (hsteps : Steps x done (.await e next))
      (hunwound : Steps (unwind done e) after (ofOutcome unwound)) :
      Of ttlS x unwind
        (done.map (underTtl ttlS) ++ ⟨.underTtl ttlS e, none⟩ :: after.map afterTtl)
        (elapsed unwound)
  | finished (httl : 0 < ttlS) (done : Trace) {outcome : Except PyExc Response}
      (hsteps : Steps x done (ofOutcome outcome)) :
      Of ttlS x unwind (done.map (underTtl ttlS)) (finished outcome)

variable {ttlS : ℤ} {inner : Trace} {unwind : Unwinding Response}

theorem underTtl_injective (ttlS : ℤ) : Function.Injective (underTtl ttlS) := by
  rintro ⟨e, r⟩ ⟨e', r'⟩ h
  cases h
  rfl

theorem afterTtl_injective : Function.Injective afterTtl := by
  rintro ⟨e, r⟩ ⟨e', r'⟩ h
  cases h
  rfl

theorem Of.answered {e : Eff} {next : e.Answer → Prog Response} {r : e.Answer} {ending : Ending}
    (httl : 0 < ttlS) (h : Of ttlS (next r) (fun done ↦ unwind (⟨e, r⟩ :: done)) inner ending) :
    Of ttlS (.await e next) unwind (underTtl ttlS ⟨e, r⟩ :: inner) ending := by
  cases h with
  | never hnever => omega
  | elapsed _ done after hsteps hunwound =>
      exact .elapsed httl (⟨e, r⟩ :: done) after (.answer e next r hsteps) hunwound
  | finished _ done hsteps => exact .finished httl (⟨e, r⟩ :: done) (.answer e next r hsteps)

/-- What a cancelled handler does until it ends. -/
theorem windUp_spec (y : Prog (Option Response)) :
    (windUp y).wp fun tr o ↦ ∃ after unwound, Steps y after (ofOutcome unwound) ∧
      tr = after.map afterTtl ∧ (elapsed unwound).outcome = o := by
  induction y with
  | ret returned =>
      cases returned with
      | none => exact ⟨[], .ok none, .refl _, rfl, rfl⟩
      | some response => exact ⟨[], .ok (some response), .refl _, rfl, rfl⟩
  | raise err => exact ⟨[], .error err, .refl _, rfl, rfl⟩
  | await e next ih =>
      intro r
      refine wp_mono (ih r) fun tr o ⟨after, unwound, hsteps, htr, houtcome⟩ ↦ ?_
      exact ⟨⟨e, r⟩ :: after, unwound, .answer e next r hsteps, congrArg _ htr, houtcome⟩

theorem guarded_spec (httl : 0 < ttlS) (x : Prog Response) (unwind : Unwinding Response) :
    (guarded ttlS x unwind).wp fun inner o ↦
      ∃ ending, Of ttlS x unwind inner ending ∧ ending.outcome = o := by
  induction x generalizing unwind with
  | ret response => exact ⟨.finished (.ok response), .finished httl [] (.refl _), rfl⟩
  | raise err => exact ⟨.finished (.error err), .finished httl [] (.refl _), rfl⟩
  | await e next ih =>
      rw [guarded]
      intro r
      cases r with
      | none =>
          refine wp_mono (windUp_spec (unwind [] e)) fun tr o hunwound ↦ ?_
          obtain ⟨after, unwound, hsteps, rfl, houtcome⟩ := hunwound
          exact ⟨.elapsed unwound, .elapsed httl [] after (.refl _) hsteps, houtcome⟩
      | some r =>
          refine wp_mono (ih r fun done ↦ unwind (⟨e, r⟩ :: done)) fun inner o hinner ↦ ?_
          obtain ⟨ending, hending, houtcome⟩ := hinner
          exact ⟨ending, hending.answered httl, houtcome⟩

theorem waitFor_spec (ttlS : ℤ) (x : Prog Response) (unwind : Unwinding Response) :
    (waitFor ttlS x unwind).wp fun inner o ↦
      ∃ ending, Of ttlS x unwind inner ending ∧ ending.outcome = o := by
  unfold waitFor
  split
  case isTrue httl => exact ⟨.elapsed (.ok none), .never httl, rfl⟩
  case isFalse httl => exact guarded_spec (by omega) x unwind

theorem steps_windUp {y : Prog (Option Response)} {after : Trace}
    {unwound : Except PyExc (Option Response)} (h : Steps y after (ofOutcome unwound)) :
    Steps (windUp y) (after.map afterTtl) (ofOutcome (elapsed unwound).outcome) := by
  generalize hend : (ofOutcome unwound : Prog (Option Response)) = z at h
  induction h with
  | refl y =>
      subst hend
      rcases unwound with err | returned | response <;> exact .refl _
  | answer e next r rest ih =>
      exact Steps.answer (R := Eff.Answer) (.afterTtl e) _ r (ih hend)

theorem steps_guarded (ttlS : ℤ) (unwind : Unwinding Response) {x y : Prog Response}
    {done : Trace} (h : Steps x done y) :
    Steps (guarded ttlS x unwind) (done.map (underTtl ttlS))
      (guarded ttlS y fun more ↦ unwind (done ++ more)) := by
  induction h generalizing unwind with
  | refl x => exact .refl _
  | answer e next r rest ih =>
      rw [guarded]
      exact Steps.answer (R := Eff.Answer) (.underTtl ttlS e) _ (some r) (ih _)

theorem Of.steps {x : Prog Response} {ending : Ending} (h : Of ttlS x unwind inner ending) :
    Steps (waitFor ttlS x unwind) inner (ofOutcome ending.outcome) := by
  unfold waitFor
  cases h with
  | never httl =>
      rw [if_pos httl]
      exact .refl _
  | @elapsed httl done after e next unwound hsteps hunwound =>
      rw [if_neg (by omega)]
      refine (steps_guarded ttlS unwind hsteps).append ?_
      rw [guarded]
      refine Steps.answer (R := Eff.Answer) (.underTtl ttlS e) _ none ?_
      simpa using steps_windUp hunwound
  | @finished httl done outcome hsteps =>
      rw [if_neg (by omega)]
      have hended := steps_guarded ttlS unwind hsteps
      cases outcome with
      | ok response => exact hended
      | error err => exact hended

/-- The exchange at which the TTL has elapsed splits the trace. -/
theorem underTtl_split {done done' rest rest' : Trace} {e e' : Eff}
    (h : done.map (underTtl ttlS) ++ ⟨.underTtl ttlS e, none⟩ :: rest =
      done'.map (underTtl ttlS) ++ ⟨.underTtl ttlS e', none⟩ :: rest') :
    done = done' ∧ e = e' ∧ rest = rest' := by
  induction done generalizing done' with
  | nil =>
      cases done' with
      | nil =>
          cases h
          exact ⟨rfl, rfl, rfl⟩
      | cons z done' => cases h
  | cons z done ih =>
      cases done' with
      | nil => cases h
      | cons z' done' =>
          obtain ⟨hz, h⟩ := List.cons.inj h
          obtain ⟨rfl, he, hrest⟩ := ih h
          exact ⟨congrArg (· :: done) (underTtl_injective ttlS hz), he, hrest⟩

theorem underTtl_ne_elapsed (ttlS : ℤ) (e : Eff) (done done' rest : Trace) :
    done.map (underTtl ttlS) ≠
      done'.map (underTtl ttlS) ++ ⟨.underTtl ttlS e, none⟩ :: rest := by
  intro h
  have hmem : (⟨.underTtl ttlS e, none⟩ : Exchange Eff.Answer) ∈ done.map (underTtl ttlS) := by
    rw [h]
    simp
  obtain ⟨x, _, hx⟩ := List.mem_map.mp hmem
  cases hx

theorem outcome_unique {α : Type} {x : Prog α} {tr : Trace} {o o' : Except PyExc α}
    (h : Steps x tr (ofOutcome o)) (h' : Steps x tr (ofOutcome o')) : o = o' := by
  have hsame := congrArg outcome? (h.unique h')
  rw [outcome?_ofOutcome, outcome?_ofOutcome] at hsame
  exact Option.some.inj hsame

theorem Of.unique {x : Prog Response} {ending ending' : Ending} (h : Of ttlS x unwind inner ending)
    (h' : Of ttlS x unwind inner ending') : ending = ending' := by
  cases h with
  | never httl =>
      generalize hinner : ([] : Trace) = inner at h'
      cases h' with
      | never _ => rfl
      | elapsed hpos => omega
      | finished hpos => omega
  | @elapsed hpos done after e next unwound hsteps hunwound =>
      generalize hinner : done.map (underTtl ttlS) ++
        (⟨.underTtl ttlS e, none⟩ : Exchange Eff.Answer) :: after.map afterTtl = inner at h'
      cases h' with
      | never httl => omega
      | @elapsed _ done' after' e' next' unwound' hsteps' hunwound' =>
          obtain ⟨rfl, rfl, hafter⟩ := underTtl_split hinner
          obtain rfl := List.map_injective_iff.mpr afterTtl_injective hafter
          rw [outcome_unique hunwound hunwound']
      | @finished _ done' outcome' hsteps' =>
          exact absurd hinner.symm (underTtl_ne_elapsed ttlS e done' done _)
  | @finished hpos done outcome hsteps =>
      generalize hinner : done.map (underTtl ttlS) = inner at h'
      cases h' with
      | never httl => omega
      | @elapsed _ done' after' e' next' unwound' hsteps' hunwound' =>
          exact absurd hinner (underTtl_ne_elapsed ttlS e' done done' _)
      | @finished _ done' outcome' hsteps' =>
          obtain rfl := List.map_injective_iff.mpr (underTtl_injective ttlS) hinner
          rw [outcome_unique hsteps hsteps']

theorem unwound_letThrough {done after : Trace} {e : Eff}
    {unwound : Except PyExc (Option Response)}
    (h : Steps (letThrough done e) after (ofOutcome unwound)) :
    after = [] ∧ unwound = .ok none := by
  obtain ⟨rfl, heq⟩ := Steps.ret_iff.mp h
  cases unwound with
  | error err => cases heq
  | ok returned =>
      cases heq
      exact ⟨rfl, rfl⟩

/-- A handler that lets its cancellation through ends with the exchange it awaited. -/
theorem Of.cut {x : Prog Response} {done : Trace} {e : Eff} {next : e.Answer → Prog Response}
    (httl : 0 < ttlS) (h : Steps x done (.await e next)) :
    Of ttlS x letThrough (done.map (underTtl ttlS) ++ [⟨.underTtl ttlS e, none⟩])
      (Ending.elapsed (.ok none)) :=
  .elapsed httl done [] h (.refl _)

/-- The final state and the error code that the ending calls for. -/
def finalState : Ending → FinalState
  | finished (.ok _) => .completedOk
  | _ => .completedError

def code : Ending → Option String
  | elapsed _ => some Errors.timeout
  | finished (.ok _) => none
  | finished (.error (.rpcError code _)) => some code
  | finished (.error _) => some Errors.internal

/-- The response is the one the handler has returned, or an error with the code. -/
def Answers (response : Response) : Ending → Prop
  | finished (.ok returned) => response = returned
  | ending => response.status = .error ∧ response.error.map ErrorBody.code = ending.code

/-- The TTL has elapsed before the handler finished. -/
def Elapsed (ending : Ending) : Prop := ∃ unwound, ending = elapsed unwound

/-- A handler that has finished in time has not raised `TimeoutError`, and one that the
TTL has cancelled has come to nothing else. -/
def Unmistakable : Ending → Prop
  | elapsed unwound => unwound = .ok none ∨ unwound = .error .timeoutError
  | finished outcome => outcome ≠ .error .timeoutError

/-- The exception channel tells the two endings apart. -/
theorem unmistakable_iff {ending : Ending} :
    ending.Unmistakable ↔ (ending.outcome = .error .timeoutError ↔ ending.Elapsed) := by
  cases ending with
  | elapsed unwound =>
      rcases unwound with err | returned | response <;>
        simp [Unmistakable, outcome, Elapsed]
  | finished outcome' => simp [Unmistakable, outcome, Elapsed]

end Ending

/-! ## The call around its handler -/

/-- What a call does before its handler. -/
def opening (request : Request) (ttlS : ℤ) (seenAt : ℚ) : Trace :=
  [⟨.store (.recordReceived request ttlS), Except.ok true⟩,
    ⟨Verdict.eventEff request (.validated, none), Except.ok ()⟩, ⟨.time, seenAt⟩,
    ⟨Verdict.seenEff request seenAt, Except.ok ()⟩,
    ⟨Verdict.eventEff request (.handlerStarted, none), Except.ok ()⟩]

/-- What a call does after its handler. -/
inductive Closing (request : Request) (ttlS : ℤ) : Except PyExc Response → Trace →
    Except PyExc Unit → Prop
  /-- The store fails to record the timeout, and the call ends with that. -/
  | unlogged (err : PyExc) :
      Closing request ttlS (.error .timeoutError)
        [⟨Verdict.eventEff request (.timeout, none), Except.error err⟩] (.error err)
  | timedOut {fin : Trace} {o : Except PyExc Unit}
      (hfin : Finalized request ttlS (.handled (.error .timeoutError)) fin o) :
      Closing request ttlS (.error .timeoutError)
        (⟨Verdict.eventEff request (.timeout, none), Except.ok ()⟩ :: fin) o
  | ended {outcome : Except PyExc Response} {fin : Trace} {o : Except PyExc Unit}
      (hne : outcome ≠ .error .timeoutError)
      (hfin : Finalized request ttlS (.handled outcome) fin o) : Closing request ttlS outcome fin o

/-- The whole of a call that has started its handler. -/
def Around (request : Request) (ttlS : ℤ) (handler : Handler) (tr : Trace)
    (o : Except PyExc Unit) : Prop :=
  ∃ seenAt inner outcome closing,
    tr = opening request ttlS seenAt ++ ⟨.inc, ()⟩ :: (inner ++ ⟨.dec, ()⟩ :: closing) ∧
      Steps (handler.timed request ttlS) inner (ofOutcome outcome) ∧
      Closing request ttlS outcome closing o

theorem Finalized.not_inc {request : Request} {ttlS : ℤ} {verdict : Verdict} {fin : Trace}
    {o : Except PyExc Unit} (h : Finalized request ttlS verdict fin o) :
    (⟨.inc, ()⟩ : Exchange Eff.Answer) ∉ fin := by
  intro hmem
  rcases h.mem hmem with hx | hx | hx <;> cases hx

theorem closing_spec (request : Request) (ttlS : ℤ) (outcome : Except PyExc Response) :
    Coro.wp
      (match outcome with
        | .error .timeoutError => do
          recordEvent request .timeout none
          emitErrorFinal request Errors.timeout
            ("No response before timeout (" ++ toString ttlS ++ "s)")
        | .error (.rpcError code message) => emitErrorFinal request code message
        | .error (.other typeName) => emitErrorFinal request Errors.internal typeName
        | .ok response => publishAndFinalize request response .completedOk none)
      (Closing request ttlS outcome) := by
  have hfinal := publishAndFinalize_spec request ttlS (.handled outcome)
  cases outcome with
  | ok response => exact wp_mono hfinal fun fin o hfin ↦ .ended (by simp) hfin
  | error err =>
      cases err with
      | rpcError code message => exact wp_mono hfinal fun fin o hfin ↦ .ended (by simp) hfin
      | other typeName => exact wp_mono hfinal fun fin o hfin ↦ .ended (by simp) hfin
      | timeoutError =>
          simp only [recordEvent, wp_bind, Prog.store, wp_await, wp_ofOutcome]
          intro logged
          cases logged with
          | error err => exact .unlogged err
          | ok _ => exact wp_mono hfinal fun fin o hfin ↦ .timedOut hfin

/-- A call that has started its handler goes on to its end around it. -/
theorem processRequest_around (policy : TimeoutPolicy) {router : Router} {request : Request}
    {handler : Handler} (hrouter : router.resolve request.type = some handler) :
    (processRequest policy router request).wp fun tr o ↦ ⟨.inc, ()⟩ ∈ tr →
      Around request (policy.resolve request.type request.ttl) handler tr o := by
  simp only [processRequest, wp_bind, wp_attempt, Prog.store, wp_await, wp_ofOutcome]
  generalize policy.resolve request.type request.ttl = ttlS
  intro received
  cases received with
  | error err =>
      refine wp_mono (publishAndFinalize_spec request ttlS (.lost err)) fun fin o hfin hinc ↦ ?_
      have hnot := hfin.not_inc
      simp [hnot] at hinc
  | ok fresh =>
      cases fresh with
      | false =>
          simp only [recordEvent, wp_bind, Prog.store, wp_await, wp_ofOutcome]
          intro logged
          cases logged with
          | error err => simp
          | ok _ =>
              refine wp_mono (publishAndFinalize_spec request ttlS .duplicate)
                fun fin o hfin hinc ↦ ?_
              have hnot := hfin.not_inc
              simp [hnot] at hinc
      | true =>
          simp only [recordEvent, wp_bind, Prog.store, wp_await, wp_ofOutcome]
          intro validated
          cases validated with
          | error err => simp
          | ok _ =>
              simp only [Prog.wp_time]
              intro seenAt seen
              cases seen with
              | error err => simp
              | ok _ =>
                  simp only [hrouter, wp_bind, wp_await, wp_ofOutcome]
                  intro started
                  cases started with
                  | error err => simp
                  | ok _ =>
                      simp only [wp_attempt, wp_runWithTimeout]
                      intro inner outcome hinner
                      refine wp_mono (closing_spec request ttlS outcome)
                        fun closing o hclosing _ ↦ ?_
                      exact ⟨seenAt, inner, outcome, closing, by simp [opening, Verdict.eventEff,
                        Verdict.seenEff], hinner, hclosing⟩

theorem Closing.emitted {request : Request} {ttlS : ℤ} {outcome : Except PyExc Response}
    {closing : Trace} {o : Except PyExc Unit} (h : Closing request ttlS outcome closing o)
    {nodeId : String} {response : Response} {r : Except PyExc Unit}
    (hmem : ⟨.emit nodeId response, r⟩ ∈ closing) :
    response = (Verdict.handled outcome).response request ttlS := by
  cases h with
  | unlogged err => cases List.mem_singleton.mp hmem
  | timedOut hfin =>
      rcases List.mem_cons.mp hmem with heq | hmem
      · cases heq
      · rcases hfin.mem hmem with heq | heq | heq <;> cases heq
        rfl
  | ended hne hfin =>
      rcases hfin.mem hmem with heq | heq | heq <;> cases heq
      rfl

/-- What the pipeline goes on with once its handler has ended. -/
def afterHandler (request : Request) (ttlS : ℤ) : Except PyExc Response → Prog Unit
  | .error .timeoutError => do
    recordEvent request .timeout none
    emitErrorFinal request Errors.timeout
      ("No response before timeout (" ++ toString ttlS ++ "s)")
  | .error (.rpcError code message) => emitErrorFinal request code message
  | .error (.other typeName) => emitErrorFinal request Errors.internal typeName
  | .ok response => publishAndFinalize request response .completedOk none

theorem exists_closing (request : Request) (ttlS : ℤ) (outcome : Except PyExc Response) :
    ∃ closing o, Steps (afterHandler request ttlS outcome) closing (ofOutcome o) ∧
      ⟨.emit request.from_ ((Verdict.handled outcome).response request ttlS), Except.ok ()⟩ ∈
        closing := by
  have hsteps : Steps (afterHandler request ttlS outcome) ((afterHandler request ttlS
      outcome).exchanges (Eff.respond .plain 0 fun _ ↦ none) Db.empty) _ := steps_exchanges _ _
  refine ⟨_, _, hsteps, ?_⟩
  cases outcome with
  | ok response => exact List.mem_of_getElem? (i := 0) rfl
  | error err =>
      cases err with
      | timeoutError => exact List.mem_of_getElem? (i := 1) rfl
      | rpcError code message => exact List.mem_of_getElem? (i := 0) rfl
      | other typeName => exact List.mem_of_getElem? (i := 0) rfl

theorem exists_around (policy : TimeoutPolicy) {router : Router} {request : Request}
    {handler : Handler} {inner : Trace} {outcome : Except PyExc Response}
    (hrouter : router.resolve request.type = some handler)
    (hinner : Steps (handler.timed request (policy.resolve request.type request.ttl)) inner
      (ofOutcome outcome)) :
    ∃ closing o, Steps (processRequest policy router request)
        (opening request (policy.resolve request.type request.ttl) 0 ++
          ⟨.inc, ()⟩ :: (inner ++ ⟨.dec, ()⟩ :: closing)) (ofOutcome o) ∧
      Closing request (policy.resolve request.type request.ttl) outcome closing o ∧
      ⟨.emit request.from_ ((Verdict.handled outcome).response request
        (policy.resolve request.type request.ttl)), Except.ok ()⟩ ∈ closing := by
  obtain ⟨closing, o, hsteps, hemit⟩ :=
    exists_closing request (policy.resolve request.type request.ttl) outcome
  have hspec : (afterHandler request (policy.resolve request.type request.ttl) outcome).wp _ :=
    closing_spec request (policy.resolve request.type request.ttl) outcome
  refine ⟨closing, o, by_contra fun hnot ↦ ?_, wp_iff.mp hspec closing o hsteps, hemit⟩
  have hwp : (processRequest policy router request).wp fun tr o' ↦ o' = o →
      tr ≠ opening request (policy.resolve request.type request.ttl) 0 ++
          ⟨.inc, ()⟩ :: (inner ++ ⟨.dec, ()⟩ :: closing) := by
    refine wp_iff.mpr fun tr o' hsteps heq htr ↦ hnot ?_
    rw [← htr, ← heq]
    exact hsteps
  simp only [processRequest, wp_bind, wp_attempt, Prog.store, wp_await, wp_ofOutcome] at hwp
  have hfresh := hwp (.ok true)
  simp only [recordEvent, wp_bind, Prog.store, wp_await, wp_ofOutcome] at hfresh
  have hseen := hfresh (.ok ())
  simp only [Prog.wp_time] at hseen
  have hstarted := hseen 0 (.ok ())
  simp only [hrouter, wp_bind, wp_await, wp_ofOutcome] at hstarted
  have hran := hstarted (.ok ())
  simp only [wp_attempt, wp_runWithTimeout] at hran
  have hafter : (afterHandler request (policy.resolve request.type request.ttl) outcome).wp _ :=
    hran inner outcome hinner
  refine wp_iff.mp hafter closing o hsteps rfl ?_
  simp [opening, Verdict.eventEff, Verdict.seenEff]

/-! ## The classification -/

def handlerTrace (tr : Trace) : Trace := tr.filter fun x ↦ !x.1.outer

/-- What the call records and answers is what became of its handler. -/
structure Classified (request : Request) (tr : Trace) (ending : Ending) : Prop where
  timeout_logged : (∃ r : Except PyExc Unit,
    ⟨Verdict.eventEff request (.timeout, none), r⟩ ∈ tr) ↔ ending.Elapsed
  answered : ∀ nodeId response (r : Except PyExc Unit), ⟨.emit nodeId response, r⟩ ∈ tr →
    ending.Answers response
  recorded : ∀ requestId nodeId finalState response code (r : Except PyExc Unit),
    ⟨.store (.recordCompletion requestId nodeId finalState response code), r⟩ ∈ tr →
      finalState = ending.finalState ∧ code = ending.code ∧
        ∃ given, response = some given ∧ ending.Answers given
  settled : (∀ r : Except PyExc Unit, ⟨Verdict.eventEff request (.timeout, none), r⟩ ∈ tr →
      r = .ok ()) →
    (∃ response, ∃ r : Except PyExc Unit, ⟨.emit request.from_ response, r⟩ ∈ tr) ∧
      ∃ finalState response code, ∃ r : Except PyExc Unit,
        ⟨.store (.recordCompletion request.id request.from_ finalState response code), r⟩ ∈ tr

section Classification

variable {request : Request} {ttlS : ℤ}

theorem Finalized.outer {verdict : Verdict} {fin : Trace} {o : Except PyExc Unit}
    (h : Finalized request ttlS verdict fin o) {z : Exchange Eff.Answer} (hz : z ∈ fin) :
    z.1.outer = true := by
  rcases h.mem hz with hz | hz | hz <;> rw [hz] <;> rfl

theorem Closing.outer {outcome : Except PyExc Response} {closing : Trace} {o : Except PyExc Unit}
    (h : Closing request ttlS outcome closing o) {z : Exchange Eff.Answer} (hz : z ∈ closing) :
    z.1.outer = true := by
  cases h with
  | unlogged err =>
      cases List.mem_singleton.mp hz
      rfl
  | timedOut hfin =>
      rcases List.mem_cons.mp hz with rfl | hz
      · rfl
      · exact hfin.outer hz
  | ended hne hfin => exact hfin.outer hz

theorem handlerTrace_around {x : Prog Response} {unwind : Unwinding Response} {seenAt : ℚ}
    {inner closing : Trace} {outcome : Except PyExc Response} {o : Except PyExc Unit}
    (hinner : Steps (waitFor ttlS x unwind) inner (ofOutcome outcome))
    (hclosing : Closing request ttlS outcome closing o) :
    handlerTrace (opening request ttlS seenAt ++ ⟨.inc, ()⟩ :: (inner ++ ⟨.dec, ()⟩ :: closing)) =
      inner := by
  have hall : inner.filter (fun z ↦ !z.1.outer) = inner :=
    List.filter_eq_self.mpr fun z hz ↦ by simp [outer_of_waitFor hinner hz]
  have hnone : closing.filter (fun z ↦ !z.1.outer) = [] :=
    List.filter_eq_nil_iff.mpr fun z hz ↦ by simp [hclosing.outer hz]
  have hopening : (opening request ttlS seenAt).filter (fun z ↦ !z.1.outer) = [] := rfl
  rw [handlerTrace, List.filter_append, hopening, List.nil_append,
    List.filter_cons_of_neg (by simp [Eff.outer]), List.filter_append, hall,
    List.filter_cons_of_neg (by simp [Eff.outer]), hnone, List.append_nil]

theorem mem_around {x : Prog Response} {unwind : Unwinding Response} {seenAt : ℚ}
    {inner closing : Trace} {outcome : Except PyExc Response}
    (hinner : Steps (waitFor ttlS x unwind) inner (ofOutcome outcome))
    {z : Exchange Eff.Answer} (houter : z.1.outer = true)
    (hopening : z ∉ opening request ttlS seenAt)
    (hinc : z ≠ ⟨.inc, ()⟩) (hdec : z ≠ ⟨.dec, ()⟩) :
    z ∈ opening request ttlS seenAt ++ ⟨.inc, ()⟩ :: (inner ++ ⟨.dec, ()⟩ :: closing) ↔
      z ∈ closing := by
  have hnot : z ∉ inner := fun hz ↦ by
    rw [outer_of_waitFor hinner hz] at houter
    cases houter
  simp [hopening, hinc, hdec, hnot]

/-- The verdict on a handler is right if the exception channel tells how it has ended. -/
theorem Ending.verdict_right (request : Request) (ttlS : ℤ) {ending : Ending}
    (hplain : ending.Unmistakable) :
    (Verdict.handled ending.outcome).finalState = ending.finalState ∧
      (Verdict.handled ending.outcome).errorCode = ending.code ∧
      ending.Answers ((Verdict.handled ending.outcome).response request ttlS) := by
  cases ending with
  | elapsed unwound =>
      rcases hplain with rfl | rfl
      · exact ⟨rfl, rfl, rfl, rfl⟩
      · exact ⟨rfl, rfl, rfl, rfl⟩
  | finished outcome =>
      cases outcome with
      | ok response => exact ⟨rfl, rfl, rfl⟩
      | error err =>
          cases err with
          | timeoutError => exact absurd rfl hplain
          | rpcError code message => exact ⟨rfl, rfl, rfl, rfl⟩
          | other typeName => exact ⟨rfl, rfl, rfl, rfl⟩

theorem Finalized.reports {verdict : Verdict} {fin : Trace} {o : Except PyExc Unit}
    (h : Finalized request ttlS verdict fin o) :
    (∀ nodeId response (r : Except PyExc Unit), ⟨.emit nodeId response, r⟩ ∈ fin →
        response = verdict.response request ttlS) ∧
      (∀ requestId nodeId finalState response code (r : Except PyExc Unit),
        ⟨.store (.recordCompletion requestId nodeId finalState response code), r⟩ ∈ fin →
          finalState = verdict.finalState ∧ code = verdict.errorCode ∧
            response = some (verdict.response request ttlS)) ∧
      (∀ r : Except PyExc Unit, ⟨Verdict.eventEff request (.timeout, none), r⟩ ∉ fin) ∧
      (∃ r : Except PyExc Unit, ⟨.emit request.from_ (verdict.response request ttlS), r⟩ ∈ fin) ∧
      ∃ r : Except PyExc Unit, ⟨verdict.completionEff request ttlS, r⟩ ∈ fin := by
  refine ⟨fun nodeId response r hmem ↦ ?_,
    fun requestId nodeId finalState response code r hmem ↦ ?_,
    fun r hmem ↦ ?_, ?_, ?_⟩
  · rcases h.mem hmem with heq | heq | heq <;> cases heq
    rfl
  · rcases h.mem hmem with heq | heq | heq <;> cases heq
    exact ⟨rfl, rfl, rfl⟩
  · rcases h.mem hmem with heq | heq | heq <;> cases heq
  · cases h with
    | published logged completed => exact ⟨_, List.mem_cons_self⟩
    | dropped err completed => exact ⟨_, List.mem_cons_self⟩
  · obtain ⟨front, hfin, _⟩ := h.completion_last
    exact ⟨o, by simp [hfin]⟩

end Classification

/-- The closing of a call logs a timeout just when a `TimeoutError` has come out of
`run_with_timeout`. -/
theorem Closing.timeout_logged {request : Request} {ttlS : ℤ} {outcome : Except PyExc Response}
    {closing : Trace} {o : Except PyExc Unit} (h : Closing request ttlS outcome closing o) :
    (∃ r : Except PyExc Unit, ⟨Verdict.eventEff request (.timeout, none), r⟩ ∈ closing) ↔
      outcome = .error .timeoutError := by
  cases h with
  | unlogged err => exact iff_of_true ⟨_, List.mem_cons_self⟩ rfl
  | timedOut hfin => exact iff_of_true ⟨_, List.mem_cons_self⟩ rfl
  | ended hne hfin =>
      obtain ⟨_, _, hnone, _⟩ := hfin.reports
      exact iff_of_false (fun ⟨r, hmem⟩ ↦ hnone r hmem) hne

/-- The closing of a call classifies its handler just when the exception channel tells
how that has ended. -/
theorem Closing.classified {request : Request} {ttlS : ℤ} {ending : Ending}
    {outcome : Except PyExc Response} {closing : Trace} {o : Except PyExc Unit}
    (houtcome : ending.outcome = outcome) (h : Closing request ttlS outcome closing o) :
    Classified request closing ending ↔ ending.Unmistakable := by
  have hlogged := h.timeout_logged
  refine ⟨fun hclass ↦ ?_, fun hplain ↦ ?_⟩
  · rw [Ending.unmistakable_iff, houtcome, ← hlogged]
    exact hclass.timeout_logged
  · obtain ⟨hstate, hcode, hanswers⟩ := Ending.verdict_right request ttlS hplain
    rw [Ending.unmistakable_iff, houtcome, ← hlogged] at hplain
    rw [houtcome] at hstate hcode hanswers
    cases h with
    | unlogged err =>
        refine ⟨hplain, ?_, ?_, fun hok ↦ ?_⟩
        · intro nodeId response r hmem
          cases List.mem_singleton.mp hmem
        · intro requestId nodeId finalState response code r hmem
          cases List.mem_singleton.mp hmem
        · cases hok _ List.mem_cons_self
    | timedOut hfin =>
        obtain ⟨hemits, hcompletes, _, ⟨r, hemit⟩, r', hcompletion⟩ := hfin.reports
        refine ⟨hplain, ?_, ?_, fun _ ↦ ?_⟩
        · intro nodeId response r hmem
          rcases List.mem_cons.mp hmem with heq | hmem
          · cases heq
          · exact hemits nodeId response r hmem ▸ hanswers
        · intro requestId nodeId finalState response code r hmem
          rcases List.mem_cons.mp hmem with heq | hmem
          · cases heq
          · obtain ⟨rfl, rfl, rfl⟩ := hcompletes _ _ _ _ _ _ hmem
            exact ⟨hstate, hcode, _, rfl, hanswers⟩
        · exact ⟨⟨_, r, List.mem_cons_of_mem _ hemit⟩, _, _, _, r',
            List.mem_cons_of_mem _ hcompletion⟩
    | ended hne hfin =>
        obtain ⟨hemits, hcompletes, _, ⟨r, hemit⟩, r', hcompletion⟩ := hfin.reports
        refine ⟨hplain, ?_, ?_, fun _ ↦ ⟨⟨_, r, hemit⟩, _, _, _, r', hcompletion⟩⟩
        · intro nodeId response r hmem
          exact hemits nodeId response r hmem ▸ hanswers
        · intro requestId nodeId finalState response code r hmem
          obtain ⟨rfl, rfl, rfl⟩ := hcompletes _ _ _ _ _ _ hmem
          exact ⟨hstate, hcode, _, rfl, hanswers⟩

/-- An answer, a completion, or the event of a timeout. -/
inductive Announces (request : Request) : Exchange Eff.Answer → Prop
  | timeout (r : Except PyExc Unit) :
      Announces request ⟨Verdict.eventEff request (.timeout, none), r⟩
  | answer (nodeId : String) (response : Response) (r : Except PyExc Unit) :
      Announces request ⟨.emit nodeId response, r⟩
  | completion (requestId nodeId : String) (finalState : FinalState) (response : Option Response)
      (code : Option String) (r : Except PyExc Unit) :
      Announces request ⟨.store (.recordCompletion requestId nodeId finalState response code), r⟩

theorem Classified.congr {request : Request} {tr tr' : Trace} {ending : Ending}
    (hsame : ∀ z, Announces request z → (z ∈ tr ↔ z ∈ tr')) (h : Classified request tr ending) :
    Classified request tr' ending := by
  refine ⟨?_, fun nodeId response r hmem ↦ ?_,
    fun requestId nodeId finalState response code r hmem ↦ ?_,
    fun hok ↦ ?_⟩
  · rw [← h.timeout_logged]
    exact exists_congr fun r ↦ (hsame _ (.timeout r)).symm
  · exact h.answered nodeId response r ((hsame _ (.answer ..)).mpr hmem)
  · exact h.recorded _ _ _ _ _ r ((hsame _ (.completion ..)).mpr hmem)
  · obtain ⟨⟨response, r, hemit⟩, finalState, given, code, r', hcompletion⟩ :=
      h.settled fun r hmem ↦ hok r ((hsame _ (.timeout r)).mp hmem)
    exact ⟨⟨response, r, (hsame _ (.answer ..)).mp hemit⟩, finalState, given, code, r',
      (hsame _ (.completion ..)).mp hcompletion⟩

theorem classified_around {x : Prog Response} {unwind : Unwinding Response} {request : Request}
    {ttlS : ℤ} {seenAt : ℚ} {inner closing : Trace} {outcome : Except PyExc Response}
    {ending : Ending}
    (hinner : Steps (waitFor ttlS x unwind) inner (ofOutcome outcome)) :
    Classified request
        (opening request ttlS seenAt ++ ⟨.inc, ()⟩ :: (inner ++ ⟨.dec, ()⟩ :: closing)) ending ↔
      Classified request closing ending := by
  have hsame (z : Exchange Eff.Answer) (hz : Announces request z) :
      z ∈ opening request ttlS seenAt ++ ⟨.inc, ()⟩ :: (inner ++ ⟨.dec, ()⟩ :: closing) ↔
        z ∈ closing := by
    cases hz with
    | timeout r =>
        exact mem_around hinner rfl (by simp [opening, Verdict.eventEff]) (by simp) (by simp)
    | answer nodeId response r =>
        exact mem_around hinner rfl (by simp [opening]) (by simp) (by simp)
    | completion requestId nodeId finalState response code r =>
        exact mem_around hinner rfl (by simp [opening]) (by simp) (by simp)
  exact ⟨.congr hsame, .congr fun z hz ↦ (hsame z hz).symm⟩

/-- A call whose handler has ended records and answers what became of it, exactly
where the handler has not raised a `TimeoutError` of its own in time and has not, once
cancelled by the TTL, returned a response or raised anything else. -/
theorem classified_iff {policy : TimeoutPolicy} {router : Router} {request : Request}
    {handler : Handler} {tr : Trace} {o : Except PyExc Unit}
    (h : Steps (processRequest policy router request) tr (ofOutcome o))
    (hrouter : router.resolve request.type = some handler) (hstarted : ⟨.inc, ()⟩ ∈ tr) :
    ∃ ending, (∀ ending', Ending.Of (policy.resolve request.type request.ttl)
        (handler.handle request) (handler.unwind request) (handlerTrace tr) ending' ↔
          ending' = ending) ∧
      (Classified request tr ending ↔ ending.Unmistakable) := by
  obtain ⟨seenAt, inner, outcome, closing, rfl, hinner, hclosing⟩ :=
    wp_iff.mp (processRequest_around policy hrouter) tr o h hstarted
  obtain ⟨ending, hending, houtcome⟩ := wp_iff.mp (Ending.waitFor_spec ..) inner outcome hinner
  refine ⟨ending, fun ending' ↦ ?_, ?_⟩
  · rw [handlerTrace_around hinner hclosing]
    exact ⟨fun hof ↦ hof.unique hending, fun heq ↦ heq ▸ hending⟩
  · rw [classified_around hinner]
    exact hclosing.classified houtcome

/-! ## A handler that raises -/

def raising (err : PyExc) : Handler where
  type := "ping"
  handle _ := .raise err
  quiet _ := True.intro
  quiet_unwind _ := only_letThrough

def raisingRouter (err : PyExc) : Router := Table.empty.append (raising err) rfl

/-- A ping that the handler fails, on an empty database that never does. -/
def raisingTrace (err : PyExc) : Trace :=
  (processRequest {} (raisingRouter err) samplePing).exchanges
    (fun e db ↦ e.respond .plain 1 (fun _ ↦ none) db) Db.empty

theorem raisingTrace_steps (err : PyExc) :
    ∃ o, Steps (processRequest {} (raisingRouter err) samplePing) (raisingTrace err)
      (ofOutcome o) :=
  ⟨_, steps_exchanges _ _⟩

/-- A `ValueError` is answered as an internal error. -/
theorem valueError_internal : ∃ ending,
    Classified samplePing (raisingTrace .valueError) ending ∧
      ending.code = some Errors.internal := by
  obtain ⟨o, hsteps⟩ := raisingTrace_steps .valueError
  have hinc : (⟨.inc, ()⟩ : Exchange Eff.Answer) ∈ raisingTrace .valueError :=
    List.mem_of_getElem? (i := 5) rfl
  have hrouter : (raisingRouter .valueError).resolve samplePing.type = some (raising .valueError) :=
    rfl
  obtain ⟨ending, hending, hclass⟩ := classified_iff hsteps hrouter hinc
  have hraised : Ending.finished (.error .valueError) = ending :=
    (hending _).mp (.finished (by decide) [] (.refl _))
  refine ⟨ending, hclass.mpr ?_, ?_⟩
  · simp [← hraised, Ending.Unmistakable]
  · simp [← hraised, Ending.code]

/-- A `TimeoutError` of the handler is recorded as the TTL, which has not elapsed. -/
theorem own_timeout_misread :
    ¬ ∀ (policy : TimeoutPolicy) (router : Router) (request : Request) (handler : Handler) tr o,
      Steps (processRequest policy router request) tr (ofOutcome o) →
        router.resolve request.type = some handler → ⟨.inc, ()⟩ ∈ tr →
          ∀ ending, Ending.Of (policy.resolve request.type request.ttl) (handler.handle request)
            (handler.unwind request) (handlerTrace tr) ending → Classified request tr ending := by
  intro h
  obtain ⟨o, hsteps⟩ := raisingTrace_steps .timeoutError
  have hinc : (⟨.inc, ()⟩ : Exchange Eff.Answer) ∈ raisingTrace .timeoutError :=
    List.mem_of_getElem? (i := 5) rfl
  have hlogged : (⟨Verdict.eventEff samplePing (.timeout, none), Except.ok ()⟩ :
      Exchange Eff.Answer) ∈ raisingTrace .timeoutError := List.mem_of_getElem? (i := 7) rfl
  have hclass := h {} _ _ (raising .timeoutError) _ o hsteps rfl hinc
    (.finished (.error .timeoutError)) (.finished (by decide) [] (.refl _))
  obtain ⟨unwound, helapsed⟩ := hclass.timeout_logged.mp ⟨_, hlogged⟩
  cases helapsed

end MeshcoreRpc
