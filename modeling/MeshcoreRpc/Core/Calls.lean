import MeshcoreRpc.Core.Course

/-!
# What every call keeps to

Facts about all traces of one call, finished or not: whose rows it touches,
that `record_received` comes first and `record_completion` last, what a
handler and a response presuppose, and when the call returns.
-/

namespace MeshcoreRpc

open Tables Coroutine Coro

/-- The effects of a call, each about its own request. -/
inductive Eff.OfCall (request : Request) (ttlS : ℤ) : Eff → Prop
  | time : OfCall request ttlS .time
  | received : OfCall request ttlS (.store (.recordReceived request ttlS))
  | event (state : EventState) (detail : Option String) :
      OfCall request ttlS (.store (.recordEvent request.id request.from_ state detail))
  | seen (ts : PyVal) : OfCall request ttlS (.store (.markNodeSeen (.str request.from_) ts))
  | completion (finalState : FinalState) (response : Option Response)
      (errorCode : Option String) :
      OfCall request ttlS
        (.store (.recordCompletion request.id request.from_ finalState response errorCode))
  | emit (response : Response) : OfCall request ttlS (.emit request.from_ response)
  | inc : OfCall request ttlS .inc
  | dec : OfCall request ttlS .dec
  | handler (e : Eff) (he : e.Quiet) : OfCall request ttlS (.underTtl ttlS e)
  | unwinding (e : Eff) (he : e.Quiet) : OfCall request ttlS (.afterTtl e)

theorem only_finalize {request : Request} {ttlS : ℤ} {P : Eff → Prop}
    (hcall : ∀ e, Eff.OfCall request ttlS e → e.outer → P e) (response : Response)
    (finalState : FinalState) (errorCode : Option String) :
    (publishAndFinalize request response finalState errorCode).Only P := by
  refine .bind (.tryCatch (.bind ?_ fun _ ↦ ?_) fun _ ↦ ?_) fun _ ↦ ?_
  · exact Prog.only_emit.mpr (hcall _ (.emit response) rfl)
  · exact Prog.only_store.mpr (hcall _ (.event ..) rfl)
  · exact True.intro
  · exact Prog.only_store.mpr (hcall _ (.completion ..) rfl)

theorem only_runWithTimeout {α : Type} {x : Prog α} {unwind : Unwinding α} {ttlS : ℤ}
    {P : Eff → Prop} (hinc : P .inc) (hdec : P .dec) (hx : (waitFor ttlS x unwind).Only P) :
    (runWithTimeout x unwind ttlS).Only P :=
  .bind (Prog.only_inc.mpr hinc) fun _ ↦ .bind (.attempt hx) fun _ ↦
    .bind (Prog.only_dec.mpr hdec) fun _ ↦ Only.ofOutcome_iff.mpr True.intro

/-- What holds of the effects of the pipeline and of those of the handler it waits for
holds of all effects of a call. -/
theorem processRequest_only_of {policy : TimeoutPolicy} {router : Router} {request : Request}
    {P : Eff → Prop}
    (hcall : ∀ e, Eff.OfCall request (policy.resolve request.type request.ttl) e → e.outer → P e)
    (hhandler : ∀ handler, router.resolve request.type = some handler →
      (handler.timed request (policy.resolve request.type request.ttl)).Only P) :
    (processRequest policy router request).Only P := by
  have hfinal := only_finalize hcall
  have hevent (state : EventState) (detail : Option String) :
      (recordEvent request state detail).Only P :=
    Prog.only_store.mpr (hcall _ (.event state detail) rfl)
  refine .bind (.attempt (Prog.only_store.mpr (hcall _ .received rfl))) fun received ↦ ?_
  cases received with
  | error err => exact hfinal ..
  | ok fresh =>
      cases fresh with
      | false => exact .bind (hevent ..) fun _ ↦ hfinal ..
      | true =>
          refine .bind (hevent ..) fun _ ↦ .bind (Prog.only_time.mpr (hcall _ .time rfl)) fun now ↦
            .bind (Prog.only_store.mpr (hcall _ (.seen _) rfl)) fun _ ↦ ?_
          cases hrouter : router.resolve request.type with
          | none => exact .bind (hevent ..) fun _ ↦ hfinal ..
          | some handler =>
              refine .bind (hevent ..) fun _ ↦ .bind (.attempt ?_) fun outcome ↦ ?_
              · exact only_runWithTimeout (hcall _ .inc rfl) (hcall _ .dec rfl)
                  (hhandler handler hrouter)
              · cases outcome with
                | ok response => exact hfinal ..
                | error err =>
                    cases err with
                    | timeoutError => exact .bind (hevent ..) fun _ ↦ hfinal ..
                    | rpcError code message => exact hfinal ..
                    | other typeName => exact hfinal ..

theorem processRequest_only (policy : TimeoutPolicy) (router : Router) (request : Request) :
    (processRequest policy router request).Only
      (Eff.OfCall request (policy.resolve request.type request.ttl)) :=
  processRequest_only_of (fun _ he _ ↦ he) fun handler _ ↦
    only_waitFor ((handler.quiet request).mono .handler) fun done e ↦
      (handler.quiet_unwind request done e).mono .unwinding

theorem Performed.mem {es : List Eff} {tr : Trace} {o : Except PyExc Unit} (h : Performed es tr o)
    {x : Exchange Eff.Answer} (hx : x ∈ tr) : x.1 ∈ es := by
  induction h with
  | nil => cases hx
  | raised h =>
      cases List.mem_singleton.mp hx
      exact List.mem_cons_self
  | answered h rest ih =>
      rcases List.mem_cons.mp hx with rfl | hx
      · exact List.mem_cons_self
      · exact List.mem_cons_of_mem _ (ih hx)

theorem Verdict.mem_before {request : Request} {seenAt : ℚ} {verdict : Verdict} {e : Eff}
    (h : e ∈ verdict.before request seenAt) :
    e = .inc ∨ e = .dec ∨ e = seenEff request seenAt ∨
      ∃ state detail, state ≠ .responsePublished ∧ e = eventEff request (state, detail) := by
  have hevent (state : EventState) (detail : Option String) (hne : state ≠ .responsePublished) :
      eventEff request (state, detail) = .inc ∨ eventEff request (state, detail) = .dec ∨
        eventEff request (state, detail) = seenEff request seenAt ∨
        ∃ state' detail', state' ≠ .responsePublished ∧
          eventEff request (state, detail) = eventEff request (state', detail') :=
    .inr (.inr (.inr ⟨state, detail, hne, rfl⟩))
  cases verdict with
  | lost err => cases h
  | duplicate =>
      cases List.mem_singleton.mp h
      exact hevent _ _ (by decide)
  | unknownType =>
      simp only [before, List.mem_cons, List.not_mem_nil, or_false] at h
      rcases h with rfl | rfl | rfl
      · exact hevent _ _ (by decide)
      · exact .inr (.inr (.inl rfl))
      · exact hevent _ _ (by decide)
  | handled outcome =>
      have hmem : e ∈ before request seenAt (.handled (.error .timeoutError)) := by
        by_cases ho : outcome = .error .timeoutError
        · exact ho ▸ h
        · rw [before_handled _ _ ho] at h
          simp only [before, List.mem_cons, List.not_mem_nil, or_false] at h ⊢
          tauto
      simp only [before, List.mem_cons, List.not_mem_nil, or_false] at hmem
      rcases hmem with rfl | rfl | rfl | rfl | rfl | rfl
      · exact hevent _ _ (by decide)
      · exact .inr (.inr (.inl rfl))
      · exact hevent _ _ (by decide)
      · exact .inl rfl
      · exact .inr (.inl rfl)
      · exact hevent _ _ (by decide)

theorem Finalized.mem {request : Request} {ttlS : ℤ} {verdict : Verdict} {fin : Trace}
    {o : Except PyExc Unit} (h : Finalized request ttlS verdict fin o) {x : Exchange Eff.Answer}
    (hx : x ∈ fin) :
    x.1 = .emit request.from_ (verdict.response request ttlS) ∨
      x.1 = Verdict.eventEff request (.responsePublished, none) ∨
      x.1 = verdict.completionEff request ttlS := by
  cases h with
  | published logged completed =>
      simp only [List.mem_cons, List.not_mem_nil, or_false] at hx
      rcases hx with rfl | rfl | rfl
      · exact .inl rfl
      · exact .inr (.inl rfl)
      · exact .inr (.inr rfl)
  | dropped err completed =>
      simp only [List.mem_cons, List.not_mem_nil, or_false] at hx
      rcases hx with rfl | rfl
      · exact .inl rfl
      · exact .inr (.inr rfl)

/-- A course in one line: the answer of `record_received`, the effects its
verdict asks for, and the finalizer when none of them raised. -/
theorem Course.form {ttlS : ℤ} {router : Router} {request : Request} {tr : Trace}
    {o : Except PyExc Unit} (h : Course ttlS router request tr o) :
    ∃ verdict seenAt pre fin o₁,
      visible tr = ⟨.store (.recordReceived request ttlS), Verdict.received verdict⟩ ::
        (pre ++ fin) ∧
      Performed (verdict.before request seenAt) pre o₁ ∧
      ((∃ err, o₁ = .error err ∧ o = .error err ∧ fin = []) ∨
        o₁ = .ok () ∧ Finalized request ttlS verdict fin o ∧
          verdict.Decided ttlS router request tr) := by
  cases h with
  | cut verdict seenAt pre err htr hpre =>
      exact ⟨verdict, seenAt, pre, [], .error err, by rw [htr, List.append_nil], hpre,
        .inl ⟨err, rfl, rfl, rfl⟩⟩
  | through verdict seenAt pre fin _ htr hpre hfin hdecided =>
      exact ⟨verdict, seenAt, pre, fin, .ok (), htr, hpre, .inr ⟨rfl, hfin, hdecided⟩⟩

def Eff.isCompletion : Eff → Bool
  | store (.recordCompletion ..) => true
  | _ => false

section Partial

variable {policy : TimeoutPolicy} {router : Router} {request : Request} {tr : Trace} {y : Prog Unit}

theorem visible_of_steps (h : Steps (processRequest policy router request) tr y) :
    ∃ verdict seenAt pre fin o rest,
      visible tr ++ rest =
        ⟨.store (.recordReceived request (policy.resolve request.type request.ttl)),
          Verdict.received verdict⟩ :: (pre ++ fin) ∧
      (∃ o₁, Performed (verdict.before request seenAt) pre o₁) ∧
      (fin = [] ∨ Finalized request (policy.resolve request.type request.ttl) verdict fin o) := by
  obtain ⟨rest, o, hcourse⟩ := course_of_steps h
  obtain ⟨verdict, seenAt, pre, fin, o₁, htr, hpre, hfin⟩ := hcourse.form
  refine ⟨verdict, seenAt, pre, fin, o, visible rest, by rw [← visible_append, htr],
    ⟨o₁, hpre⟩, ?_⟩
  rcases hfin with ⟨err, _, _, hnil⟩ | ⟨_, hfin, _⟩
  · exact .inl hnil
  · exact .inr hfin

/-- After `record_received` there is neither another one nor, before the
finalizer, a completion. -/
theorem mem_rest {verdict : Verdict} {seenAt : ℚ} {ttlS : ℤ} {pre fin : Trace}
    {o o₁ : Except PyExc Unit} {x : Exchange Eff.Answer}
    (hpre : Performed (verdict.before request seenAt) pre o₁)
    (hfin : fin = [] ∨ Finalized request ttlS verdict fin o) (hx : x ∈ pre ++ fin) :
    ∀ rq t, x.1 ≠ .store (.recordReceived rq t) := by
  intro rq t heq
  rcases List.mem_append.mp hx with hx | hx
  · rcases Verdict.mem_before (hpre.mem hx) with h | h | h | ⟨state, detail, _, h⟩ <;>
      rw [heq] at h <;> cases h
  · rcases hfin with rfl | hfin
    · cases hx
    · rcases hfin.mem hx with h | h | h <;> rw [heq] at h <;> cases h

theorem mem_visible {x : Exchange Eff.Answer} (hx : x ∈ tr) (htime : x.1 ≠ .time)
    (houter : x.1.outer = true) : x ∈ visible tr := by
  refine List.mem_filter.mpr ⟨hx, ?_⟩
  obtain ⟨e, r⟩ := x
  cases e with
  | time => exact absurd rfl htime
  | underTtl => cases houter
  | afterTtl => cases houter
  | _ => rfl

theorem mem_of_visible {x : Exchange Eff.Answer} (hx : x ∈ visible tr) : x ∈ tr :=
  List.mem_of_mem_filter hx

theorem recordReceived_first {before after : Trace} {rq : Request} {t : ℤ}
    {r : (Eff.store (.recordReceived rq t)).Answer}
    (h : Steps (processRequest policy router request)
      (before ++ ⟨.store (.recordReceived rq t), r⟩ :: after) y) :
    visible before = [] ∧ rq = request := by
  obtain ⟨verdict, seenAt, pre, fin, o, rest, htr, ⟨o₁, hpre⟩, hfin⟩ := visible_of_steps h
  rw [visible_append, visible_store, List.append_assoc] at htr
  cases hbefore : visible before with
  | nil =>
      rw [hbefore, List.nil_append, List.cons_append] at htr
      have heq := congrArg Sigma.fst (List.cons.inj htr).1
      cases heq
      exact ⟨rfl, rfl⟩
  | cons a l =>
      rw [hbefore, List.cons_append] at htr
      have hmem : (⟨.store (.recordReceived rq t), r⟩ : Exchange Eff.Answer) ∈ pre ++ fin := by
        rw [← (List.cons.inj htr).2]
        simp
      exact absurd rfl (mem_rest hpre hfin hmem rq t)

theorem Finalized.completion_last {ttlS : ℤ} {verdict : Verdict} {fin : Trace}
    {o : Except PyExc Unit} (h : Finalized request ttlS verdict fin o) :
    ∃ front, fin = front ++ [⟨verdict.completionEff request ttlS, o⟩] ∧
      ∀ x ∈ front, ¬ x.1.isCompletion := by
  cases h with
  | published logged completed =>
      refine ⟨[_, _], rfl, ?_⟩
      simp [Eff.isCompletion, Verdict.eventEff]
  | dropped err completed =>
      refine ⟨[_], rfl, ?_⟩
      simp [Eff.isCompletion]

theorem completion_closes {before after : Trace} {x : Exchange Eff.Answer}
    (h : Steps (processRequest policy router request) (before ++ x :: after) y)
    (hx : x.1.isCompletion) :
    visible after = [] ∧ ∃ verdict o start front, visible before = start ++ front ∧
      x = ⟨verdict.completionEff request (policy.resolve request.type request.ttl), o⟩ ∧
      Finalized request (policy.resolve request.type request.ttl) verdict (front ++ [x]) o := by
  obtain ⟨verdict, seenAt, pre, fin, o, rest, htr, ⟨o₁, hpre⟩, hfin⟩ := visible_of_steps h
  have hvisible : visible (x :: after) = x :: visible after := by
    obtain ⟨e, r⟩ := x
    cases e with
    | time => cases hx
    | underTtl => cases hx
    | afterTtl => cases hx
    | _ => rfl
  rw [visible_append, hvisible, List.append_assoc, List.cons_append] at htr
  have hstart : ∀ a ∈ (⟨.store (.recordReceived request (policy.resolve request.type request.ttl)),
      verdict.received⟩ : Exchange Eff.Answer) :: pre, ¬ a.1.isCompletion := by
    intro a ha
    rcases List.mem_cons.mp ha with rfl | ha
    · simp [Eff.isCompletion]
    · rcases Verdict.mem_before (hpre.mem ha) with h | h | h | ⟨state, detail, _, h⟩ <;>
        simp [h, Eff.isCompletion, Verdict.seenEff, Verdict.eventEff]
  rcases hfin with rfl | hfin
  · have hmem : x ∈ visible before ++ x :: (visible after ++ rest) := by simp
    rw [htr, List.append_nil] at hmem
    exact absurd hx (hstart x hmem)
  · obtain ⟨front, rfl, hfront⟩ := hfin.completion_last
    rcases List.eq_nil_or_concat (visible after ++ rest) with hnil | ⟨l, last, hlast⟩
    · rw [hnil, ← List.append_assoc, ← List.cons_append] at htr
      obtain ⟨hbefore, hsame⟩ := List.append_inj' htr rfl
      cases hsame
      exact ⟨(List.append_eq_nil_iff.mp hnil).1, verdict, o, _ :: pre, front, hbefore, rfl, hfin⟩
    · rw [hlast, List.concat_eq_append, ← List.cons_append, ← List.append_assoc,
        ← List.append_assoc, ← List.cons_append] at htr
      have hmem : x ∈ visible before ++ x :: l := by simp
      rw [(List.append_inj' htr rfl).1, ← List.cons_append] at hmem
      rcases List.mem_append.mp hmem with hmem | hmem
      · exact absurd hx (hstart x hmem)
      · exact absurd hx (hfront x hmem)

theorem recordCompletion_last {before after : Trace} {x : Exchange Eff.Answer}
    (h : Steps (processRequest policy router request) (before ++ x :: after) y)
    (hx : x.1.isCompletion) : visible after = [] := (completion_closes h hx).1

/-- What is recorded as the response has been emitted, and if `emit` returned,
`response_published` has been logged or tried. -/
theorem completion_emitted {before after : Trace} {finalState : FinalState}
    {response : Option Response} {errorCode : Option String} {r : Except PyExc Unit}
    (h : Steps (processRequest policy router request)
      (before ++ ⟨.store (.recordCompletion request.id request.from_ finalState response errorCode),
        r⟩ :: after) y) :
    ∃ given emitted, response = some given ∧ ⟨.emit request.from_ given, emitted⟩ ∈ before ∧
      (emitted = .ok () → ∃ logged : Except PyExc Unit,
        ⟨Verdict.eventEff request (.responsePublished, none), logged⟩ ∈ before) := by
  obtain ⟨_, verdict, o, start, front, hbefore, hx, hfin⟩ := completion_closes h rfl
  have hresponse : response =
      some (verdict.response request (policy.resolve request.type request.ttl)) := by
    have heq := congrArg Sigma.fst hx
    cases heq
    rfl
  generalize hwhole : front ++ _ = whole at hfin
  have hmem {a : Exchange Eff.Answer} (ha : a ∈ whole) (hne : a.1.isCompletion = false) :
      a ∈ before := by
    rw [← hwhole] at ha
    rcases List.mem_append.mp ha with ha | ha
    · exact mem_of_visible (hbefore ▸ List.mem_append_right _ ha)
    · cases List.mem_singleton.mp ha
      cases hne
  cases hfin with
  | published logged _ =>
      exact ⟨_, .ok (), hresponse, hmem (by simp) rfl, fun _ ↦ ⟨logged, hmem (by simp) rfl⟩⟩
  | dropped err _ =>
      exact ⟨_, .error err, hresponse, hmem (by simp) rfl, fun h ↦ by cases h⟩

theorem received_verdict {verdict : Verdict} {ttlS : ℤ} {rest tail : Trace}
    {fresh : Except PyExc Bool}
    (htr : visible tr ++ rest =
      ⟨.store (.recordReceived request ttlS), verdict.received⟩ :: tail)
    (htail : ∀ x ∈ tail, ∀ rq t, x.1 ≠ .store (.recordReceived rq t))
    (hmem : ⟨.store (.recordReceived request ttlS), fresh⟩ ∈ tr) : verdict.received = fresh := by
  have hvis : (⟨.store (.recordReceived request ttlS), fresh⟩ : Exchange Eff.Answer) ∈
      visible tr ++ rest := List.mem_append_left _ (mem_visible hmem (by simp) rfl)
  rw [htr] at hvis
  rcases List.mem_cons.mp hvis with heq | hvis
  · have hsnd := eq_of_heq (Sigma.mk.inj heq).2
    exact hsnd.symm
  · exact absurd rfl (htail _ hvis request ttlS)

theorem received_mem {x r : Exchange Eff.Answer} {rest tail : Trace}
    (htr : visible tr ++ rest = r :: tail) (hx : x ∈ visible tr) : r ∈ tr := by
  cases hvis : visible tr with
  | nil =>
      rw [hvis] at hx
      cases hx
  | cons a l =>
      rw [hvis] at htr
      rw [← (List.cons.inj htr).1]
      exact mem_of_visible (hvis ▸ List.mem_cons_self)

theorem started_fresh (h : Steps (processRequest policy router request) tr y)
    (hinc : ⟨.inc, ()⟩ ∈ tr) :
    ⟨.store (.recordReceived request (policy.resolve request.type request.ttl)), Except.ok true⟩ ∈
      tr := by
  obtain ⟨verdict, seenAt, pre, fin, o, rest, htr, ⟨o₁, hpre⟩, hfin⟩ := visible_of_steps h
  have hvis := mem_visible hinc (by simp) rfl
  have hreceived := received_mem htr hvis
  have hmem : (⟨.inc, ()⟩ : Exchange Eff.Answer) ∈ pre := by
    have hall := List.mem_append_left rest hvis
    rw [htr] at hall
    rcases List.mem_cons.mp hall with heq | hall
    · cases heq
    · rcases List.mem_append.mp hall with hall | hall
      · exact hall
      · rcases hfin with rfl | hfin
        · cases hall
        · rcases hfin.mem hall with h | h | h <;> cases h
  have hfresh : verdict.received = .ok true := by
    cases verdict with
    | lost err => cases hpre.mem hmem
    | duplicate => cases List.mem_singleton.mp (hpre.mem hmem)
    | unknownType => rfl
    | handled outcome => rfl
  rw [← hfresh]
  exact hreceived

/-- A call whose request is known already emits nothing but the duplicate error. -/
theorem duplicate_emit {nodeId : String} {response : Response} {r : Except PyExc Unit}
    (h : Steps (processRequest policy router request) tr y)
    (hdup : ⟨.store (.recordReceived request (policy.resolve request.type request.ttl)),
      Except.ok false⟩ ∈ tr)
    (hemit : ⟨.emit nodeId response, r⟩ ∈ tr) :
    nodeId = request.from_ ∧ response =
      Response.makeError request.id request.type request.from_ Errors.duplicate
        "Duplicate request id for this node" := by
  obtain ⟨verdict, seenAt, pre, fin, o, rest, htr, ⟨o₁, hpre⟩, hfin⟩ := visible_of_steps h
  have hreceived : verdict.received = .ok false :=
    received_verdict htr (fun x hx ↦ mem_rest hpre hfin hx) hdup
  have hverdict : verdict = .duplicate := by
    cases verdict with
    | duplicate => rfl
    | lost err => cases hreceived
    | unknownType => cases hreceived
    | handled outcome => cases hreceived
  have hall := List.mem_append_left rest (mem_visible hemit (by simp) rfl)
  rw [htr] at hall
  rcases List.mem_cons.mp hall with heq | hall
  · cases heq
  · rcases List.mem_append.mp hall with hall | hall
    · rcases Verdict.mem_before (hpre.mem hall) with h | h | h | ⟨state, detail, _, h⟩ <;> cases h
    · rcases hfin with rfl | hfin
      · cases hall
      · rcases hfin.mem hall with h | h | h
        · rw [hverdict] at h
          cases h
          exact ⟨rfl, rfl⟩
        · cases h
        · cases h

end Partial

/-! ## When a call returns -/

/-- The calls of the pipeline that no `try` surrounds. -/
def Eff.unguarded : Eff → Bool
  | store (.recordEvent _ _ state _) => decide (state ≠ .responsePublished)
  | store (.markNodeSeen ..) => true
  | store (.recordCompletion ..) => true
  | _ => false

/-- The attempts to emit, with their addressees. -/
def emits (tr : Trace) : List (String × Response) :=
  tr.filterMap fun
    | ⟨.emit nodeId response, _⟩ => some (nodeId, response)
    | _ => none

theorem Performed.not_raised {es : List Eff} {tr : Trace} (h : Performed es tr (.ok ()))
    {x : Exchange Eff.Answer} (hx : x ∈ tr) : x.1.raised? x.2 = none := by
  generalize ho : (Except.ok () : Except PyExc Unit) = o at h
  induction h with
  | nil => cases hx
  | raised h => cases ho
  | answered h rest ih =>
      rcases List.mem_cons.mp hx with rfl | hx
      · exact h
      · exact ih hx ho

theorem Performed.exists_raised {es : List Eff} {tr : Trace} {err : PyExc}
    (h : Performed es tr (.error err)) :
    ∃ x ∈ tr, x.1 ∈ es ∧ x.1.raised? x.2 = some err := by
  generalize ho : (Except.error err : Except PyExc Unit) = o at h
  induction h with
  | nil => cases ho
  | raised h =>
      cases ho
      exact ⟨_, List.mem_cons_self, List.mem_cons_self, h⟩
  | answered h rest ih =>
      obtain ⟨x, hx, hes, hraised⟩ := ih ho
      exact ⟨x, List.mem_cons_of_mem _ hx, List.mem_cons_of_mem _ hes, hraised⟩

theorem emits_visible (tr : Trace) : emits tr = emits (visible tr) := by
  rw [emits, emits, visible, List.filterMap_filter]
  congr 1
  funext x
  obtain ⟨e, r⟩ := x
  cases e <;> rfl

theorem emits_before {request : Request} {seenAt : ℚ} {verdict : Verdict} {pre : Trace}
    {o : Except PyExc Unit} (h : Performed (verdict.before request seenAt) pre o) :
    emits pre = [] := by
  refine List.filterMap_eq_nil_iff.mpr fun x hx ↦ ?_
  obtain ⟨e, r⟩ := x
  rcases Verdict.mem_before (h.mem hx) with he | he | he | ⟨state, detail, _, he⟩ <;>
    cases he <;> rfl

theorem unguarded_before {request : Request} {seenAt : ℚ} {verdict : Verdict}
    {x : Exchange Eff.Answer} {err : PyExc} (h : x.1 ∈ verdict.before request seenAt)
    (hraised : x.1.raised? x.2 = some err) : x.1.unguarded := by
  obtain ⟨e, r⟩ := x
  rcases Verdict.mem_before h with he | he | he | ⟨state, detail, hstate, he⟩
  · cases he
    cases hraised
  · cases he
    cases hraised
  · cases he
    rfl
  · cases he
    exact decide_eq_true hstate

/-- A call returns after exactly one attempt to emit, to the sender, just when
no unguarded store call raised. -/
theorem returns_and_emits_once_iff {policy : TimeoutPolicy} {router : Router} {request : Request}
    {tr : Trace} {o : Except PyExc Unit}
    (h : Steps (processRequest policy router request) tr (ofOutcome o)) :
    (o = .ok () ∧ ∃ response, emits tr = [(request.from_, response)]) ↔
      ∀ x ∈ tr, x.1.unguarded → x.1.raised? x.2 = none := by
  obtain ⟨verdict, seenAt, pre, fin, o₁, htr, hpre, hfin⟩ :=
    (wp_iff.mp (processRequest_course policy router request) tr o h).form
  have hmem {x : Exchange Eff.Answer} (hx : x ∈ pre ++ fin) : x ∈ tr :=
    mem_of_visible (htr ▸ List.mem_cons_of_mem _ hx)
  rcases hfin with ⟨err, rfl, rfl, rfl⟩ | ⟨rfl, hfin, _⟩
  · obtain ⟨x, hx, hes, hraised⟩ := hpre.exists_raised
    constructor
    · intro hreturns
      cases hreturns.1
    · intro hnone
      rw [hnone x (hmem (List.mem_append_left _ hx)) (unguarded_before hes hraised)] at hraised
      cases hraised
  · have hemits : emits tr = emits fin := by
      rw [emits_visible, htr]
      simp only [emits, List.filterMap_cons, List.filterMap_append]
      rw [show pre.filterMap _ = [] from emits_before hpre]
      rfl
    have hall : (∀ x ∈ tr, x.1.unguarded → x.1.raised? x.2 = none) ↔
        ∀ x ∈ fin, x.1.unguarded → x.1.raised? x.2 = none := by
      constructor
      · exact fun h x hx ↦ h x (hmem (List.mem_append_right _ hx))
      · intro h x hx hguard
        have hvis : x ∈ visible tr := by
          refine mem_visible hx ?_ ?_
          · intro he
            rw [he] at hguard
            cases hguard
          · obtain ⟨e, r⟩ := x
            cases e with
            | underTtl => cases hguard
            | afterTtl => cases hguard
            | _ => rfl
        rw [htr] at hvis
        rcases List.mem_cons.mp hvis with rfl | hvis
        · cases hguard
        · rcases List.mem_append.mp hvis with hvis | hvis
          · exact hpre.not_raised hvis
          · exact h x hvis hguard
    rw [hemits, hall]
    cases hfin with
    | published logged _ =>
        cases o with
        | ok _ => simp [emits, Eff.unguarded, Eff.raised?]
        | error err => simp [emits, Eff.unguarded, Eff.raised?]
    | dropped err _ =>
        cases o with
        | ok _ => simp [emits, Eff.unguarded, Eff.raised?]
        | error err => simp [emits, Eff.unguarded, Eff.raised?]

/-- A call run alone at the time 0 on an empty database. -/
def aloneTrace (fails : Eff → Option PyExc) : Trace :=
  (processRequest {} Table.empty samplePing).exchanges (Eff.respond .plain 0 fails) Db.empty

def aloneOutcome (fails : Eff → Option PyExc) : Except PyExc Unit :=
  ((processRequest {} Table.empty samplePing).eval (Eff.respond .plain 0 fails) Db.empty).1

/-- With no handler registered and nothing failing, the call answers
`unknown_type` and returns. -/
theorem unknown_type_returns :
    Steps (processRequest {} Table.empty samplePing) (aloneTrace fun _ ↦ none)
        (ofOutcome (.ok ())) ∧
      ∃ response, emits (aloneTrace fun _ ↦ none) = [("node-a", response)] := by
  have h : Steps (processRequest {} Table.empty samplePing) (aloneTrace fun _ ↦ none)
      (ofOutcome (aloneOutcome fun _ ↦ none)) := steps_exchanges _ _
  have hall : ((aloneTrace fun _ ↦ none).all fun x ↦
      !x.1.unguarded || (x.1.raised? x.2).isNone) = true := by decide
  have hok : aloneOutcome (fun _ ↦ none) = .ok () := rfl
  rw [hok] at h
  refine ⟨h, ((returns_and_emits_once_iff h).mpr fun x hx hguard ↦ ?_).2⟩
  have := List.all_eq_true.mp hall x hx
  simpa [hguard] using this

def validatedFails : Eff → Option PyExc
  | .store (.recordEvent _ _ .validated _) => some .operationalError
  | _ => none

/-- A fresh request whose `validated` event cannot be stored makes the call raise
without an attempt to emit. -/
theorem validated_failure_raises :
    ¬ ∀ policy router request tr o,
      Steps (processRequest policy router request) tr (ofOutcome o) →
        o = .ok () ∧ ∃ response, emits tr = [(request.from_, response)] := by
  intro h
  have hsteps : Steps (processRequest {} Table.empty samplePing) (aloneTrace validatedFails)
      (ofOutcome (aloneOutcome validatedFails)) := steps_exchanges _ _
  have hraised : aloneOutcome validatedFails = .error .operationalError := rfl
  rw [hraised] at hsteps
  cases (h _ _ _ _ _ hsteps).1

end MeshcoreRpc
