import MeshcoreRpc.Core.Endings
import MeshcoreRpc.Lib.Cells
import MeshcoreRpc.Nodes.Refresh
import MeshcoreRpc.Transport.Requests
import MeshcoreRpc.Transport.Service

/-!
# What the service keeps in memory

Beside its database the process has the count of running handlers
(`PendingTracker`) and the gateway status that the bus has cached.  Both are
shared by all its tasks.
-/

namespace MeshcoreRpc

open Tables Coroutine Coro Interleaving

structure Memory where
  db : Db
  inFlight : ℤ := 0
  gateway : GatewaySnapshot := {}

namespace Eff

/-- `_inc` and `_dec`. -/
def handling : Eff → Option Bool
  | inc => some true
  | dec => some false
  | _ => none

/-- What the cache holds after `_maybe_cache`. -/
def caches : Eff → ℚ → Option GatewaySnapshot
  | cacheGatewaySnapshot state detail since, now => some ⟨state, detail, since, some now⟩
  | _, _ => none

end Eff

/-- What `get_gateway_snapshot` returned, inside a handler or outside. -/
def readsGateway : Exchange Eff.Answer → Option GatewaySnapshot
  | ⟨.getGatewaySnapshot, snap⟩ => some snap
  | ⟨.underTtl _ .getGatewaySnapshot, some snap⟩ => some snap
  | ⟨.afterTtl .getGatewaySnapshot, snap⟩ => some snap
  | _ => none

/-- The database, the counter and the cache of one process. -/
def Memory.world (num : Numerals) (ι : Type) : World Memory ι Eff.Answer ℚ Empty
  | m, ev, m' => Owned num ι m.db ev m'.db ∧ Gauge Eff.handling m.inFlight ev m'.inFlight ∧
      Register Eff.caches readsGateway m.gateway ev m'.gateway

/-! ## Where a handler runs -/

theorem Eff.NodeSide.handling {e : Eff} (h : e.NodeSide) : e.handling = none := by
  cases e with
  | inc => exact h.elim
  | dec => exact h.elim
  | _ => rfl

theorem marks_of_only {tr : Trace} (h : ∀ x ∈ tr, x.1.handling = none) :
    marks Eff.handling tr = [] :=
  List.filterMap_eq_nil_iff.mpr h

/-- What holds of the effects of the nodes' side, of the status cache and of starting tasks holds
of all effects of the loop. -/
theorem consumeLoop_only {num : Numerals} {loads : Loads} {P : Eff → Prop}
    (hnode : ∀ e, e.NodeSide → P e) (hcreate : ∀ payload, P (.createTask payload))
    (hcache : ∀ state detail since, P (.cacheGatewaySnapshot state detail since))
    (msgs : List Message) : (Transport.consumeLoop num loads msgs).Only P := by
  have hcaches (msg : Message) : (Transport.maybeCache loads msg).Only P := by
    unfold Transport.maybeCache
    split
    · exact True.intro
    · split
      · refine .bind (Prog.only_cacheGatewaySnapshot.mpr (hcache ..)) fun _ ↦
          .tryCatch (Prog.only_store.mpr (hnode _ ⟨rfl, rfl⟩)) fun _ ↦ True.intro
      · split <;> exact True.intro
  have hdispatch (msg : Message) : (Transport.dispatch num loads msg).Only P := by
    unfold Transport.dispatch
    split
    · exact Prog.only_createTask.mpr (hcreate _)
    · split
      · exact .tryCatch ((Transport.only_routeEvent num loads).mono hnode) fun _ ↦ True.intro
      · exact True.intro
  induction msgs with
  | nil => exact True.intro
  | cons msg rest ih => exact .bind (hcaches msg) fun _ ↦ .bind (hdispatch msg) fun _ ↦ ih

namespace Performed

/-- Effects in two parts: the first part raises, or the second follows it. -/
theorem of_append {es es' : List Eff} {tr : Trace} {o : Except PyExc Unit}
    (h : Performed (es ++ es') tr o) :
    Performed es tr o ∨
      ∃ tr₁ tr₂, tr = tr₁ ++ tr₂ ∧ Performed es tr₁ (.ok ()) ∧ Performed es' tr₂ o := by
  induction es generalizing tr with
  | nil => exact .inr ⟨[], tr, rfl, .nil, h⟩
  | cons e es ih =>
      cases h with
      | raised hraised => exact .inl (.raised hraised)
      | answered hanswered rest =>
          rcases ih rest with hfirst | ⟨tr₁, tr₂, rfl, hfirst, hrest⟩
          · exact .inl (.answered hanswered hfirst)
          · exact .inr ⟨_ :: tr₁, tr₂, rfl, .answered hanswered hfirst, hrest⟩

theorem unraised {es : List Eff} {tr : Trace} (h : Performed es tr (.ok ()))
    {x : Exchange Eff.Answer} (hx : x ∈ tr) : x.1.raised? x.2 = none := by
  generalize ho : (Except.ok () : Except PyExc Unit) = o at h
  induction h with
  | nil => cases hx
  | raised h => cases ho
  | answered h rest ih =>
      rcases List.mem_cons.mp hx with rfl | hx
      · exact h
      · exact ih hx ho

theorem marks_nil {es : List Eff} {tr : Trace} {o : Except PyExc Unit} (h : Performed es tr o)
    (hes : ∀ e ∈ es, e.handling = none) : marks Eff.handling tr = [] :=
  marks_of_only fun _ hx ↦ hes _ (h.mem hx)

end Performed

section Pipeline

variable {policy : TimeoutPolicy} {router : Router} {request : Request} {tr : Trace} {y : Prog Unit}

/-- What comes before the handler. -/
def beforeHandler (request : Request) (seenAt : ℚ) : List Eff :=
  [Verdict.eventEff request (.validated, none), Verdict.seenEff request seenAt,
    Verdict.eventEff request (.handlerStarted, none)]

theorem handling_beforeHandler {seenAt : ℚ} :
    ∀ e ∈ beforeHandler request seenAt, e.handling = none := by
  intro e he
  simp only [beforeHandler, List.mem_cons, List.not_mem_nil, or_false] at he
  rcases he with rfl | rfl | rfl <;> rfl

/-- A verdict asks for no handler, or for one after `handler_started`. -/
theorem Verdict.before_split (request : Request) (seenAt : ℚ) (verdict : Verdict) :
    (∀ e ∈ verdict.before request seenAt, e.handling = none) ∨
      ∃ after, verdict.before request seenAt =
          beforeHandler request seenAt ++ ([.inc, .dec] ++ after) ∧
        ∀ e ∈ after, e.handling = none := by
  cases verdict with
  | lost err =>
      left
      simp [before]
  | duplicate =>
      left
      simp [before, eventEff, Eff.handling]
  | unknownType =>
      left
      simp [before, eventEff, seenEff, Eff.handling]
  | handled outcome =>
      right
      by_cases ho : outcome = .error .timeoutError
      · subst ho
        refine ⟨[eventEff request (.timeout, none)], rfl, ?_⟩
        simp [eventEff, Eff.handling]
      · exact ⟨[], before_handled request seenAt ho, by simp⟩

theorem performed_around {after : List Eff} {tr : Trace} {o : Except PyExc Unit}
    (h : Performed ([.inc, .dec] ++ after) tr o) :
    ∃ tr', tr = ⟨.inc, ()⟩ :: ⟨.dec, ()⟩ :: tr' ∧ Performed after tr' o := by
  cases h with
  | raised hraised => cases hraised
  | answered _ rest =>
      cases rest with
      | raised hraised => cases hraised
      | answered _ rest => exact ⟨_, rfl, rest⟩

/-- Before the finalizer a call has run no handler, or one, and has logged that it started. -/
theorem performed_handler {seenAt : ℚ} {verdict : Verdict} {pre : Trace} {o : Except PyExc Unit}
    (h : Performed (verdict.before request seenAt) pre o) :
    marks Eff.handling pre = [] ∨ ∃ start after,
      pre = start ++ ⟨.inc, ()⟩ :: ⟨.dec, ()⟩ :: after ∧ marks Eff.handling start = [] ∧
        marks Eff.handling after = [] ∧
        ⟨Verdict.eventEff request (.handlerStarted, none), Except.ok ()⟩ ∈ start := by
  rcases Verdict.before_split request seenAt verdict with hnone | ⟨after, hbefore, hafter⟩
  · exact .inl (h.marks_nil hnone)
  · rw [hbefore] at h
    rcases h.of_append with hfirst | ⟨start, rest, rfl, hstart, hrest⟩
    · exact .inl (hfirst.marks_nil handling_beforeHandler)
    · obtain ⟨tr', rfl, hlast⟩ := performed_around hrest
      refine .inr ⟨start, tr', rfl, hstart.marks_nil handling_beforeHandler,
        hlast.marks_nil hafter, ?_⟩
      have hall := hstart.map_fst
      have hmem : Verdict.eventEff request (.handlerStarted, none) ∈ start.map Sigma.fst := by
        rw [hall]
        simp [beforeHandler]
      obtain ⟨⟨e, r⟩, hx, he⟩ := List.mem_map.mp hmem
      obtain rfl : e = Verdict.eventEff request (.handlerStarted, none) := he
      have hquiet := hstart.unraised hx
      cases r with
      | ok u => exact hx
      | error err => cases hquiet

theorem Finalized.marks_nil {ttlS : ℤ} {verdict : Verdict} {fin : Trace} {o : Except PyExc Unit}
    (h : Finalized request ttlS verdict fin o) : marks Eff.handling fin = [] := by
  cases h with
  | published => rfl
  | dropped => rfl

theorem marks_visible (tr : Trace) : marks Eff.handling tr = marks Eff.handling (visible tr) :=
  filterMap_visible (fun _ ↦ rfl) (fun _ _ _ ↦ rfl) (fun _ _ ↦ rfl) tr

/-- The trace of a call around its handler: none has run, or one from the `inc` to the `dec`. -/
theorem marks_of_call (h : Steps (processRequest policy router request) tr y) :
    ∃ rest, marks Eff.handling (visible tr ++ rest) = [] ∨ ∃ start after,
      visible tr ++ rest = start ++ ⟨.inc, ()⟩ :: ⟨.dec, ()⟩ :: after ∧
        marks Eff.handling start = [] ∧ marks Eff.handling after = [] ∧
        emissions start = [] ∧ (∀ x ∈ start, ¬ x.1.isCompletion) ∧
        ⟨Verdict.eventEff request (.handlerStarted, none), Except.ok ()⟩ ∈ start := by
  obtain ⟨verdict, seenAt, pre, fin, o, rest, htr, ⟨o₁, hpre⟩, hfin⟩ := visible_of_steps h
  have hfinal : marks Eff.handling fin = [] := by
    rcases hfin with rfl | hfin
    · rfl
    · exact hfin.marks_nil
  refine ⟨rest, ?_⟩
  rcases performed_handler hpre with hnone | ⟨start, after, rfl, hstart, hafter, hlogged⟩
  · left
    rw [htr, ← List.singleton_append, marks_append, marks_append, hnone, hfinal]
    rfl
  · right
    have hall : visible tr ++ rest =
        (⟨.store (.recordReceived request (policy.resolve request.type request.ttl)),
          verdict.received⟩ :: start) ++ ⟨.inc, ()⟩ :: ⟨.dec, ()⟩ :: (after ++ fin) := by
      simp [htr]
    refine ⟨_, _, hall, hstart, ?_, ?_, fun x hx ↦ ?_, List.mem_cons_of_mem _ hlogged⟩
    · rw [marks_append, hafter, hfinal]
      rfl
    · change emissions start = []
      have hnone := emissions_before hpre
      rw [Transport.emissions_append] at hnone
      exact (List.append_eq_nil_iff.mp hnone).1
    · rcases List.mem_cons.mp hx with rfl | hx
      · simp [Eff.isCompletion]
      · have hmem : x ∈ start ++ ⟨.inc, ()⟩ :: ⟨.dec, ()⟩ :: after := List.mem_append_left _ hx
        rcases Verdict.mem_before (hpre.mem hmem) with he | he | he | ⟨state, detail, _, he⟩ <;>
          simp [he, Eff.isCompletion, Verdict.seenEff, Verdict.eventEff]

theorem brackets_processRequest (policy : TimeoutPolicy) (router : Router) (request : Request) :
    Brackets Eff.handling (processRequest policy router request) := by
  intro tr y h
  obtain ⟨rest, hmarks⟩ := marks_of_call h
  rw [marks_visible]
  rcases hmarks with hnone | ⟨start, after, htr, hstart, hafter, -⟩
  · rw [marks_append] at hnone
    rw [(List.append_eq_nil_iff.mp hnone).1]
    exact List.nil_prefix
  · have hall : marks Eff.handling (visible tr ++ rest) = [true, false] := by
      rw [htr, marks_append, hstart]
      change true :: false :: marks Eff.handling after = _
      rw [hafter]
    rw [marks_append] at hall
    exact ⟨_, hall⟩

theorem ends_outside {o : Except PyExc Unit}
    (h : Steps (processRequest policy router request) tr (ofOutcome o)) :
    marks Eff.handling tr ≠ [true] := by
  obtain ⟨verdict, seenAt, pre, fin, o₁, htr, hpre, hfin⟩ :=
    (wp_iff.mp (processRequest_course policy router request) _ _ h).form
  have hfinal : marks Eff.handling fin = [] := by
    rcases hfin with ⟨_, _, _, rfl⟩ | ⟨_, hfin, _⟩
    · rfl
    · exact hfin.marks_nil
  rw [marks_visible, htr]
  change marks Eff.handling (pre ++ fin) ≠ [true]
  rw [marks_append, hfinal, List.append_nil]
  rcases performed_handler hpre with hnone | ⟨start, after, rfl, hstart, hafter, -⟩
  · rw [hnone]
    simp
  · rw [marks_append, hstart]
    change true :: false :: marks Eff.handling after ≠ [true]
    simp

end Pipeline

/-! ## The counter -/

/-- A handler of the task has been started and has not ended. -/
def Handling {ι : Type} [DecidableEq ι] (tr : List (Event ι Eff.Answer ℚ Empty)) (i : ι) : Prop :=
  ⟨.inc, ()⟩ ∈ exchangesOf i tr ∧ ⟨.dec, ()⟩ ∉ exchangesOf i tr

namespace Service

variable {ι : Type} {service : Service ι} {i : ι}

/-- Every task but a request runs no handler under the tracker. -/
theorem pool_unmarked (hjob : ∀ request, service.job i ≠ .request request) :
    (service.pool i).Only fun e ↦ e.handling = none := by
  unfold pool
  cases hcase : service.job i with
  | consume msgs =>
      exact .bind (consumeLoop_only (fun _ he ↦ he.handling) (fun _ ↦ rfl) (fun _ _ _ ↦ rfl) msgs)
        fun _ ↦ True.intro
  | request request => exact absurd hcase (hjob request)
  | sweep ticks => exact .bind (only_sweeper _ ticks rfl fun _ ↦ rfl) fun _ ↦ True.intro
  | beat beats => exact .bind (only_heartbeat beats rfl fun _ _ _ ↦ rfl) fun _ ↦ True.intro
  | ask request =>
      dsimp only
      cases hrouter : service.router.resolve request.type with
      | none => exact True.intro
      | some handler =>
          refine .bind ?_ fun _ ↦ True.intro
          exact (Handlers.defaultRouter_only _ _ hrouter request).mono fun e he ↦ he.handling

theorem pool_request {request : Request} (hjob : service.job i = .request request) :
    service.pool i = processRequest service.policy service.router request >>= fun _ ↦
      pure none := by
  simp only [pool, hjob]

theorem pool_brackets (service : Service ι) (i : ι) : Brackets Eff.handling (service.pool i) := by
  intro tr y h
  by_cases hjob : ∃ request, service.job i = .request request
  · obtain ⟨request, hjob⟩ := hjob
    rw [pool_request hjob] at h
    obtain ⟨z, hz, -⟩ := h.of_bind_pure
    exact brackets_processRequest _ _ _ tr z hz
  · have honly := pool_unmarked fun request hrequest ↦ hjob ⟨request, hrequest⟩
    rw [marks_of_only (honly.steps h).1]
    exact List.nil_prefix

variable [DecidableEq ι] {m₀ m : Memory} {tr : List (Event ι Eff.Answer ℚ Empty)}
  {p : ι → Prog (Option Response)}

theorem mem_marks {tr : Trace} {e : Eff} {r : e.Answer} {b : Bool} (he : e.handling = some b)
    (h : ⟨e, r⟩ ∈ tr) : b ∈ marks Eff.handling tr :=
  List.mem_filterMap.mpr ⟨_, h, he⟩

theorem inside_iff (h : Run (Memory.world service.num ι) service.pool m₀ tr p m) :
    i ∈ insiders Eff.handling tr ↔ Handling tr i := by
  have hprefix := pool_brackets service i _ _ (h.steps i)
  have hback {b : Bool} (hb : b ∈ marks Eff.handling (exchangesOf i tr)) :
      ∃ x ∈ exchangesOf i tr, x.1.handling = some b := List.mem_filterMap.mp hb
  have hinc : ⟨.inc, ()⟩ ∈ exchangesOf i tr ↔ true ∈ marks Eff.handling (exchangesOf i tr) := by
    refine ⟨mem_marks rfl, fun hb ↦ ?_⟩
    obtain ⟨⟨e, r⟩, hx, he⟩ := hback hb
    cases e with
    | inc => exact hx
    | _ => cases he
  have hdec : ⟨.dec, ()⟩ ∈ exchangesOf i tr ↔ false ∈ marks Eff.handling (exchangesOf i tr) := by
    refine ⟨mem_marks rfl, fun hb ↦ ?_⟩
    obtain ⟨⟨e, r⟩, hx, he⟩ := hback hb
    cases e with
    | dec => exact hx
    | _ => cases he
  rw [mem_insiders, Handling, hinc, hdec]
  generalize marks Eff.handling (exchangesOf i tr) = l at hprefix
  rcases List.prefix_cons_iff.mp hprefix with rfl | ⟨l, rfl, hl⟩
  · simp
  · rcases List.prefix_cons_iff.mp hl with rfl | ⟨l, rfl, hl⟩
    · simp
    · simp

theorem gauge_of_run (h : Run (Memory.world service.num ι) service.pool m₀ tr p m) :
    Run (Gauge Eff.handling) service.pool m₀.inFlight tr p m.inFlight :=
  h.map Memory.inFlight fun _ _ _ hstep ↦ hstep.2.1

/-- A call whose handler runs has logged its start, and has neither answered nor completed. -/
theorem handling_open (h : Run (Memory.world service.num ι) service.pool m₀ tr p m)
    (hi : Handling tr i) : ∃ request, service.job i = .request request ∧
      ⟨Verdict.eventEff request (.handlerStarted, none), Except.ok ()⟩ ∈ exchangesOf i tr ∧
      emissions (exchangesOf i tr) = [] ∧ ∀ x ∈ exchangesOf i tr, ¬ x.1.isCompletion := by
  obtain ⟨hinc, hdec⟩ := hi
  have hsteps := h.steps i
  by_cases hjob : ∃ request, service.job i = .request request
  · obtain ⟨request, hjob⟩ := hjob
    refine ⟨request, hjob, ?_⟩
    rw [pool_request hjob] at hsteps
    obtain ⟨z, hz, -⟩ := hsteps.of_bind_pure
    generalize exchangesOf i tr = ex at hinc hdec hz
    have hinc := mem_visible hinc (by simp) rfl
    obtain ⟨rest, hnone | ⟨start, after, htr, hstart, hafter, hemit, hopen, hlogged⟩⟩ :=
      marks_of_call hz
    · rw [marks_append] at hnone
      have hmark := mem_marks rfl hinc
      rw [(List.append_eq_nil_iff.mp hnone).1] at hmark
      cases hmark
    · have hvisible : visible ex = start ++ [⟨.inc, ()⟩] := by
        have hle : start ++ [⟨.inc, ()⟩, ⟨.dec, ()⟩] <+: visible ex ++ rest :=
          ⟨after, by simp [htr]⟩
        rcases List.prefix_or_prefix_of_prefix hle (List.prefix_append ..) with hlong | hshort
        · exact absurd (mem_of_visible (hlong.subset (by simp))) hdec
        · rw [List.append_cons] at hshort
          rcases List.prefix_concat_iff.mp hshort with heq | hshort
          · exact absurd (mem_of_visible (heq ▸ List.mem_append_right _ (by simp))) hdec
          · rcases List.prefix_concat_iff.mp hshort with heq | hshort
            · exact heq
            · have hmark := mem_marks rfl (hshort.subset hinc)
              rw [hstart] at hmark
              cases hmark
      refine ⟨mem_of_visible (hvisible ▸ List.mem_append_left _ hlogged), ?_, fun x hx hend ↦ ?_⟩
      · have hall : emissions ex = emissions (visible ex) :=
          filterMap_visible (fun _ ↦ rfl) (fun _ _ _ ↦ rfl) (fun _ _ ↦ rfl) ex
        rw [hall, hvisible, Transport.emissions_append, hemit]
        rfl
      · have hvis : x ∈ visible ex := by
          refine mem_visible hx (fun he ↦ ?_) ?_
          · rw [he] at hend
            cases hend
          · obtain ⟨e, r⟩ := x
            cases e with
            | underTtl => cases hend
            | afterTtl => cases hend
            | _ => rfl
        rw [hvisible] at hvis
        rcases List.mem_append.mp hvis with hx | hx
        · exact hopen x hx hend
        · cases List.mem_singleton.mp hx
          cases hend
  · have honly := pool_unmarked fun request hrequest ↦ hjob ⟨request, hrequest⟩
    cases (honly.steps hsteps).1 _ hinc

/-- However the tasks interleave, the counter is the number of handlers that run: each of them has
been logged as started, has sent no answer and completed nothing; none is left over once all tasks
have ended. -/
theorem inFlight_counts (h₀ : m₀.inFlight = 0)
    (h : Run (Memory.world service.num ι) service.pool m₀ tr p m) :
    m.inFlight = {i | Handling tr i}.ncard ∧
      (∀ i, Handling tr i → ∃ request, service.job i = .request request ∧
        ⟨Verdict.eventEff request (.handlerStarted, none), Except.ok ()⟩ ∈ exchangesOf i tr ∧
        emissions (exchangesOf i tr) = [] ∧ ∀ x ∈ exchangesOf i tr, ¬ x.1.isCompletion) ∧
      ((∀ i, ∃ o, p i = ofOutcome o) → m.inFlight = 0) := by
  have hgauge := gauge_of_run h
  rw [h₀] at hgauge
  have hcount := gauge_counts (pool_brackets service) hgauge
  have hset : insiders Eff.handling tr = {i | Handling tr i} := Set.ext fun i ↦ inside_iff h
  refine ⟨by rw [hcount, hset], fun i hi ↦ handling_open h hi, fun hdone ↦ ?_⟩
  have hempty : insiders Eff.handling tr = ∅ := by
    refine Set.eq_empty_iff_forall_notMem.mpr fun i hi ↦ ?_
    obtain ⟨request, hjob, -⟩ := handling_open h ((inside_iff h).mp hi)
    obtain ⟨o, ho⟩ := hdone i
    have hsteps := h.steps i
    rw [pool_request hjob, ho] at hsteps
    obtain ⟨z, hz, hend⟩ := hsteps.of_bind_pure
    obtain ⟨o', rfl⟩ := hend o rfl
    exact ends_outside hz hi
  rw [hcount, hempty, Set.ncard_empty]
  rfl

end Service

/-! ## A process that answers -/

/-- Answer an effect as the process has it. -/
def Memory.respond (num : Numerals) (now : ℚ) : (e : Eff) → Memory → e.Answer × Memory
  | .getGatewaySnapshot, m => (m.gateway, m)
  | .underTtl _ .getGatewaySnapshot, m => (some m.gateway, m)
  | .afterTtl .getGatewaySnapshot, m => (m.gateway, m)
  | e, m =>
    ((e.respond num now (fun _ ↦ none) m.db).1,
      { db := (e.respond num now (fun _ ↦ none) m.db).2
        inFlight := tally m.inFlight e.handling
        gateway := (e.caches now).getD m.gateway })

theorem Memory.respond_world {num : Numerals} {ι : Type} (i : ι) (now : ℚ) (e : Eff) (m : Memory) :
    Memory.world num ι m (.task i now ⟨e, (Memory.respond num now e m).1⟩)
      (Memory.respond num now e m).2 := by
  have hreads {e : Eff} {r : e.Answer} (hnone : readsGateway ⟨e, r⟩ = none) :
      ∀ u, readsGateway ⟨e, r⟩ = some u → u = m.gateway := by
    intro u hu
    rw [hnone] at hu
    cases hu
  have hdb := e.respond_transition num now (fun _ ↦ none) m.db
  cases e with
  | getGatewaySnapshot => exact ⟨rfl, rfl, fun u hu ↦ (Option.some.inj hu).symm, rfl⟩
  | underTtl ttlS e =>
      cases e with
      | getGatewaySnapshot => exact ⟨rfl, rfl, fun u hu ↦ (Option.some.inj hu).symm, rfl⟩
      | _ => exact ⟨hdb, rfl, hreads rfl, rfl⟩
  | afterTtl e =>
      cases e with
      | getGatewaySnapshot => exact ⟨rfl, rfl, fun u hu ↦ (Option.some.inj hu).symm, rfl⟩
      | _ => exact ⟨hdb, rfl, hreads rfl, rfl⟩
  | _ => exact ⟨hdb, rfl, hreads rfl, rfl⟩

theorem length_gatewayStatus : FieldLength "gateway.status" := by decide

/-- One status message, and a node that asks for it. -/
def reporting : Service Bool where
  num := .plain
  geo := Transport.unusedGeo
  loads := Transport.sampleLoads
  policy := {}
  days := 1
  job
    | true => .consume [⟨Topics.gatewayStatus, [0x7b, 0x7d]⟩]
    | false => .request (.simple "r1" "gateway.status" "node-a" length_r1 length_gatewayStatus
        length_nodeA)

/-- The loop takes its message, then the request takes `n` steps. -/
def reportingRun (n : ℕ) :
    List (Event Bool Eff.Answer ℚ Empty) × (Bool → Prog (Option Response)) × Memory :=
  play (fun _ now e m ↦ Memory.respond .plain now e m)
    ([(true, 1), (true, 1)] ++ List.replicate n (false, 2)) (reporting.pool, { db := Db.empty })

theorem reportingRun_run (n : ℕ) : Run (Memory.world reporting.num Bool) reporting.pool
    { db := Db.empty } (reportingRun n).1 (reportingRun n).2.1 (reportingRun n).2.2 :=
  run_of_played rfl fun i now e m ↦ Memory.respond_world i now e m

/-- After six steps the request is being handled. -/
theorem status_request_counted :
    (reportingRun 6).2.2.inFlight = 1 ∧
      (reportingRun 6).2.2.inFlight = {i | Handling (reportingRun 6).1 i}.ncard :=
  ⟨rfl, (Service.inFlight_counts rfl (reportingRun_run 6)).1⟩

/-! ## The cached status -/

/-- The part of a snapshot that comes from the message. -/
def GatewaySnapshot.status (snap : GatewaySnapshot) : PyVal × PyVal × PyVal :=
  (snap.state, snap.detail, snap.since)

/-- The body shows the snapshot, aged at the time `asked`. -/
structure ShowsSnapshot (snap : GatewaySnapshot) (asked : ℚ) (body : List (String × PyVal)) :
    Prop where
  state : getKey body "state" = snap.state.or (.str "unknown")
  detail : getKey body "detail" = snap.detail
  since : getKey body "since" = snap.since
  never : snap.snappedAt = none → getKey body "snap_age_s" = .none
  age : ∀ t, snap.snappedAt = some t →
    getKey body "snap_age_s" = .int (max 0 (truncate (asked - t)))

/-- A prefix of what a filter keeps is what it keeps of a prefix. -/
theorem exists_prefix_filterMap {α β : Type} {f : α → Option β} {l : List β} {xs : List α}
    (h : l <+: xs.filterMap f) : ∃ ys, ys <+: xs ∧ l = ys.filterMap f := by
  induction xs generalizing l with
  | nil =>
      obtain rfl := List.prefix_nil.mp h
      exact ⟨[], List.prefix_rfl, rfl⟩
  | cons x xs ih =>
      cases hx : f x with
      | none =>
          rw [List.filterMap_cons_none hx] at h
          obtain ⟨ys, hys, rfl⟩ := ih h
          exact ⟨x :: ys, List.cons_prefix_cons.mpr ⟨rfl, hys⟩, (List.filterMap_cons_none hx).symm⟩
      | some b =>
          rw [List.filterMap_cons_some hx] at h
          rcases List.prefix_cons_iff.mp h with rfl | ⟨l, rfl, hl⟩
          · exact ⟨[], List.nil_prefix, rfl⟩
          · obtain ⟨ys, hys, rfl⟩ := ih hl
            exact ⟨x :: ys, List.cons_prefix_cons.mpr ⟨rfl, hys⟩,
              (List.filterMap_cons_some hx).symm⟩

/-- The loop caches the statuses of a first part of its messages. -/
theorem cached_consumeLoop (num : Numerals) (loads : Loads) (msgs : List Message) :
    (Transport.consumeLoop num loads msgs).wp fun tr _ ↦
      Transport.cached tr <+: msgs.filterMap (Transport.statusOf loads) := by
  induction msgs with
  | nil => exact List.nil_prefix
  | cons msg rest ih =>
      simp only [Transport.consumeLoop, wp_bind]
      refine wp_mono (Transport.maybeCache_spec loads msg) ?_
      rintro tr o ⟨-, hcached, -⟩
      have hcons : (msg :: rest).filterMap (Transport.statusOf loads) =
          (Transport.statusOf loads msg).toList ++ rest.filterMap (Transport.statusOf loads) := by
        cases hs : Transport.statusOf loads msg <;> simp [hs]
      cases o with
      | error err =>
          rw [hcons, ← hcached]
          exact List.prefix_append ..
      | ok _ =>
          refine wp_mono (Transport.dispatch_spec num loads msg) ?_
          rintro tr' o' ⟨rfl, -, hcached'⟩
          refine wp_mono ih fun tr'' o'' hrest ↦ ?_
          rw [Transport.cached_append, Transport.cached_append, hcached, hcached', List.nil_append,
            hcons]
          exact (List.prefix_append_right_inj _).mpr hrest

theorem cached_of_steps {num : Numerals} {loads : Loads} {msgs : List Message} {tr : Trace}
    {y : Prog Unit} (h : Steps (Transport.consumeLoop num loads msgs) tr y) :
    ∃ seen, seen <+: msgs ∧ Transport.cached tr = seen.filterMap (Transport.statusOf loads) := by
  obtain ⟨rest, o, hfinish⟩ := h.extend Eff.answer_nonempty
  have hall := wp_iff.mp (cached_consumeLoop num loads msgs) _ o hfinish
  rw [Transport.cached_append] at hall
  exact exists_prefix_filterMap ((List.prefix_append ..).trans hall)

/-- An answer shows one snapshot, aged by a later reading of the clock. -/
theorem gatewayStatus_shows (request : Request) :
    (Handlers.gatewayStatus request).wp fun tr o ↦ ∀ response, o = .ok response →
      ∃ snap asked body, ⟨.getGatewaySnapshot, snap⟩ ∈ tr ∧ response.body = some body ∧
        ShowsSnapshot snap asked body ∧ (snap.snappedAt ≠ none → ⟨.time, asked⟩ ∈ tr) := by
  simp only [Handlers.gatewayStatus, Handlers.counts, wp_bind, Prog.getGatewaySnapshot, Prog.store,
    wp_await, wp_ret, wp_ofOutcome, wp_pure]
  intro snap byState
  cases byState with
  | error err => simp
  | ok byState =>
      simp only
      intro pending
      cases pending with
      | error err => simp
      | ok pending =>
          simp only
          cases hsnap : snap.snappedAt with
          | none =>
              rintro response ⟨⟩
              refine ⟨snap, 0, _, by simp, rfl, ⟨rfl, rfl, rfl, fun _ ↦ rfl, ?_⟩, ?_⟩
              · rw [hsnap]
                rintro t ⟨⟩
              · rw [hsnap]
                exact fun h ↦ absurd rfl h
          | some t =>
              simp only [Handlers.snapAge, wp_bind, Prog.wp_time, wp_ofOutcome]
              intro asked
              rintro response ⟨⟩
              refine ⟨snap, asked, _, by simp, rfl, ⟨rfl, rfl, rfl, ?_, ?_⟩, fun _ ↦ by simp⟩
              · rw [hsnap]
                rintro ⟨⟩
              · rw [hsnap]
                rintro t' ⟨⟩
                rfl

theorem resolve_gatewayStatus {num : Numerals} {geo : Geo} {handler : Handler}
    (h : (Handlers.defaultRouter num geo).resolve "gateway.status" = some handler) :
    handler.handle = Handlers.gatewayStatus := by
  obtain ⟨hmem, hkey⟩ : handler ∈ Handlers.defaultHandlers num geo ∧
      handler.type = "gateway.status" := Table.find?_eq_some.mp h
  simp only [Handlers.defaultHandlers, List.mem_cons, List.not_mem_nil, or_false] at hmem
  rcases hmem with rfl | rfl | rfl | rfl | rfl | rfl | rfl | rfl | rfl | rfl
  all_goals first | rfl | exact absurd hkey (by simp [Handlers.nodeSide])

/-- Where handlers let a cancellation through, an ok answer of the pipeline is what the handler
returned, all of whose effects came in time. -/
theorem answered_by_handler {policy : TimeoutPolicy} {router : Router} {request : Request}
    {tr : Trace} {o : Except PyExc Unit}
    (hunwind : ∀ handler, router.resolve request.type = some handler →
      handler.unwind = fun _ ↦ letThrough)
    (h : Steps (processRequest policy router request) tr (ofOutcome o)) {nodeId : String}
    {response : Response} {r : Except PyExc Unit} (hemit : (nodeId, response, r) ∈ emissions tr)
    (hok : response.status = .ok) :
    ∃ handler done, router.resolve request.type = some handler ∧
      Steps (handler.handle request) done (ofOutcome (.ok response)) ∧
      ∀ x ∈ done, Ending.underTtl (policy.resolve request.type request.ttl) x ∈ tr := by
  have hcourse := wp_iff.mp (processRequest_course policy router request) tr o h
  rcases Transport.emissions_of_course hcourse with ⟨hnone, -⟩ | ⟨verdict, r', hdecided, hone⟩
  · rw [hnone] at hemit
    cases hemit
  · rw [hone] at hemit
    cases List.mem_singleton.mp hemit
    cases verdict with
    | lost err => cases hok
    | duplicate => cases hok
    | unknownType => cases hok
    | handled outcome =>
        cases outcome with
        | error err => cases err <;> cases hok
        | ok response =>
            obtain ⟨handler, inner, hrouter, hinfix, hsteps⟩ := hdecided
            obtain ⟨ending, hending, houtcome⟩ :=
              wp_iff.mp (Ending.waitFor_spec ..) inner _ hsteps
            cases hending with
            | never => cases houtcome
            | elapsed _ _ _ _ hunwound =>
                rw [hunwind handler hrouter] at hunwound
                obtain ⟨-, rfl⟩ := Ending.unwound_letThrough hunwound
                cases houtcome
            | @finished _ done outcome hdone =>
                obtain rfl : outcome = .ok response := houtcome
                refine ⟨handler, done, hrouter, hdone, fun x hx ↦ ?_⟩
                exact hinfix.subset (List.mem_map_of_mem hx)

/-- The effects that leave the cached status alone. -/
def Eff.KeepsStatus (e : Eff) : Prop := ∀ now, e.caches now = none

theorem Eff.NodeSide.keepsStatus {e : Eff} (h : e.NodeSide) : e.KeepsStatus := by
  intro now
  cases e with
  | cacheGatewaySnapshot => exact h.elim
  | _ => rfl

namespace Service

variable {ι : Type} {service : Service ι}

/-- Only the consume loop writes the cache. -/
theorem pool_keepsStatus {i : ι} (hjob : ∀ msgs, service.job i ≠ .consume msgs) :
    (service.pool i).Only Eff.KeepsStatus := by
  unfold pool
  cases hcase : service.job i with
  | consume msgs => exact absurd hcase (hjob msgs)
  | request request =>
      refine .bind (processRequest_only_of (fun e he houter now ↦ ?_) fun handler hrouter ↦ ?_)
        fun _ ↦ True.intro
      · cases he <;> rfl
      · exact Handlers.defaultRouter_timed _ _ hrouter request fun e _ now ↦ rfl
  | sweep ticks =>
      exact .bind (only_sweeper _ ticks (fun _ ↦ rfl) fun _ _ ↦ rfl) fun _ ↦ True.intro
  | beat beats =>
      exact .bind (only_heartbeat beats (fun _ ↦ rfl) fun _ _ _ _ ↦ rfl) fun _ ↦ True.intro
  | ask request =>
      dsimp only
      cases hrouter : service.router.resolve request.type with
      | none => exact True.intro
      | some handler =>
          refine .bind ?_ fun _ ↦ True.intro
          exact (Handlers.defaultRouter_only _ _ hrouter request).mono fun e he ↦ he.keepsStatus

variable [DecidableEq ι] {m₀ m : Memory} {tr : List (Event ι Eff.Answer ℚ Empty)}
  {p : ι → Prog (Option Response)}

/-- Where only one task writes the cache, it has written what that task cached. -/
theorem written_of_consumer {c : ι} (hquiet : ∀ i now x, .task i now x ∈ tr → i ≠ c →
    x.1.KeepsStatus) :
    (written Eff.caches tr).map GatewaySnapshot.status = Transport.cached (exchangesOf c tr) := by
  induction tr using List.reverseRecOn with
  | nil => rfl
  | append_singleton tr ev ih =>
      have hpast := ih fun i now x hmem ↦ hquiet i now x (List.mem_append_left _ hmem)
      rw [written_append, List.map_append, hpast, exchangesOf_append, Transport.cached_append]
      congr 1
      cases ev with
      | env now a => exact a.elim
      | task i now x =>
          by_cases hi : i = c
          · subst hi
            rw [exchangesOf_task_self]
            obtain ⟨e, r⟩ := x
            cases e <;> rfl
          · rw [exchangesOf_task_ne hi]
            have hnone := hquiet i now x (by simp) hi now
            simp [written, hnone, Transport.cached]

/-- The cache holds the statuses of a first part of the messages consumed. -/
theorem written_of_run (h : Run (Memory.world service.num ι) service.pool m₀ tr p m) {c : ι}
    {msgs : List Message} (hc : service.job c = .consume msgs)
    (hone : ∀ i msgs', service.job i = .consume msgs' → i = c) :
    ∃ seen, seen <+: msgs ∧ (written Eff.caches tr).map GatewaySnapshot.status =
      seen.filterMap (Transport.statusOf service.loads) := by
  have hsteps := h.steps c
  have hpool : service.pool c =
      Transport.consumeLoop service.num service.loads msgs >>= fun _ ↦ pure none := by
    simp only [pool, hc]
  rw [hpool] at hsteps
  obtain ⟨z, hz, -⟩ := hsteps.of_bind_pure
  obtain ⟨seen, hseen, hcached⟩ := cached_of_steps hz
  refine ⟨seen, hseen, ?_⟩
  rw [← hcached]
  refine written_of_consumer fun i now x hmem hi ↦ ?_
  have honly := pool_keepsStatus (i := i) fun msgs' hjob ↦ hi (hone i msgs' hjob)
  exact (honly.steps (h.steps i)).1 x (mem_exchangesOf.mpr ⟨now, hmem⟩)

/-- The answer of the task `i` shows the last status that had been cached when it looked, which is
that of one of the messages consumed by then. -/
def ShowsCurrent (service : Service ι) (msgs : List Message)
    (tr : List (Event ι Eff.Answer ℚ Empty)) (i : ι) (response : Response) : Prop :=
  ∃ past now x rest snap seen asked body, tr = past ++ .task i now x :: rest ∧
    readsGateway x = some snap ∧ snap = (written Eff.caches past).getLast?.getD {} ∧
    seen <+: msgs ∧ (written Eff.caches past).map GatewaySnapshot.status =
      seen.filterMap (Transport.statusOf service.loads) ∧
    response.body = some body ∧ ShowsSnapshot snap asked body ∧
    (snap.snappedAt ≠ none → ∃ y ∈ exchangesOf i tr, y.1.clock? y.2 = some asked)

/-- Whatever happens beside it, an ok answer to `gateway.status` shows one message as a whole: the
last one cached when the handler looked. -/
theorem gatewayStatus_current (h₀ : m₀.gateway = {})
    (h : Run (Memory.world service.num ι) service.pool m₀ tr p m) {c : ι} {msgs : List Message}
    (hc : service.job c = .consume msgs)
    (hone : ∀ i msgs', service.job i = .consume msgs' → i = c) {i : ι} {request : Request}
    (hi : service.job i = .request request) (htype : request.type = "gateway.status")
    {o : Except PyExc (Option Response)} (hdone : p i = ofOutcome o) {nodeId : String}
    {response : Response} {r : Except PyExc Unit}
    (hemit : (nodeId, response, r) ∈ emissions (exchangesOf i tr)) (hok : response.status = .ok) :
    service.ShowsCurrent msgs tr i response := by
  have hsteps := h.steps i
  rw [pool_request hi, hdone] at hsteps
  obtain ⟨z, hz, hend⟩ := hsteps.of_bind_pure
  obtain ⟨o', rfl⟩ := hend o rfl
  obtain ⟨handler, done, hrouter, hhandler, hwithin⟩ := answered_by_handler
    (fun _ hrouter ↦ Handlers.defaultRouter_unwind _ _ hrouter) hz hemit hok
  rw [htype] at hrouter
  rw [resolve_gatewayStatus hrouter] at hhandler
  obtain ⟨snap, asked, body, hread, hbody, hshows, hasked⟩ :=
    wp_iff.mp (gatewayStatus_shows request) done _ hhandler response rfl
  obtain ⟨now, hevent⟩ := mem_exchangesOf.mp (hwithin _ hread)
  obtain ⟨past, rest, rfl⟩ := List.append_of_mem hevent
  have hregister : Evolves (Register Eff.caches readsGateway) m₀.gateway
      (past ++ .task i now (Ending.underTtl _ ⟨.getGatewaySnapshot, snap⟩) :: rest) m.gateway :=
    (h.map Memory.gateway fun _ _ _ hstep ↦ hstep.2.2).evolves
  obtain ⟨p', m', hpast⟩ := h.left
  obtain ⟨seen, hseen, hwritten⟩ := written_of_run hpast hc hone
  refine ⟨past, now, _, rest, snap, seen, asked, body, rfl, rfl, ?_, hseen, hwritten, hbody,
    hshows, fun hsome ↦ ⟨_, hwithin _ (hasked hsome), rfl⟩⟩
  rw [← h₀]
  exact register_reads hregister rfl

end Service

/-- The status `{}`, cached before, is what the node is told. -/
theorem status_request_answered : ∃ response r,
    emissions (exchangesOf false (reportingRun 14).1) = [("node-a", response, r)] ∧
      reporting.ShowsCurrent [⟨Topics.gatewayStatus, [0x7b, 0x7d]⟩] (reportingRun 14).1 false
        response := by
  have hone : ∀ i msgs', reporting.job i = .consume msgs' → i = true := by
    intro i msgs' hjob
    cases i with
    | true => rfl
    | false => cases hjob
  have hemitted : (emissions (exchangesOf false (reportingRun 14).1)).map
      (fun sent ↦ (sent.1, sent.2.1.status)) = [("node-a", .ok)] := by
    decide +kernel
  obtain ⟨⟨nodeId, response, r⟩, hemit, hsent⟩ := List.map_eq_singleton_iff.mp hemitted
  obtain ⟨rfl, hok⟩ := Prod.mk.inj hsent
  have hended : ((reportingRun 14).2.1 false).outcome?.isSome = true := by decide +kernel
  obtain ⟨o, ho⟩ := Option.isSome_iff_exists.mp hended
  exact ⟨response, r, hemit, Service.gatewayStatus_current rfl (reportingRun_run 14) rfl hone rfl
    rfl (eq_ofOutcome ho) (hemit ▸ List.mem_singleton_self _) hok⟩

end MeshcoreRpc
