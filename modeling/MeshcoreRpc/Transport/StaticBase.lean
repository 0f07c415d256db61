import MeshcoreRpc.Transport.Service

/-!
# The static base

`_init_static_base` stores one fix with the time of the start.  Nothing writes
it again, and `base.location` and `return_to_base` age it: it expires 601
seconds after the start.
-/

namespace MeshcoreRpc

open Tables Coroutine Coro Interleaving

/-- The static source of `BaseLocationConfig`. -/
structure BaseLocationConfig where
  staticLat : Option PyFloat
  staticLon : Option PyFloat

def initStaticBase (cfg : BaseLocationConfig) : Prog Unit :=
  match cfg.staticLat, cfg.staticLon with
  | some lat, some lon => do
    let now ← Prog.time
    StateAggregator.applyBaseLocation { lat, lon, ts := .fin now, fix := some 3 } "static"
  | _, _ => pure ()

abbrev staticBody (lat lon : PyFloat) (t₀ : ℚ) : List (String × PyVal) :=
  StateAggregator.baseBody { lat, lon, ts := .fin t₀, fix := some 3 } "static"

abbrev baseRead (r : Except PyExc (Option (List (String × PyVal)))) : Exchange Eff.Answer :=
  ⟨.store (.getBaseState "location"), r⟩

theorem initStaticBase_leaves {num : Numerals} {cfg : BaseLocationConfig} {lat lon : PyFloat}
    {db₀ db₁ : Db} {tr : List (Event Unit Eff.Answer ℚ Empty)} {p : Unit → Prog Unit}
    (hlat : cfg.staticLat = some lat) (hlon : cfg.staticLon = some lon)
    (h : Run (Owned num Unit) (fun _ ↦ initStaticBase cfg) db₀ tr p db₁)
    (hdone : p () = ofOutcome (.ok ())) :
    ∃ t₀, ⟨.time, t₀⟩ ∈ exchangesOf () tr ∧
      (db₁.baseState.find? "location").map BaseStateRow.valueJson =
        some (staticBody lat lon t₀) := by
  have hwp : (initStaticBase cfg).wp fun tr o ↦ o = .ok () → ∃ t₀, ∃ r : Except PyExc Unit,
      tr = [⟨.time, t₀⟩] ++ (⟨.store (.upsertBaseState "location" (staticBody lat lon t₀)),
        Except.ok ()⟩ : Exchange Eff.Answer) ::
        [⟨.publish Topics.baseLocation (compactJson (staticBody lat lon t₀)) true, r⟩] := by
    simp only [initStaticBase, hlat, hlon, StateAggregator.applyBaseLocation, wp_bind, Prog.wp_time,
      Prog.store, wp_await, wp_ofOutcome, Prog.wp_publish]
    intro t₀ stored
    cases stored with
    | error err => exact fun ho ↦ by cases ho
    | ok _ => exact fun published _ ↦ ⟨t₀, published, rfl⟩
  obtain ⟨t₀, r, htr⟩ := wp_iff.mp hwp _ _ (hdone ▸ h.steps ()) rfl
  obtain ⟨before, now, after, rfl, _, hafter⟩ := exists_split_of_exchangesOf htr
  refine ⟨t₀, by rw [htr]; simp, ?_⟩
  obtain ⟨s, _, hrest⟩ := Evolves.append_iff.mp h.evolves
  obtain ⟨s', hstep, hpost⟩ := Evolves.cons_iff.mp hrest
  have hkept : db₁.baseState = s'.baseState := by
    refine base_kept (fun i t x hx ↦ ?_) hpost
    have hmem : x ∈ exchangesOf () after := mem_exchangesOf.mpr ⟨t, hx⟩
    rw [hafter] at hmem
    cases List.mem_singleton.mp hmem
    rfl
  rw [hkept, StoreCall.exec_upsertBaseState hstep]
  rfl

theorem base_read {ι : Type} [DecidableEq ι] {service : Service ι} {db₁ db : Db}
    {tr : List (Event ι Eff.Answer ℚ Empty)} {p : ι → Prog (Option Response)} {i : ι}
    {loc : Option (List (String × PyVal))}
    (h : Run (Owned service.num ι) service.pool db₁ tr p db)
    (hread : baseRead (.ok loc) ∈ exchangesOf i tr) :
    loc = (db₁.baseState.find? "location").map BaseStateRow.valueJson := by
  obtain ⟨now, hmem⟩ := mem_exchangesOf.mp hread
  obtain ⟨pre, post, rfl⟩ := List.append_of_mem hmem
  obtain ⟨s, hpre, hrest⟩ := Evolves.append_iff.mp h.evolves
  obtain ⟨s', hstep, _⟩ := Evolves.cons_iff.mp hrest
  have hkept : s.baseState = db₁.baseState := by
    refine base_kept (fun j t x hx ↦ ?_) hpre
    refine ((service.pool_only j).steps (h.steps j)).1 x (mem_exchangesOf.mpr ⟨t, ?_⟩)
    exact List.mem_append_left _ hx
  rw [← hkept]
  cases hstep
  rfl

/-! ## The age of the base -/

theorem age_le_iff {t t₀ : ℚ} : max 0 (truncate (t - t₀)) ≤ 600 ↔ t < t₀ + 601 := by
  rw [max_le_iff, truncate]
  split
  · next hneg =>
      have hceil : ⌈t - t₀⌉ ≤ 0 := Int.ceil_le.mpr (by push_cast; linarith)
      constructor
      · intro _
        linarith
      · intro _
        constructor <;> omega
  · have hfloor : ⌊t - t₀⌋ ≤ 600 ↔ t - t₀ < 601 := by
      rw [← Int.lt_add_one_iff, Int.floor_lt]
      norm_num
    constructor
    · intro h
      linarith [hfloor.mp h.2]
    · intro h
      exact ⟨by norm_num, hfloor.mpr (by linarith)⟩

/-- The answer of `base.location` with the configured coordinates. -/
def LocatesBase (lat lon : PyFloat) (t₀ : ℚ) (request : Request) (o : Except PyExc Response) :
    Prop :=
  ∃ age : ℤ, o = .ok (Response.ok request
    [("lat", .float lat), ("lon", .float lon), ("ts", .float (.fin t₀)), ("age_s", .int age),
      ("fix", .int 3)])

/-- `return_to_base` refuses because of the base. -/
def BaseRefusal (err : PyExc) : Prop :=
  err = Handlers.unavailable "Base has no fix" ∨
    ∃ age : ℤ, err = Handlers.stale ("Base's last fix is " ++ toString age ++ "s old")

section Handlers

variable {lat lon : PyFloat} {t₀ : ℚ}

theorem baseLocation_spec (request : Request) :
    (Handlers.baseLocation request).wp fun tr o ↦
      (∀ loc, baseRead (.ok loc) ∈ tr → loc = some (staticBody lat lon t₀)) →
      (LocatesBase lat lon t₀ request o ↔
        ∃ t, tr = [baseRead (.ok (some (staticBody lat lon t₀))), ⟨.time, t⟩] ∧ t < t₀ + 601) := by
  simp only [Handlers.baseLocation, StateAggregator.getBaseLocation, wp_bind, Prog.store, wp_await,
    wp_ofOutcome]
  intro r
  cases r with
  | error err => simp [LocatesBase, baseRead]
  | ok loc =>
      cases loc with
      | none =>
          intro hread
          cases hread none (by simp)
      | some loc =>
          by_cases hloc : loc = staticBody lat lon t₀
          · subst hloc
            have hage (t : ℚ) : ageS t (((staticBody lat lon t₀).lookup "ts").getD (.int 0)) =
                .ok (max 0 (truncate (t - t₀))) := rfl
            have hlat : item (staticBody lat lon t₀) "lat" = .ok (.float lat) := rfl
            have hlon : item (staticBody lat lon t₀) "lon" = .ok (.float lon) := rfl
            have hts : item (staticBody lat lon t₀) "ts" = .ok (.float (.fin t₀)) := rfl
            simp only [hage, hlat, hlon, hts, wp_bind, Prog.wp_time, wp_ofOutcome,
              Handlers.wp_require, wp_pure]
            refine fun t ↦ ⟨fun hyoung _ ↦ ?_, fun hold _ ↦ ?_⟩
            · have ht := age_le_iff.mp hyoung
              exact iff_of_true ⟨_, rfl⟩ ⟨t, rfl, ht⟩
            · have ht := fun h ↦ hold (age_le_iff.mpr h)
              refine iff_of_false ?_ ?_
              · rintro ⟨_, h⟩
                cases h
              · rintro ⟨t', heq, ht'⟩
                cases heq
                exact ht ht'
          · refine wp_iff.mpr fun tr o _ hread ↦ ?_
            cases hloc (Option.some.inj (hread _ (by simp)))

/-- Nothing awaited has raised `RpcError`, which is for handlers to raise. -/
def NoRpcError (tr : Trace) : Prop :=
  ∀ x ∈ tr, ∀ code message, x.1.raised? x.2 ≠ some (.rpcError code message)

theorem not_refusal_other (name : String) : ¬ BaseRefusal (.other name) := by
  rintro (h | ⟨age, h⟩) <;> cases h

theorem not_refusal_unavailable {message : String} (h : message ≠ "Base has no fix") :
    ¬ BaseRefusal (Handlers.unavailable message) := by
  rintro (heq | ⟨age, heq⟩)
  · cases heq
    exact h rfl
  · simp [Handlers.unavailable, Handlers.stale, Errors.unavailable, Errors.stale] at heq

theorem not_refusal_caller (age : ℤ) :
    ¬ BaseRefusal (Handlers.stale ("Caller's last fix is " ++ toString age ++ "s old")) := by
  rintro (heq | ⟨age', heq⟩)
  · simp [Handlers.unavailable, Handlers.stale, Errors.unavailable, Errors.stale] at heq
  · simp only [Handlers.stale, PyExc.rpcError.injEq, true_and] at heq
    have hhead := congrArg (fun s ↦ s.toList.head?) heq
    simp at hhead

theorem roundToInt_error {f : PyFloat} {err : PyExc} (h : f.roundToInt = .error err) :
    ∃ name, err = .other name := by
  cases f with
  | fin q => cases h
  | nan =>
      cases h
      exact ⟨_, rfl⟩
  | inf negative =>
      cases h
      exact ⟨_, rfl⟩

theorem numberToFloat_error {v : PyVal} {err : PyExc} (h : v.numberToFloat = .error err) :
    ∃ name, err = .other name := by
  cases v with
  | bool b => cases h
  | float f => cases h
  | int n =>
      simp only [PyVal.numberToFloat, floatOfInt] at h
      split at h
      · cases h
        exact ⟨_, rfl⟩
      · cases h
  | _ =>
      cases h
      exact ⟨_, rfl⟩

theorem ageS_error {now : ℚ} {ts : PyVal} {err : PyExc} (h : ageS now ts = .error err) :
    ∃ name, err = .other name := by
  simp only [ageS, PyVal.subFrom] at h
  cases hfloat : ts.numberToFloat with
  | error err' =>
      rw [hfloat] at h
      cases h
      exact numberToFloat_error hfloat
  | ok f =>
      rw [hfloat] at h
      cases f with
      | fin q => cases h
      | nan =>
          cases h
          exact ⟨_, rfl⟩
      | inf negative =>
          cases h
          exact ⟨_, rfl⟩

/-- Nothing is awaited, and no `RpcError` raised. -/
def Computes {α : Type} (tr : Trace) (o : Except PyExc α) : Prop :=
  tr = [] ∧ ∀ err, o = .error err → ∃ name, err = .other name

theorem computes_outcome {α : Type} {o : Except PyExc α}
    (h : ∀ err, o = .error err → ∃ name, err = .other name) :
    (Coro.ofOutcome o : Prog α).wp Computes := wp_ofOutcome.mpr ⟨rfl, h⟩

theorem computes_bind {α β : Type} {x : Prog α} {f : α → Prog β} (hx : x.wp Computes)
    (hf : ∀ a, (f a).wp Computes) : (x >>= f).wp Computes := by
  rw [wp_bind]
  refine wp_mono hx ?_
  rintro tr o ⟨rfl, herr⟩
  cases o with
  | error err =>
      refine ⟨rfl, fun err' heq ↦ ?_⟩
      cases heq
      exact herr err rfl
  | ok a => exact hf a

theorem mapError_other {α : Type} {x : Except String α} {err : PyExc}
    (h : x.mapError .other = .error err) : ∃ name, err = .other name := by
  cases x with
  | error name =>
      cases h
      exact ⟨name, rfl⟩
  | ok a => cases h

theorem item_error {d : List (String × PyVal)} {k : String} {err : PyExc}
    (h : item d k = .error err) : ∃ name, err = .other name := by
  rw [item] at h
  split at h
  · cases h
  · cases h
    exact ⟨_, rfl⟩

theorem wp_time_bind {α : Type} {f : ℚ → Prog α} {Q : Trace → Except PyExc α → Prop} :
    (Prog.time >>= f).wp Q ↔ ∀ t, (f t).wp fun tr o ↦ Q (⟨.time, t⟩ :: tr) o := by
  simp only [wp_bind, Prog.wp_time, List.singleton_append]

theorem wp_require_bind {α : Type} {c : Prop} [Decidable c] {err : PyExc} {f : Unit → Prog α}
    {Q : Trace → Except PyExc α → Prop} :
    (Handlers.require c err >>= f).wp Q ↔ (c → (f ()).wp Q) ∧ (¬ c → Q [] (.error err)) := by
  simp only [wp_bind, Handlers.wp_require, List.nil_append]

theorem callerPosition_spec (request : Request) :
    (Handlers.callerPosition request).wp fun tr o ↦ (∀ r, baseRead r ∉ tr) ∧
      (NoRpcError tr → ∀ err, o = .error err → ¬ BaseRefusal err) := by
  have other {err err' : PyExc} (h : ∃ name, err = .other name)
      (heq : (Except.error err : Except PyExc (PyVal × PyVal × ℤ)) = .error err') :
      ¬ BaseRefusal err' := by
    obtain ⟨name, rfl⟩ := h
    cases heq
    exact not_refusal_other name
  unfold Handlers.callerPosition
  split
  · refine wp_mono (Q := Computes) ?_ ?_
    · refine computes_bind (computes_outcome fun _ ↦ numberToFloat_error) fun lat ↦ ?_
      refine computes_bind (computes_outcome fun _ ↦ numberToFloat_error) fun lon ↦ ?_
      exact ⟨rfl, fun err heq ↦ by cases heq⟩
    · rintro tr o ⟨rfl, ho⟩
      exact ⟨by simp, fun _ err heq ↦ other (ho err heq) rfl⟩
  · simp only [StateAggregator.getNodeLocation, wp_bind, Prog.store, wp_await, wp_ofOutcome]
    intro r
    cases r with
    | error err =>
        refine ⟨by simp [baseRead], fun hrpc err' heq hrefusal ↦ ?_⟩
        cases heq
        rcases hrefusal with rfl | ⟨age, rfl⟩
        · exact hrpc _ List.mem_cons_self _ _ rfl
        · exact hrpc _ List.mem_cons_self _ _ rfl
    | ok loc =>
        cases loc with
        | none =>
            refine ⟨by simp [baseRead], fun _ err heq ↦ ?_⟩
            cases heq
            exact not_refusal_unavailable (by decide)
        | some loc =>
            simp only [wp_bind, Prog.wp_time, wp_ofOutcome, Handlers.wp_require, wp_pure]
            intro t
            cases hage : ageS t (getKey loc "ts") with
            | error err => exact ⟨by simp [baseRead], fun _ _ ↦ other (ageS_error hage)⟩
            | ok age =>
                refine ⟨fun _ ↦ ⟨by simp [baseRead], fun _ _ heq ↦ by cases heq⟩, fun _ ↦ ?_⟩
                refine ⟨by simp [baseRead], fun _ err heq ↦ ?_⟩
                cases heq
                exact not_refusal_caller age

theorem returnToBase_spec (geo : Geo) (request : Request) :
    (Handlers.returnToBase geo request).wp fun tr o ↦
      (∀ loc, baseRead (.ok loc) ∈ tr → loc = some (staticBody lat lon t₀)) → NoRpcError tr →
      ((∃ err, o = .error err ∧ BaseRefusal err) ↔
        ∃ pre t, tr = pre ++ [baseRead (.ok (some (staticBody lat lon t₀))), ⟨.time, t⟩] ∧
          t₀ + 601 ≤ t) := by
  rw [Handlers.returnToBase, wp_bind]
  refine wp_mono (callerPosition_spec request) ?_
  rintro tr o ⟨hbase, hcaller⟩
  cases o with
  | error err =>
      intro _ hrpc
      refine iff_of_false ?_ ?_
      · rintro ⟨err', heq, hrefusal⟩
        cases heq
        exact hcaller hrpc err rfl hrefusal
      · rintro ⟨pre, t, htr, _⟩
        refine hbase (.ok (some (staticBody lat lon t₀))) ?_
        rw [htr]
        simp
  | ok caller =>
      simp only [StateAggregator.getBaseLocation, wp_bind, Prog.store, wp_await, wp_ofOutcome]
      intro r
      cases r with
      | error err =>
          intro _ hrpc
          refine iff_of_false ?_ ?_
          · rintro ⟨err', heq, hrefusal⟩
            cases heq
            rcases hrefusal with rfl | ⟨age, rfl⟩
            · exact hrpc _ (List.mem_append_right _ List.mem_cons_self) _ _ rfl
            · exact hrpc _ (List.mem_append_right _ List.mem_cons_self) _ _ rfl
          · rintro ⟨pre, t, htr, _⟩
            rw [← List.singleton_append (l := [_]), ← List.append_assoc] at htr
            cases (List.append_inj' htr rfl).2
      | ok loc =>
          cases loc with
          | none =>
              intro hread
              cases hread none (by simp)
          | some loc =>
              by_cases hloc : loc = staticBody lat lon t₀
              · subst hloc
                have hts : item (staticBody lat lon t₀) "ts" = .ok (.float (.fin t₀)) := rfl
                have hage (t : ℚ) : ageS t (.float (.fin t₀)) =
                    .ok (max 0 (truncate (t - t₀))) := rfl
                refine wp_time_bind.mpr fun t ↦ ?_
                rw [hts]
                refine wp_require_bind.mpr ⟨fun hyoung ↦ ?_, fun hold _ _ ↦ ?_⟩
                · refine wp_mono (Q := Computes) ?_ ?_
                  · refine computes_bind (computes_outcome fun _ ↦ item_error) fun baseLat ↦ ?_
                    refine computes_bind (computes_outcome fun _ ↦ item_error) fun baseLon ↦ ?_
                    refine computes_bind (computes_outcome fun _ ↦ mapError_other) fun bearing ↦ ?_
                    refine computes_bind (computes_outcome fun _ ↦ mapError_other) fun dist ↦ ?_
                    refine computes_bind (computes_outcome fun _ ↦ roundToInt_error) fun b ↦ ?_
                    refine computes_bind (computes_outcome fun _ ↦ roundToInt_error) fun d ↦ ?_
                    exact ⟨rfl, fun err heq ↦ by cases heq⟩
                  rintro tr' o ⟨rfl, ho⟩ _ _
                  refine iff_of_false ?_ ?_
                  · rintro ⟨err, heq, hrefusal⟩
                    obtain ⟨name, rfl⟩ := ho err heq
                    exact not_refusal_other name hrefusal
                  · rintro ⟨pre, t', htr, ht'⟩
                    cases (List.append_inj' htr rfl).2
                    exact absurd (age_le_iff.mp hyoung) (not_lt.mpr ht')
                · refine iff_of_true ⟨_, rfl, .inr ⟨_, rfl⟩⟩ ⟨tr, t, rfl, ?_⟩
                  exact not_lt.mp fun h ↦ hold (age_le_iff.mpr h)
              · refine wp_iff.mpr fun tr o _ hread ↦ ?_
                cases hloc (Option.some.inj (hread _ (by simp)))

end Handlers

/-- What is known of a handler is known of a task that asks it. -/
theorem wp_ask {x : Prog Response} {S : Trace → Except PyExc Response → Prop} (hx : x.wp S) :
    (do
      let response ← x
      return some response : Prog (Option Response)).wp fun tr o' ↦
      ∀ o, o' = o.map some → S tr o := by
  rw [wp_bind]
  refine wp_mono hx fun tr o hS ↦ ?_
  cases o with
  | error err =>
      intro o heq
      cases o with
      | error err' =>
          cases heq
          exact hS
      | ok response => cases heq
  | ok response =>
      intro o heq
      rw [List.append_nil]
      cases o with
      | error err => cases heq
      | ok response' =>
          cases heq
          exact hS

/-- The configured base expires: after `_init_static_base` took the time `t₀`, and
whatever the tasks of the service do, `base.location` answers with it exactly
when it reads it and then reads a clock before `t₀ + 601`, and `return_to_base`
refuses because of the base exactly when it reads a clock from then on. -/
theorem static_base_lasts_iff {ι : Type} [DecidableEq ι] {service : Service ι}
    {cfg : BaseLocationConfig} {lat lon : PyFloat} {db₀ db₁ db : Db}
    {tr₀ : List (Event Unit Eff.Answer ℚ Empty)} {tr : List (Event ι Eff.Answer ℚ Empty)}
    {p₀ : Unit → Prog Unit} {p : ι → Prog (Option Response)}
    (hlat : cfg.staticLat = some lat) (hlon : cfg.staticLon = some lon)
    (hinit : Run (Owned service.num Unit) (fun _ ↦ initStaticBase cfg) db₀ tr₀ p₀ db₁)
    (hdone : p₀ () = ofOutcome (.ok ()))
    (h : Run (Owned service.num ι) service.pool db₁ tr p db) :
    ∃ t₀, ⟨.time, t₀⟩ ∈ exchangesOf () tr₀ ∧
      ∀ i request o, service.job i = .ask request → p i = ofOutcome (o.map some) →
        (request.type = "base.location" → (LocatesBase lat lon t₀ request o ↔
          ∃ t, exchangesOf i tr = [baseRead (.ok (some (staticBody lat lon t₀))), ⟨.time, t⟩] ∧
            t < t₀ + 601)) ∧
        (request.type = "return_to_base" → NoRpcError (exchangesOf i tr) →
          ((∃ err, o = .error err ∧ BaseRefusal err) ↔ ∃ pre t, exchangesOf i tr =
            pre ++ [baseRead (.ok (some (staticBody lat lon t₀))), ⟨.time, t⟩] ∧
            t₀ + 601 ≤ t)) := by
  obtain ⟨t₀, ht₀, hbody⟩ := initStaticBase_leaves hlat hlon hinit hdone
  refine ⟨t₀, ht₀, fun i request o hjob hend ↦ ?_⟩
  have hread (loc : Option (List (String × PyVal))) (hmem : baseRead (.ok loc) ∈ exchangesOf i tr) :
      loc = some (staticBody lat lon t₀) := (base_read h hmem).trans hbody
  have hsteps := h.steps i
  rw [hend] at hsteps
  constructor
  · intro htype
    have hresolve : service.router.resolve request.type =
        some (Handlers.nodeSide "base.location" Handlers.baseLocation
          Handlers.only_baseLocation) := by
      rw [htype]
      rfl
    rw [Service.pool_ask hjob hresolve] at hsteps
    exact wp_iff.mp (wp_ask (baseLocation_spec request)) _ _ hsteps o rfl hread
  · intro htype hrpc
    have hresolve : service.router.resolve request.type =
        some (Handlers.nodeSide "return_to_base" (Handlers.returnToBase service.geo)
          (Handlers.only_returnToBase service.geo)) := by
      rw [htype]
      rfl
    rw [Service.pool_ask hjob hresolve] at hsteps
    exact wp_iff.mp (wp_ask (returnToBase_spec service.geo request)) _ _ hsteps o rfl hread hrpc

/-- A base at (1, 2). -/
def sampleBase : BaseLocationConfig := ⟨some (.fin 1), some (.fin 2)⟩

theorem length_baseLocation : FieldLength "base.location" := by decide

def baseRequest : Request :=
  .simple "r1" "base.location" "node-a" length_r1 length_baseLocation length_nodeA

/-- One node asks for the base. -/
def sampleService : Service Unit where
  num := .plain
  geo := ⟨fun _ _ _ _ ↦ .ok (.fin 0), fun _ _ _ _ ↦ .ok (.fin 0)⟩
  loads := Transport.sampleLoads
  policy := {}
  days := 30
  job _ := .ask baseRequest

/-- The service starts at the time 0. -/
def startRun : List (Event Unit Eff.Answer ℚ Empty) × (Unit → Prog Unit) × Db :=
  play (fun _ now e db ↦ Eff.respond .plain now (fun _ ↦ none) e db) (List.replicate 3 ((), 0))
    (fun _ ↦ initStaticBase sampleBase, Db.empty)

/-- The node asks at the time `t`. -/
def askRun (t : ℚ) :
    List (Event Unit Eff.Answer ℚ Empty) × (Unit → Prog (Option Response)) × Db :=
  play (fun _ now e db ↦ Eff.respond .plain now (fun _ ↦ none) e db) (List.replicate 2 ((), t))
    (sampleService.pool, startRun.2.2)

theorem startRun_run : Run (Owned .plain Unit) (fun _ ↦ initStaticBase sampleBase) Db.empty
    startRun.1 startRun.2.1 startRun.2.2 :=
  play_run (fun _ now e db ↦ Eff.respond_transition .plain now (fun _ ↦ none) e db) rfl

theorem askRun_run (t : ℚ) : Run (Owned .plain Unit) sampleService.pool startRun.2.2 (askRun t).1
    (askRun t).2.1 (askRun t).2.2 :=
  play_run (fun _ now e db ↦ Eff.respond_transition .plain now (fun _ ↦ none) e db) rfl

/-- Whether a task that asks has been answered with a response or an exception. -/
def answered : Prog (Option Response) → Option Bool
  | .ret (some _) => some true
  | .raise _ => some false
  | _ => none

theorem answered_true {x : Prog (Option Response)} (h : answered x = some true) :
    ∃ response, x = ofOutcome ((Except.ok response : Except PyExc Response).map some) := by
  cases x with
  | ret a =>
      cases a with
      | none => cases h
      | some response => exact ⟨response, rfl⟩
  | raise err => cases h
  | await e next => cases h

theorem answered_false {x : Prog (Option Response)} (h : answered x = some false) :
    ∃ err, x = ofOutcome ((Except.error err : Except PyExc Response).map some) := by
  cases x with
  | ret a => cases a <;> cases h
  | raise err => exact ⟨err, rfl⟩
  | await e next => cases h

/-- At the time 600 the base is still known. -/
theorem base_known_at_600 : ∃ response t₀,
    (askRun 600).2.1 () = ofOutcome (.ok (some response)) ∧
      LocatesBase (.fin 1) (.fin 2) t₀ baseRequest (.ok response) := by
  have hservice : Run (Owned sampleService.num Unit) sampleService.pool startRun.2.2
      (askRun 600).1 (askRun 600).2.1 (askRun 600).2.2 := askRun_run 600
  obtain ⟨response, hend⟩ : ∃ response, (askRun 600).2.1 () =
      ofOutcome ((Except.ok response : Except PyExc Response).map some) :=
    answered_true (by decide +kernel)
  obtain ⟨t₀, ht₀, hall⟩ := static_base_lasts_iff rfl rfl startRun_run rfl hservice
  have hstart : exchangesOf () startRun.1 = ⟨.time, (0 : ℚ)⟩ :: (exchangesOf () startRun.1).tail :=
    rfl
  have htime : t₀ = 0 := by
    rw [hstart] at ht₀
    rcases List.mem_cons.mp ht₀ with heq | hmem
    · cases heq
      rfl
    · have htail : (exchangesOf () startRun.1).tail.map Sigma.fst =
          [.store (.upsertBaseState "location" (staticBody (.fin 1) (.fin 2) 0)),
            .publish Topics.baseLocation (compactJson (staticBody (.fin 1) (.fin 2) 0)) true] := rfl
      have hfst := List.mem_map_of_mem (f := Sigma.fst) hmem
      rw [htail] at hfst
      simp at hfst
  subst htime
  exact ⟨response, 0, hend,
    ((hall () baseRequest _ rfl hend).1 rfl).mpr ⟨600, rfl, by norm_num⟩⟩

/-- At the time 601 it is stale. -/
theorem base_stale_at_601 : ¬ ∀ (t₀ : ℚ) (tr₀ : List (Event Unit Eff.Answer ℚ Empty))
    (p₀ : Unit → Prog Unit) (db₁ : Db) (tr : List (Event Unit Eff.Answer ℚ Empty))
    (p : Unit → Prog (Option Response)) (db : Db) (o : Except PyExc Response),
    Run (Owned .plain Unit) (fun _ ↦ initStaticBase sampleBase) Db.empty tr₀ p₀ db₁ →
    p₀ () = ofOutcome (.ok ()) → ⟨.time, t₀⟩ ∈ exchangesOf () tr₀ →
    Run (Owned .plain Unit) sampleService.pool db₁ tr p db → p () = ofOutcome (o.map some) →
      LocatesBase (.fin 1) (.fin 2) t₀ baseRequest o := by
  intro h
  have hstart : exchangesOf () startRun.1 = ⟨.time, (0 : ℚ)⟩ :: (exchangesOf () startRun.1).tail :=
    rfl
  obtain ⟨err, hend⟩ : ∃ err, (askRun 601).2.1 () =
      ofOutcome ((Except.error err : Except PyExc Response).map some) :=
    answered_false (by decide +kernel)
  obtain ⟨age, hage⟩ := h 0 _ _ _ _ _ _ _ startRun_run rfl (hstart ▸ List.mem_cons_self)
    (askRun_run 601) hend
  cases hage

end MeshcoreRpc
