import MeshcoreRpc.Nodes.Newest
import MeshcoreRpc.Nodes.Stamps

/-!
# What a summary is made from

The state summary of a node says `online` of the `last_seen` and the clock
reading that the publishing task has taken last.
-/

namespace MeshcoreRpc

open Tables Coroutine Coro

/-- What a task has last read of the registry and of the clock. -/
structure Glance where
  lastSeen : Option PyFloat := none
  clock : ℚ := 0
deriving DecidableEq

def Glance.after (g : Glance) : (e : Eff) → e.Answer → Glance
  | .store (.getLastSeen _), .ok seen => { g with lastSeen := seen }
  | .time, t => { g with clock := t }
  | .underTtl _ e, some r => g.after e r
  | .afterTtl e, r => g.after e r
  | _, _ => g

/-- The field of a published payload, as a subscriber reads it. -/
def fieldOf (payload : List (String × PyVal)) (field : String) : PyVal :=
  (PyDict.ofPairs payload).get field

/-- The payload says `online` of a finite `last_seen` that was glanced at. -/
def Glance.Told (g : Glance) (payload : List (String × PyVal)) : Prop :=
  ∃ q, g.lastSeen = some (.fin q) ∧
    fieldOf payload "online" = .bool (g.clock - q < onlineThresholdS)

/-- The effect publishes a state summary only as the glance tells it, and retained. -/
def Eff.TellsFrom (g : Glance) : Eff → Prop
  | .publish topic payload retain =>
    ∀ node, topic = Topics.nodeStateTopic node → retain = true ∧ g.Told payload
  | .underTtl _ e => e.TellsFrom g
  | .afterTtl e => e.TellsFrom g
  | _ => True

/-- The effect publishes no state summary. -/
def Eff.TellsNothing : Eff → Prop
  | .publish topic _ _ => NotState topic
  | .underTtl _ e => e.TellsNothing
  | .afterTtl e => e.TellsNothing
  | _ => True

/-- What the broker gets of an answered effect: topic, payload and retain flag.  A publish
that raised may have got through, and so may one that a timeout has cancelled. -/
def Eff.Sends : (e : Eff) → e.Answer → Option (String × List (String × PyVal) × Bool) → Prop
  | .publish topic payload retain, r, sent =>
    sent = some (topic, payload, retain) ∨ sent = none ∧ r ≠ .ok ()
  | .underTtl _ e, some r, sent => e.Sends r sent
  | .underTtl _ e, none, sent => sent = none ∨ ∃ r, e.Sends r sent
  | .afterTtl e, r, sent => e.Sends r sent
  | _, _, sent => sent = none

theorem Eff.TellsFrom.told {g : Glance} {e : Eff} (he : e.TellsFrom g) {r : e.Answer}
    {node : String} {payload : List (String × PyVal)} {retain : Bool}
    (h : e.Sends r (some (Topics.nodeStateTopic node, payload, retain))) :
    retain = true ∧ g.Told payload := by
  induction e with
  | publish topic payload' retain' =>
      rcases h with h | ⟨h, _⟩
      · cases h
        exact he node rfl
      · cases h
  | underTtl ttlS e ih =>
      cases r with
      | some r => exact ih he h
      | none =>
          rcases h with h | ⟨r, h⟩
          · cases h
          · exact ih he h
  | afterTtl e ih => exact ih he h
  | _ => cases h

theorem Eff.TellsNothing.tells {e : Eff} (h : e.TellsNothing) (g : Glance) : e.TellsFrom g := by
  induction e with
  | publish topic payload retain => exact fun node htopic ↦ absurd htopic (h node)
  | underTtl ttlS e ih => exact ih h
  | afterTtl e ih => exact ih h
  | _ => exact True.intro

theorem fieldOf_eq {payload : List (String × PyVal)} {field : String}
    (h : (payload.map Prod.fst).Nodup) : fieldOf payload field = getKey payload field := by
  rw [fieldOf, PyDict.get, PyDict.ofPairs, Dict.get?_update, Dict.get?_empty, Option.or_none]
  induction payload with
  | nil => rfl
  | cons kv payload ih =>
      obtain ⟨hnew, hrest⟩ := List.nodup_cons.mp h
      by_cases hfield : kv.1 = field
      · subst hfield
        have hnone : payload.filter (fun kv' ↦ decide (kv'.1 = kv.1)) = [] := by
          refine List.filter_eq_nil_iff.mpr fun kv' hkv' hsame ↦ ?_
          exact hnew (List.mem_map.mpr ⟨kv', hkv', of_decide_eq_true hsame⟩)
        rw [getKey_cons_self, List.filter_cons_of_pos (by simp), hnone]
        rfl
      · rw [getKey_cons_ne (Ne.symm hfield), List.filter_cons_of_neg (by simpa using hfield)]
        exact ih hrest

theorem nodup_compactJson {d : List (String × PyVal)} (h : (d.map Prod.fst).Nodup) :
    ((compactJson d).map Prod.fst).Nodup :=
  h.sublist (List.filter_sublist.map Prod.fst)

/-- The memory of a task. -/
abbrev remember (g : Glance) (y : Exchange Eff.Answer) : Glance := g.after y.1 y.2

/-- Every state summary that the program publishes is told from what it has read. -/
abbrev Prog.Tells {α : Type} (x : Prog α) (g : Glance) : Prop :=
  x.Recalls remember (fun g e ↦ e.TellsFrom g) (fun _ _ ↦ True) g

theorem tells_of_only {α : Type} {x : Prog α} {g : Glance} (hx : x.Only Eff.TellsNothing) :
    x.Tells g :=
  .of_only (hx.mono fun _ he g ↦ he.tells g)

theorem Eff.Reads.TellsNothing {e : Eff} (he : e.Reads) : e.TellsNothing := by
  cases e with
  | store | time | getGatewaySnapshot | getRadio => exact True.intro
  | _ => exact he.elim

/-- The rule for `wait_for`: an effect in time counts as the effect itself. -/
theorem tells_waitFor {α : Type} {x : Prog α} {ttlS : ℤ} {g : Glance} (hx : x.Tells g) :
    (waitFor ttlS x letThrough).Tells g := by
  refine waitFor_cases (C := fun y ↦ y.Tells g) True.intro ?_
  induction x generalizing g with
  | ret a => exact True.intro
  | raise err => exact True.intro
  | await e next ih =>
      rw [guarded]
      refine ⟨hx.1, fun r ↦ ?_⟩
      cases r with
      | none => exact True.intro
      | some r => exact ih r (hx.2 r)

namespace StateAggregator

variable {num : Numerals} {g : Glance}

theorem ageS_ok {now : ℚ} {seen : PyFloat} {age : ℤ} (h : ageS now (.float seen) = .ok age) :
    ∃ q, seen = .fin q := by
  cases seen with
  | fin q => exact ⟨q, rfl⟩
  | nan => cases h
  | inf negative => cases h

theorem getNodeState_tells (nodeId : PyVal) :
    (getNodeState nodeId).Recalls remember (fun g e ↦ e.TellsFrom g)
      (fun g st ↦ ∀ body, st = some body → g.Told (compactJson body)) g := by
  unfold getNodeState
  refine ⟨True.intro, fun seen ↦ ?_⟩
  cases seen with
  | error err => exact True.intro
  | ok seen =>
      cases seen with
      | none =>
          intro body hbody
          cases hbody
      | some seen =>
          refine ⟨True.intro, fun loc ↦ ?_⟩
          cases loc with
          | error err => exact True.intro
          | ok loc =>
              refine ⟨True.intro, fun bat ↦ ?_⟩
              cases bat with
              | error err => exact True.intro
              | ok bat =>
                  refine ⟨True.intro, fun radio ↦ ⟨True.intro, fun now ↦ ?_⟩⟩
                  change (ofOutcome (ageS now (.float seen)) >>= _ : Prog _).Recalls _ _ _ _
                  refine .bind (S := fun g' _ ↦ g'.clock = now ∧ ∃ q, seen = .fin q ∧
                    g'.lastSeen = some (.fin q)) (.ofOutcome fun age hage ↦ ?_) ?_
                  · obtain ⟨q, rfl⟩ := ageS_ok hage
                    exact ⟨rfl, q, rfl, rfl⟩
                  · rintro g' age ⟨rfl, q, rfl, hlast⟩ body hbody
                    have hkeys : (body.map Prod.fst).Nodup := by
                      cases hbody
                      simp
                    cases hbody
                    refine ⟨q, hlast, ?_⟩
                    rw [fieldOf_eq (nodup_compactJson hkeys), getKey_compactJson hkeys]
                    rfl

theorem republishState_tells (nodeId : PyVal) : (republishState num nodeId).Tells g := by
  refine .bind (getNodeState_tells nodeId) fun g' st htold ↦ ?_
  cases st with
  | none => exact True.intro
  | some body => exact ⟨fun _ _ ↦ ⟨rfl, htold body rfl⟩, fun _ ↦ .ofOutcome fun _ _ ↦ trivial⟩

theorem quiet_noteRadio {nodeId ts : PyVal} {rssi : Option ℤ} {snr : Option PyFloat} :
    (noteRadio nodeId ts rssi snr).Only Eff.TellsNothing := by
  unfold noteRadio
  split
  · exact Prog.only_setRadio.mpr True.intro
  · exact True.intro

theorem applySeen_tells (nodeId ts : PyVal) (rssi : Option ℤ) (snr : Option PyFloat) :
    (applySeen num nodeId ts rssi snr).Tells g :=
  .bind (tells_of_only (Prog.only_store.mpr True.intro)) fun _ _ _ ↦
    .bind (tells_of_only quiet_noteRadio) fun _ _ _ ↦ republishState_tells nodeId

theorem applyLocation_tells (nodeId : PyVal) (fix : LocationFix) (source : String)
    (rssi : Option ℤ) (snr : Option PyFloat) :
    (applyLocation num nodeId fix source rssi snr).Tells g :=
  .bind (tells_of_only (Prog.only_store.mpr True.intro)) fun _ _ _ ↦
    .bind (tells_of_only (Prog.only_store.mpr True.intro)) fun _ _ _ ↦
    .bind (tells_of_only quiet_noteRadio) fun _ _ _ ↦
    .bind (tells_of_only (Prog.only_publish.mpr (notState_location _))) fun _ _ _ ↦
    republishState_tells nodeId

theorem applyBattery_tells (nodeId ts pct voltage : PyVal) (source : String) :
    (applyBattery num nodeId ts pct voltage source).Tells g :=
  .bind (tells_of_only (Prog.only_store.mpr True.intro)) fun _ _ _ ↦
    .bind (tells_of_only (Prog.only_store.mpr True.intro)) fun _ _ _ ↦
    .bind (tells_of_only (Prog.only_publish.mpr (notState_battery _))) fun _ _ _ ↦
    republishState_tells nodeId

end StateAggregator

/-! ## The operations -/

open Handlers in
theorem nodeLocationReport_tells {num : Numerals} {g : Glance} (request : Request) :
    (nodeLocationReport num request).Tells g := by
  have hrequire {c : Prop} [Decidable c] {err : PyExc} {g : Glance} : (require c err).Tells g :=
    tells_of_only only_require
  have htime (v : PyVal) {g : Glance} : (orTime v).Tells g := by
    unfold orTime
    split
    · exact True.intro
    · exact ⟨True.intro, fun _ ↦ True.intro⟩
  refine .bind hrequire fun _ _ _ ↦ .bind hrequire fun _ _ _ ↦ .bind (htime _) fun _ _ _ ↦
    .bind (S := fun _ _ ↦ True) (.ofOutcome fun _ _ ↦ trivial) fun _ _ _ ↦
    .bind (StateAggregator.applyLocation_tells ..) fun _ _ _ ↦ True.intro

theorem processRequest_tells {num : Numerals} {geo : Geo} {policy : TimeoutPolicy} {g : Glance}
    (request : Request) :
    (processRequest policy (Handlers.defaultRouter num geo) request).Tells g := by
  have hfinal (response : Response) (finalState : FinalState) (errorCode : Option String)
      {g : Glance} : (publishAndFinalize request response finalState errorCode).Tells g := by
    refine tells_of_only (.bind (.tryCatch (.bind (Prog.only_emit.mpr True.intro) fun _ ↦
      Prog.only_store.mpr True.intro) fun _ ↦ True.intro) fun _ ↦ Prog.only_store.mpr True.intro)
  have hevent (state : EventState) (detail : Option String) {g : Glance} :
      (recordEvent request state detail).Tells g :=
    tells_of_only (Prog.only_store.mpr True.intro)
  refine .bind (tells_of_only (.attempt (Prog.only_store.mpr True.intro))) fun _ received _ ↦ ?_
  cases received with
  | error err => exact hfinal ..
  | ok fresh =>
      cases fresh with
      | false => exact .bind (hevent ..) fun _ _ _ ↦ hfinal ..
      | true =>
          refine .bind (hevent ..) fun _ _ _ ↦
            .bind (tells_of_only (Prog.only_time.mpr True.intro)) fun _ now _ ↦
            .bind (tells_of_only (Prog.only_store.mpr True.intro)) fun _ _ _ ↦ ?_
          cases hrouter : (Handlers.defaultRouter num geo).resolve request.type with
          | none => exact .bind (hevent ..) fun _ _ _ ↦ hfinal ..
          | some handler =>
              have hhandler {g : Glance} : (handler.timed request
                  (policy.resolve request.type request.ttl)).Tells g := by
                rw [Handlers.defaultRouter_timed_eq num geo hrouter]
                refine tells_waitFor ?_
                by_cases htype : request.type = "node.location.report"
                · rw [htype] at hrouter
                  rw [Handlers.resolve_report num geo hrouter]
                  exact nodeLocationReport_tells request
                · exact tells_of_only ((Handlers.defaultRouter_reads num geo hrouter htype
                    request).mono fun _ he ↦ he.TellsNothing)
              have hrun {g : Glance} : (runWithTimeout (handler.handle request)
                  (handler.unwind request) (policy.resolve request.type request.ttl)).Tells g :=
                .bind (tells_of_only (Prog.only_inc.mpr True.intro)) fun _ _ _ ↦
                  .bind (.attempt hhandler) fun _ _ _ ↦
                  .bind (tells_of_only (Prog.only_dec.mpr True.intro)) fun _ _ _ ↦
                  .ofOutcome fun _ _ ↦ trivial
              refine .bind (hevent ..) fun _ _ _ ↦ .bind (.attempt hrun) fun _ outcome _ ↦ ?_
              cases outcome with
              | ok response => exact hfinal ..
              | error err =>
                  cases err with
                  | timeoutError => exact .bind (hevent ..) fun _ _ _ ↦ hfinal ..
                  | rpcError code message => exact hfinal ..
                  | other typeName => exact hfinal ..

theorem Operation.tells {num : Numerals} {geo : Geo} {policy : TimeoutPolicy} {g : Glance}
    (op : Operation) : (op.prog num geo policy).Tells g := by
  cases op with
  | processRequest request => exact processRequest_tells request
  | applySeen node ts rssi snr => exact StateAggregator.applySeen_tells ..
  | applyLocation node fix source rssi snr => exact StateAggregator.applyLocation_tells ..
  | applyBattery node ts pct voltage source => exact StateAggregator.applyBattery_tells ..

end MeshcoreRpc
