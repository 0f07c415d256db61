import MeshcoreRpc.Tak.Presentable
import MeshcoreRpc.Tak.Topics

/-!
# The bridge as it runs

The MQTT loop survives what a message raises; the heartbeat does not survive
what a pass raises: its task ends there, and no pass follows.
-/

namespace MeshcoreRpc.Tak

open Tables

/-- The topics that the subscriptions let through, ids being non-empty. -/
inductive Subscribed : String → Prop where
  | base : Subscribed Topics.baseLocation
  | location (id : String) (h : Bridge.IsLevel id) : Subscribed (Topics.nodeLocationTopic id)
  | state (id : String) (h : Bridge.IsLevel id) : Subscribed (Topics.nodeStateTopic id)

inductive Stimulus where
  | message (clock : Clock) (msg : MqttMessage) (subscribed : Subscribed msg.topic)
  | heartbeat (clock : Clock)

structure Session where
  bridge : Bridge := .init
  /-- The heartbeat task has not ended. -/
  beating : Bool := true
  sent : List CotEvent := []

namespace Session

variable (cfg : TakBridgeConfig)

def step (s : Session) : Stimulus → Session
  | .message clock msg _ =>
    let handled := Bridge.handleMqttMessage cfg clock msg s.bridge
    { s with bridge := handled.bridge, sent := s.sent ++ handled.sent }
  | .heartbeat clock =>
    if s.beating then
      let beaten := Bridge.heartbeat cfg clock s.bridge
      ⟨beaten.bridge, beaten.outcome.isOk, s.sent ++ beaten.sent⟩
    else s

def run (stimuli : List Stimulus) : Session := stimuli.foldl (step cfg) {}

theorem run_snoc {stimuli : List Stimulus} {stimulus : Stimulus} :
    run cfg (stimuli ++ [stimulus]) = step cfg (run cfg stimuli) stimulus := by
  rw [run, run, List.foldl_append]
  rfl

end Session

/-! ## What one publication depends on -/

namespace Bridge

variable {cfg : TakBridgeConfig} {clock : Clock}

theorem publishOne_congr {key : String} {b b' : Bridge}
    (h : b.state.get? key = b'.state.get? key) :
    publishOne cfg clock key b = publishOne cfg clock key b' := by
  rw [publishOne, publishOne, h]

theorem cotOf_uid {key : String} {record : PyDict} {cot : CotEvent}
    (h : cotOf cfg clock key record = .ok cot) : cot.uid = uidOf key := by
  unfold cotOf at h
  iterate 8 obtain ⟨_, _, h⟩ := except_bind_ok h
  obtain ⟨stale, _, h⟩ := except_bind_ok h
  cases h
  rfl

theorem publishOne_uid {key : String} {b : Bridge} {sent : List CotEvent}
    (h : publishOne cfg clock key b = .ok sent) : ∀ cot ∈ sent, cot.uid = uidOf key := by
  rw [publishOne] at h
  split at h
  · cases h
    simp
  · split at h
    · rename_i record _ _
      cases hcot : cotOf cfg clock key record with
      | error err => simp [hcot, Except.map] at h
      | ok cot =>
          rw [hcot] at h
          cases h
          simpa using cotOf_uid hcot
    · cases h
      simp

/-! ## Eviction -/

/-- The drop event of the node can be built. -/
def Droppable (b : Bridge) (nodeId : String) : Prop :=
  ∀ record, b.state.get? nodeId = some record → hasPosition record →
    (record.get "lat").floatable = true ∧ (record.get "lon").floatable = true

theorem publishDrop_ok (cfg : TakBridgeConfig) (clock : Clock) {nodeId : String} {b : Bridge}
    (h : Droppable b nodeId) :
    ∃ sent, publishDrop cfg clock nodeId b = .ok sent ∧ ∀ cot ∈ sent, cot.uid = uidOf nodeId := by
  rw [publishDrop]
  cases hget : b.state.get? nodeId with
  | none => exact ⟨[], rfl, by simp⟩
  | some record =>
      by_cases hpos : hasPosition record = true
      · obtain ⟨hlat, hlon⟩ := h record hget hpos
        obtain ⟨hlatN, hlonN⟩ := Bool.and_eq_true_iff.mp hpos
        obtain ⟨lat, hlat⟩ := (PyVal.numberToFloat_ok_iff hlatN).mpr hlat
        obtain ⟨lon, hlon⟩ := (PyVal.numberToFloat_ok_iff hlonN).mpr hlon
        simp only [hpos, if_true, hlat, hlon]
        exact ⟨_, rfl, by simp [buildDropCot, CotEvent.uid]⟩
      · simp only [hpos]
        exact ⟨[], rfl, by simp⟩

/-- Forget a node. -/
def forget (nodeId : String) (b : Bridge) : Bridge :=
  ⟨b.state.erase nodeId, b.offlineSince.erase nodeId⟩

theorem evictNodes_cons {nodeId : String} {rest : List String} {b : Bridge} {sent : List CotEvent}
    (h : publishDrop cfg clock nodeId b = .ok sent) :
    evictNodes cfg clock (nodeId :: rest) b =
      let later := evictNodes cfg clock rest (b.forget nodeId)
      ⟨later.bridge, sent ++ later.sent, later.outcome⟩ := by
  rw [evictNodes, h]
  rfl

theorem Droppable.forget {b : Bridge} {nodeId : String} (h : Droppable b nodeId) (gone : String) :
    Droppable (b.forget gone) nodeId := by
  intro record hget
  rw [Bridge.forget, Dict.get?_erase] at hget
  split at hget
  · cases hget
  · exact h record hget

theorem evictNodes_ok (cfg : TakBridgeConfig) (clock : Clock) {ids : List String} {b : Bridge}
    (h : ∀ id ∈ ids, Droppable b id) :
    (evictNodes cfg clock ids b).outcome = .ok () ∧
      (∀ key, (evictNodes cfg clock ids b).bridge.state.get? key =
        if key ∈ ids then none else b.state.get? key) ∧
      (∀ key, (evictNodes cfg clock ids b).bridge.offlineSince.get? key =
        if key ∈ ids then none else b.offlineSince.get? key) ∧
      ∀ cot ∈ (evictNodes cfg clock ids b).sent, ∃ id ∈ ids, cot.uid = uidOf id := by
  induction ids generalizing b with
  | nil => simp [evictNodes]
  | cons id rest ih =>
      obtain ⟨hid, hrest⟩ := List.forall_mem_cons.mp h
      obtain ⟨sent, hsent, huid⟩ := publishDrop_ok cfg clock hid
      obtain ⟨hok, hstate, hsince, hlater⟩ := ih fun key hkey ↦ (hrest key hkey).forget id
      rw [evictNodes_cons hsent]
      refine ⟨hok, fun key ↦ ?_, fun key ↦ ?_, fun cot hcot ↦ ?_⟩
      · rw [hstate, forget, Dict.get?_erase]
        by_cases hkey : key = id <;> simp [hkey]
      · rw [hsince, forget, Dict.get?_erase]
        by_cases hkey : key = id <;> simp [hkey]
      · rcases List.mem_append.mp hcot with hcot | hcot
        · exact ⟨id, List.mem_cons_self, huid cot hcot⟩
        · obtain ⟨id', hid', heq⟩ := hlater cot hcot
          exact ⟨id', List.mem_cons_of_mem _ hid', heq⟩

/-- The nodes that a pass of the heartbeat is to drop. -/
def due (cfg : TakBridgeConfig) (clock : Clock) (b : Bridge) : List String :=
  if cfg.removeAfterOfflineS ≤ 0 then [] else toEvict cfg clock b

theorem evictLongOffline_eq {b : Bridge} :
    evictLongOffline cfg clock b = evictNodes cfg clock (due cfg clock b) b := by
  rw [evictLongOffline, due]
  split <;> rfl

theorem mem_toEvict {b : Bridge} {key : String} :
    key ∈ toEvict cfg clock b ↔ ∃ since, b.offlineSince.get? key = some since ∧
      (cfg.removeAfterOfflineS : ℚ) ≤ clock.time - since := by
  simp only [toEvict, List.mem_map, List.mem_filter, decide_eq_true_eq, Dict.get?_eq_some]
  constructor
  · rintro ⟨⟨key', since⟩, ⟨hmem, hold⟩, rfl⟩
    exact ⟨since, hmem, hold⟩
  · rintro ⟨since, hmem, hold⟩
    exact ⟨(key, since), ⟨hmem, hold⟩, rfl⟩

theorem due_offline {b : Bridge} {key : String} (h : key ∈ due cfg clock b) :
    (b.offlineSince.get? key).isSome := by
  rw [due] at h
  split at h
  · cases h
  · obtain ⟨since, hsince, _⟩ := mem_toEvict.mp h
    rw [hsince]
    rfl

end Bridge

end MeshcoreRpc.Tak
