import MeshcoreRpc.State
import MeshcoreRpc.Tak.Presentable
import MeshcoreRpc.Tak.Topics

/-!
# The record of a node

The aggregator drops empty fields from what it publishes and the bridge only
ever adds to a record, so a field lives on until a message carries it again.
-/

namespace MeshcoreRpc

open Tables Coroutine Coro

/-! ## What the aggregator publishes about a node -/

/-- The two bodies of `mc/node/<id>/location` and `mc/node/<id>/state`, before
the empty fields are dropped. -/
inductive NodeReport where
  | location (fix : LocationFix) (source : String) (rssi : Option ℤ) (snr : Option PyFloat)
  | state (lastSeen : PyFloat) (ageS : ℤ) (online : Bool) (locTs batPct : PyVal)
      (rssi : Option ℤ) (snr : Option PyFloat)

namespace NodeReport

def isLocation : NodeReport → Bool
  | location .. => true
  | state .. => false

def body (nodeId : PyVal) : NodeReport → List (String × PyVal)
  | location fix source rssi snr =>
    [("id", nodeId), ("lat", .float fix.lat), ("lon", .float fix.lon), ("alt", optReal fix.alt),
      ("acc", optReal fix.acc), ("fix", optInteger fix.fix), ("spd", optReal fix.spd),
      ("hdg", optReal fix.hdg), ("ts", .float fix.ts), ("source", .str source),
      ("rssi", optInteger rssi), ("snr", optReal snr)]
  | state lastSeen ageS online locTs batPct rssi snr =>
    [("id", nodeId), ("last_seen", .float lastSeen), ("last_seen_age_s", .int ageS),
      ("online", .bool online), ("loc_ts", locTs), ("bat_pct", batPct),
      ("rssi", optInteger rssi), ("snr", optReal snr)]

def topic (id : String) : NodeReport → String
  | location .. => Topics.nodeLocationTopic id
  | state .. => Topics.nodeStateTopic id

def payload (nodeId : PyVal) (r : NodeReport) : PyDict :=
  PyDict.ofPairs (compactJson (r.body nodeId))

/-- The value a published report has for a field. -/
def carries (nodeId : PyVal) (field : String) (r : NodeReport) : Option PyVal :=
  (r.payload nodeId).get? field

end NodeReport

namespace StateAggregator

/-- `apply_location` publishes such a location body. -/
theorem applyLocation_eq (num : Numerals) (nodeId : PyVal) (fix : LocationFix) (source : String)
    (rssi : Option ℤ) (snr : Option PyFloat) :
    applyLocation num nodeId fix source rssi snr = (do
      Prog.store (.upsertNodeLocation nodeId fix (some source) rssi snr)
      Prog.store (.markNodeSeen nodeId (.float fix.ts))
      noteRadio nodeId (.float fix.ts) rssi snr
      Prog.publish (Topics.nodeLocationTopic (nodeId.toStr num))
        (compactJson ((NodeReport.location fix source rssi snr).body nodeId)) true
      republishState num nodeId) := rfl

theorem getNodeState_returns (nodeId : PyVal) : (getNodeState nodeId).Returns fun st ↦
    ∀ body, st = some body → ∃ lastSeen ageS online locTs batPct rssi snr,
      body = (NodeReport.state lastSeen ageS online locTs batPct rssi snr).body nodeId := by
  refine Returns.bind fun seen ↦ ?_
  cases seen with
  | none =>
      intro body hbody
      cases hbody
  | some lastSeen =>
      refine Returns.bind fun loc ↦ Returns.bind fun bat ↦ Returns.bind fun radio ↦
        Returns.bind fun now ↦ Returns.bind fun age ↦ ?_
      rintro body ⟨⟩
      exact ⟨lastSeen, age, _, _, _, _, _, rfl⟩

end StateAggregator

/-! ## The record as a fold -/

namespace Tak

/-- A report as the bridge receives it. -/
abbrev Delivery := Clock × NodeReport

def Delivery.message (num : Numerals) (nodeId : PyVal) (d : Delivery) : Bridge.JsonMessage where
  clock := d.1
  topic := d.2.topic (nodeId.toStr num)
  value := .dict (compactJson (d.2.body nodeId))

/-- The last location and the last state, in their order. -/
def finals : List Delivery → List Delivery
  | [] => []
  | d :: rest =>
    if rest.any fun d' ↦ d'.2.isLocation == d.2.isLocation then finals rest else d :: finals rest

/-- The newest value that a report carries for a field. -/
def lastCarrying (nodeId : PyVal) (field : String) (ds : List Delivery) : Option PyVal :=
  (ds.filterMap fun d ↦ d.2.carries nodeId field).getLast?

namespace Bridge

/-- The record of the node after the deliveries. -/
def recordAfter (cfg : TakBridgeConfig) (num : Numerals) (nodeId : PyVal) (ds : List Delivery) :
    Option PyDict :=
  (received cfg (ds.map (Delivery.message num nodeId))).state.get? (nodeId.toStr num)

/-- The records agree, up to their stamps. -/
def SameRecord (r r' : Option PyDict) : Prop :=
  r.isSome = r'.isSome ∧
    ∀ field, field ≠ "_updated" → (r.bind (·.get? field)) = r'.bind (·.get? field)

def positionFields : List String := ["lat", "lon", "alt", "spd", "hdg", "acc", "ts"]

/-- Position, course, accuracy and time of the event are those of the payload. -/
structure PositionFrom (clock : Clock) (source : PyDict) (t : Track) : Prop where
  lat : (source.get "lat").numberToFloat = .ok t.lat
  lon : (source.get "lon").numberToFloat = .ok t.lon
  altM : optFloat (source.get "alt") = .ok t.altM
  speedMps : optFloat (source.get "spd") = .ok t.speedMps
  courseDeg : optFloat (source.get "hdg") = .ok t.courseDeg
  accuracyM : optFloat (source.get "acc") = .ok t.accuracyM
  time : timeOf clock source = .ok t.time

/-- The record after the deliveries is the one that the last location and the last
state build. -/
def RecordRebuilt (cfg : TakBridgeConfig) (num : Numerals) (nodeId : PyVal)
    (ds : List Delivery) : Prop :=
  SameRecord (recordAfter cfg num nodeId ds) (recordAfter cfg num nodeId (finals ds))

/-- An event of the record after the deliveries, sent at once or by a later heartbeat,
shows one and the same location. -/
def TrackOfOne (cfg : TakBridgeConfig) (num : Numerals) (nodeId : PyVal)
    (ds : List Delivery) : Prop :=
  ∀ clock t,
    publishOne cfg clock (nodeId.toStr num)
        (received cfg (ds.map (Delivery.message num nodeId))) = .ok [.track t] →
      ∃ d ∈ ds, d.2.isLocation ∧ PositionFrom clock (d.2.payload nodeId) t

/-- After each of the deliveries the record is the one rebuilt, and so is what the
bridge sends of it until the next one. -/
structure Rebuilds (cfg : TakBridgeConfig) (num : Numerals) (nodeId : PyVal)
    (ds : List Delivery) : Prop where
  record : ∀ pre, pre <+: ds → RecordRebuilt cfg num nodeId pre
  track : ∀ pre, pre <+: ds → TrackOfOne cfg num nodeId pre

/-- No value of an earlier report outlives the last location and the last state. -/
def Current (nodeId : PyVal) (ds : List Delivery) : Prop :=
  ∀ field, lastCarrying nodeId field (finals ds) = lastCarrying nodeId field ds

theorem handle_dict {cfg : TakBridgeConfig} {clock : Clock} {topic : String}
    {kvs : List (String × PyVal)} {b : Bridge} :
    (JsonMessage.handle cfg ⟨clock, topic, .dict kvs⟩ b).bridge =
      (ingest clock.time topic (PyDict.ofPairs kvs) b).getD b := by
  rw [JsonMessage.handle, handleMqttMessage]
  cases hin : ingest clock.time topic (PyDict.ofPairs kvs) b with
  | none => simp [hin]
  | some b' =>
      simp only [hin, publishChange, Option.getD_some]
      cases publishOne cfg clock (keyFor topic) b' <;> rfl

theorem mergeState_field {now : ℚ} {key : String} {data : PyDict} {kind : String} {b : Bridge}
    {field : String} (h : field ≠ "_updated") :
    ((mergeState now key data kind b).state.get? key).bind (·.get? field) =
      ((data.get? field).filter fun v ↦ !v.isNone).or
        (((b.state.get? key).getD (Dict.set .empty "_kind" (.str kind))).get? field) := by
  rw [mergeState, Dict.get?_set_self, Option.bind_some, Dict.get?_set_ne _ h]
  exact Dict.get?_update_filter _ data (fun v ↦ !v.isNone) field

theorem compactJson_present {d : List (String × PyVal)} {kv : String × PyVal}
    (h : kv ∈ compactJson d) : kv.2.isNone = false := by
  simpa using (List.mem_filter.mp h).2

theorem carries_present {nodeId : PyVal} {field : String} {r : NodeReport} :
    (r.carries nodeId field).filter (fun v ↦ !v.isNone) = r.carries nodeId field := by
  cases hcarries : r.carries nodeId field with
  | none => rfl
  | some v =>
      rw [NodeReport.carries, NodeReport.payload, PyDict.ofPairs, Dict.get?_update, Dict.get?_empty,
        Option.or_none, Option.map_eq_some_iff] at hcarries
      obtain ⟨kv, hkv, rfl⟩ := hcarries
      have hmem := List.mem_of_mem_filter (List.mem_of_getLast? hkv)
      simp [compactJson_present hmem]

section Records

variable {cfg : TakBridgeConfig} {num : Numerals} {nodeId : PyVal}

theorem received_snoc {msgs : List JsonMessage} {m : JsonMessage} :
    received cfg (msgs ++ [m]) = (m.handle cfg (received cfg msgs)).bridge := by
  rw [received, received, List.foldl_append]
  rfl

theorem message_state {d : Delivery} {b : Bridge} (hlevel : IsLevel (nodeId.toStr num)) :
    ((d.message num nodeId).handle cfg b).bridge.state =
      (mergeState d.1.time (nodeId.toStr num) (d.2.payload nodeId) "node" b).state := by
  obtain ⟨clock, r⟩ := d
  rw [Delivery.message, handle_dict]
  cases r with
  | location fix source rssi snr =>
      rw [NodeReport.topic, ingest_location, if_pos hlevel]
      rfl
  | state lastSeen ageS online locTs batPct rssi snr =>
      rw [NodeReport.topic, ingest_state, if_pos hlevel]
      exact updateOfflineTracking_state

theorem message_unknown {d : Delivery} {b : Bridge} (hlevel : ¬ IsLevel (nodeId.toStr num)) :
    ((d.message num nodeId).handle cfg b).bridge = b := by
  obtain ⟨clock, r⟩ := d
  rw [Delivery.message, handle_dict]
  cases r with
  | location fix source rssi snr => rw [NodeReport.topic, ingest_location, if_neg hlevel]; rfl
  | state lastSeen ageS online locTs batPct rssi snr =>
      rw [NodeReport.topic, ingest_state, if_neg hlevel]
      rfl

theorem lastCarrying_snoc {field : String} {ds : List Delivery} {d : Delivery} :
    lastCarrying nodeId field (ds ++ [d]) =
      (d.2.carries nodeId field).or (lastCarrying nodeId field ds) := by
  rw [lastCarrying, lastCarrying, List.filterMap_append]
  cases h : d.2.carries nodeId field with
  | none => simp [h]
  | some v => simp [h]

/-- The record holds the newest value of every field. -/
theorem recordAfter_field (hlevel : IsLevel (nodeId.toStr num)) (ds : List Delivery)
    {field : String} (h : field ≠ "_updated") :
    (recordAfter cfg num nodeId ds).isSome = !ds.isEmpty ∧
      (recordAfter cfg num nodeId ds).bind (·.get? field) =
        (lastCarrying nodeId field ds).or
          (if field = "_kind" ∧ ds ≠ [] then some (.str "node") else none) := by
  induction ds using List.reverseRecOn with
  | nil => simp [recordAfter, received, init, lastCarrying]
  | append_singleton ds d ih =>
      obtain ⟨hsome, hfield⟩ := ih
      have hstate : (received cfg ((ds ++ [d]).map (Delivery.message num nodeId))).state =
          (mergeState d.1.time (nodeId.toStr num) (d.2.payload nodeId) "node"
            (received cfg (ds.map (Delivery.message num nodeId)))).state := by
        rw [List.map_append, List.map_singleton, received_snoc, message_state hlevel]
      refine ⟨?_, ?_⟩
      · rw [recordAfter, hstate, mergeState, Dict.get?_set_self]
        simp
      · rw [recordAfter, hstate, mergeState_field h, lastCarrying_snoc, Option.or_assoc]
        have hcarried : ((d.2.payload nodeId).get? field).filter (fun v ↦ !v.isNone) =
            d.2.carries nodeId field := carries_present
        rw [hcarried]
        congr 1
        cases hrecord : recordAfter cfg num nodeId ds with
        | some record =>
            rw [hrecord] at hsome hfield
            have hne : ds ≠ [] := by
              rintro rfl
              cases hsome
            rw [show (received cfg _).state.get? _ = some record from hrecord, Option.getD_some]
            simpa [hne] using hfield
        | none =>
            rw [hrecord] at hsome
            have hnil : ds = [] := by simpa using hsome
            subst hnil
            rw [show (received cfg _).state.get? _ = none from hrecord, Option.getD_none,
              Dict.get?_set, Dict.get?_empty]
            simp [lastCarrying]

theorem lastCarrying_cons {field : String} {d : Delivery} {ds : List Delivery} :
    lastCarrying nodeId field (d :: ds) =
      (lastCarrying nodeId field ds).or (d.2.carries nodeId field) := by
  rw [lastCarrying, lastCarrying]
  cases h : d.2.carries nodeId field with
  | none => simp [h]
  | some v => simp [h, List.getLast?_cons, Option.or_some]

theorem carries_eq_none {field : String} {r : NodeReport}
    (h : field ∉ (r.body nodeId).map Prod.fst) : r.carries nodeId field = none := by
  have hnil : (compactJson (r.body nodeId)).filter (fun kv ↦ decide (kv.1 = field)) = [] := by
    rw [List.filter_eq_nil_iff]
    intro kv hkv hfield
    exact h (List.mem_map.mpr ⟨kv, (List.mem_filter.mp hkv).1, of_decide_eq_true hfield⟩)
  rw [NodeReport.carries, NodeReport.payload, PyDict.ofPairs, Dict.get?_update, hnil]
  rfl

theorem lastCarrying_eq_none {field : String} {ds : List Delivery}
    (h : ∀ d ∈ ds, d.2.carries nodeId field = none) : lastCarrying nodeId field ds = none := by
  rw [lastCarrying, List.filterMap_eq_nil_iff.mpr h]
  rfl

theorem finals_eq_nil {ds : List Delivery} : finals ds = [] ↔ ds = [] := by
  induction ds with
  | nil => simp [finals]
  | cons d rest ih =>
      rw [finals]
      split
      · rename_i hany
        have hne : rest ≠ [] := by
          rintro rfl
          cases hany
        simp [ih, hne]
      · simp

/-- No report has one of the bridge's own fields. -/
theorem carries_own {field : String} (h : field = "_kind" ∨ field = "_updated")
    (r : NodeReport) : r.carries nodeId field = none := by
  apply carries_eq_none
  rcases h with rfl | rfl <;> cases r <;> simp [NodeReport.body]

theorem carries_state {field : String} (h : field ∈ positionFields) {r : NodeReport}
    (hr : r.isLocation = false) : r.carries nodeId field = none := by
  apply carries_eq_none
  cases r with
  | location => cases hr
  | state =>
      simp only [positionFields, List.mem_cons, List.not_mem_nil, or_false] at h
      rcases h with rfl | rfl | rfl | rfl | rfl | rfl | rfl <;> simp [NodeReport.body]

/-- The two last reports have their position from the location. -/
theorem lastCarrying_finals {field : String} (h : field ∈ positionFields) (ds : List Delivery) :
    lastCarrying nodeId field (finals ds) =
      (ds.filter (·.2.isLocation)).getLast?.bind (·.2.carries nodeId field) := by
  induction ds with
  | nil => rfl
  | cons d rest ih =>
      rw [finals]
      cases hd : d.2.isLocation with
      | false =>
          have hskip : lastCarrying nodeId field (d :: finals rest) =
              lastCarrying nodeId field (finals rest) := by
            rw [lastCarrying_cons, carries_state h hd, Option.or_none]
          split <;> simp [hskip, ih, hd]
      | true =>
          have hkeep : (d :: rest).filter (·.2.isLocation) = d :: rest.filter (·.2.isLocation) :=
            List.filter_cons_of_pos hd
          rw [hkeep]
          split
          · rename_i hany
            rw [ih]
            obtain ⟨d', hd', heq⟩ := List.any_eq_true.mp hany
            have hne : rest.filter (·.2.isLocation) ≠ [] := by
              intro hnil
              have hnot := List.filter_eq_nil_iff.mp hnil d' hd'
              exact hnot (by simpa using heq)
            rw [List.getLast?_cons, List.getLast?_eq_some_getLast hne]
            rfl
          · rename_i hany
            have hnil : rest.filter (·.2.isLocation) = [] := by
              rw [List.filter_eq_nil_iff]
              intro d' hd' hloc
              exact hany (List.any_eq_true.mpr ⟨d', hd', by simp [hloc]⟩)
            rw [lastCarrying_cons, ih, hnil]
            simp

theorem sameRecord_iff (hlevel : IsLevel (nodeId.toStr num)) (ds : List Delivery) :
    RecordRebuilt cfg num nodeId ds ↔ Current nodeId ds := by
  have hempty : ds.isEmpty = (finals ds).isEmpty := by
    rw [Bool.eq_iff_iff, List.isEmpty_iff, List.isEmpty_iff, finals_eq_nil]
  constructor
  · rintro ⟨_, hfields⟩ field
    by_cases hown : field = "_kind" ∨ field = "_updated"
    · rw [lastCarrying_eq_none fun d _ ↦ carries_own hown d.2,
        lastCarrying_eq_none fun d _ ↦ carries_own hown d.2]
    · obtain ⟨hkind, hupdated⟩ := not_or.mp hown
      have hfield := hfields field hupdated
      rw [(recordAfter_field hlevel ds hupdated).2,
        (recordAfter_field hlevel (finals ds) hupdated).2]
        at hfield
      simpa [hkind] using hfield.symm
  · intro hall
    have hkind : "_kind" ≠ "_updated" := by decide
    refine ⟨?_, fun field hupdated ↦ ?_⟩
    · rw [(recordAfter_field hlevel ds hkind).1, (recordAfter_field hlevel (finals ds) hkind).1,
        hempty]
    · rw [(recordAfter_field hlevel ds hupdated).2,
        (recordAfter_field hlevel (finals ds) hupdated).2,
        hall field]
      simp only [ne_eq, finals_eq_nil]

theorem recordAfter_unknown (hlevel : ¬ IsLevel (nodeId.toStr num)) (ds : List Delivery) :
    recordAfter cfg num nodeId ds = none := by
  have hinit : received cfg (ds.map (Delivery.message num nodeId)) = init := by
    induction ds using List.reverseRecOn with
    | nil => rfl
    | append_singleton ds d ih =>
        rw [List.map_append, List.map_singleton, received_snoc, message_unknown hlevel, ih]
  rw [recordAfter, hinit]
  rfl

theorem cotOf_position {clock : Clock} {key : String} {record : PyDict} {t : Track}
    (h : cotOf cfg clock key record = .ok (.track t)) : PositionFrom clock record t := by
  unfold cotOf at h
  obtain ⟨time, htime, h⟩ := except_bind_ok h
  obtain ⟨remarks, _, h⟩ := except_bind_ok h
  obtain ⟨lat, hlat, h⟩ := except_bind_ok h
  obtain ⟨lon, hlon, h⟩ := except_bind_ok h
  obtain ⟨alt, halt, h⟩ := except_bind_ok h
  obtain ⟨spd, hspd, h⟩ := except_bind_ok h
  obtain ⟨hdg, hhdg, h⟩ := except_bind_ok h
  obtain ⟨acc, hacc, h⟩ := except_bind_ok h
  obtain ⟨stale, _, h⟩ := except_bind_ok h
  cases h
  exact ⟨hlat, hlon, halt, hspd, hhdg, hacc, htime⟩

theorem PositionFrom.congr {clock : Clock} {record source : PyDict} {t : Track}
    (h : PositionFrom clock record t)
    (hsame : ∀ field ∈ positionFields, record.get field = source.get field) :
    PositionFrom clock source t := by
  obtain ⟨hlat, hlon, halt, hspd, hhdg, hacc, htime⟩ := h
  simp only [positionFields, List.forall_mem_cons, List.not_mem_nil, false_imp_iff, implies_true,
    and_true] at hsame
  obtain ⟨elat, elon, ealt, espd, ehdg, eacc, ets⟩ := hsame
  rw [timeOf, ets] at htime
  exact ⟨elat ▸ hlat, elon ▸ hlon, ealt ▸ halt, espd ▸ hspd, ehdg ▸ hhdg, eacc ▸ hacc, htime⟩

theorem recordRebuilt_iff (ds : List Delivery) : RecordRebuilt cfg num nodeId ds ↔
    ¬ IsLevel (nodeId.toStr num) ∨ Current nodeId ds := by
  by_cases hlevel : IsLevel (nodeId.toStr num)
  · rw [sameRecord_iff hlevel]
    exact ⟨.inr, fun h ↦ h.resolve_left (not_not.mpr hlevel)⟩
  · refine iff_of_true ?_ (.inl hlevel)
    rw [RecordRebuilt, recordAfter_unknown hlevel, recordAfter_unknown hlevel]
    exact ⟨rfl, fun _ _ ↦ rfl⟩

/-- A current record has its position from the last location. -/
theorem record_position (hlevel : IsLevel (nodeId.toStr num)) {ds : List Delivery}
    {record : PyDict} (hcurrent : Current nodeId ds)
    (hget : recordAfter cfg num nodeId ds = some record) {field : String}
    (hfield : field ∈ positionFields) :
    record.get? field =
      (ds.filter (·.2.isLocation)).getLast?.bind (·.2.carries nodeId field) := by
  have hne : field ≠ "_updated" ∧ field ≠ "_kind" := by
    simp only [positionFields, List.mem_cons, List.not_mem_nil, or_false] at hfield
    rcases hfield with rfl | rfl | rfl | rfl | rfl | rfl | rfl <;> decide
  have hrec : (recordAfter cfg num nodeId ds).bind (·.get? field) = _ :=
    (recordAfter_field hlevel ds hne.1).2
  rw [hget, Option.bind_some, ← hcurrent, lastCarrying_finals hfield] at hrec
  simpa [hne.2] using hrec

theorem trackOfOne_of_current (hlevel : IsLevel (nodeId.toStr num)) {ds : List Delivery}
    (hcurrent : Current nodeId ds) : TrackOfOne cfg num nodeId ds := by
  intro clock t hpublish
  cases hget : recordAfter cfg num nodeId ds with
  | none =>
      rw [publishOne, show (received cfg _).state.get? _ = none from hget] at hpublish
      cases hpublish
  | some record =>
      rw [publishOne, show (received cfg _).state.get? _ = some record from hget] at hpublish
      have hfield {field : String} (hf : field ∈ positionFields) :=
        record_position hlevel hcurrent hget hf
      simp only at hpublish
      split at hpublish
      · rename_i hpos
        cases hcot : cotOf cfg clock (nodeId.toStr num) record with
        | error err =>
            rw [hcot] at hpublish
            cases hpublish
        | ok cot =>
            rw [hcot] at hpublish
            cases hpublish
            have hposition := cotOf_position hcot
            cases hlast : (ds.filter (·.2.isLocation)).getLast? with
            | none =>
                have hlat : record.get "lat" = .none := by
                  rw [PyDict.get, hfield (by decide), hlast]
                  rfl
                rw [hasPosition, hlat] at hpos
                cases hpos
            | some d =>
                have hmem := List.mem_filter.mp (List.mem_of_getLast? hlast)
                refine ⟨d, hmem.1, hmem.2, hposition.congr fun field hf ↦ ?_⟩
                rw [PyDict.get, PyDict.get, hfield hf, hlast]
                rfl
      · cases hpublish

theorem trackOfOne_unknown (hlevel : ¬ IsLevel (nodeId.toStr num)) (ds : List Delivery) :
    TrackOfOne cfg num nodeId ds := by
  intro clock t hpublish
  rw [publishOne, show (received cfg _).state.get? _ = none from recordAfter_unknown hlevel ds]
    at hpublish
  cases hpublish

/-- The bridge's record is the one that the last location and the last state build just
when no value of an earlier report outlives them; and it is so after every delivery,
with events of one location each, just when none ever does. -/
theorem rebuilds_iff (cfg : TakBridgeConfig) (num : Numerals) (nodeId : PyVal)
    (ds : List Delivery) :
    (RecordRebuilt cfg num nodeId ds ↔ ¬ IsLevel (nodeId.toStr num) ∨ Current nodeId ds) ∧
      (Rebuilds cfg num nodeId ds ↔ ¬ IsLevel (nodeId.toStr num) ∨
        ∀ pre, pre <+: ds → Current nodeId pre) := by
  refine ⟨recordRebuilt_iff ds, fun h ↦ ?_, fun h ↦ ⟨fun pre hpre ↦ ?_, fun pre hpre ↦ ?_⟩⟩
  · by_cases hlevel : IsLevel (nodeId.toStr num)
    · exact .inr fun pre hpre ↦ (sameRecord_iff hlevel pre).mp (h.record pre hpre)
    · exact .inl hlevel
  · exact (recordRebuilt_iff pre).mpr (h.imp_right fun hcurrent ↦ hcurrent pre hpre)
  · rcases h with hlevel | hcurrent
    · exact trackOfOne_unknown hlevel pre
    · by_cases hlevel : IsLevel (nodeId.toStr num)
      · exact trackOfOne_of_current hlevel (hcurrent pre hpre)
      · exact trackOfOne_unknown hlevel pre

end Records

/-- A position without an altitude after one with an altitude. -/
def climbThenFix : List Delivery :=
  [(.epoch, .location { lat := .fin 1, lon := .fin 2, ts := .fin 10, alt := some (.fin 900) }
      "report" none none),
    (.epoch, .state (.fin 10) 0 true (.float (.fin 10)) .none none none),
    (.epoch, .location { lat := .fin 3, lon := .fin 4, ts := .fin 20 } "report" none none),
    (.epoch, .state (.fin 20) 0 true (.float (.fin 20)) .none none none)]

theorem altitude_outlives : ¬ ∀ cfg num nodeId ds, Rebuilds cfg num nodeId ds := by
  intro h
  have hlevel : IsLevel (PyVal.toStr .plain (.str "node-a")) := by decide
  have hrebuilt := (h {} .plain (.str "node-a") climbThenFix).record _ List.prefix_rfl
  have hall := (sameRecord_iff hlevel climbThenFix).mp hrebuilt "alt"
  have hnone : (lastCarrying (.str "node-a") "alt" (finals climbThenFix)).isSome = false := by
    decide +kernel
  have hsome : (lastCarrying (.str "node-a") "alt" climbThenFix).isSome = true := by
    decide +kernel
  rw [hall, hsome] at hnone
  cases hnone

end Bridge

end Tak

end MeshcoreRpc
