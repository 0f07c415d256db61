import MeshcoreRpc.Effects

/-!
# The state aggregator

`state.py`: each `apply_*` writes the database and then publishes, each read
goes to the database.
-/

namespace MeshcoreRpc

open Tables Coroutine Coro

def onlineThresholdS : ℚ := 300

/-- `_compact_json` -/
def compactJson (d : List (String × PyVal)) : List (String × PyVal) :=
  d.filter fun kv ↦ !kv.2.isNone

/-- `max(0, int(now - ts))` -/
def ageS (now : ℚ) (ts : PyVal) : Except PyExc ℤ := do
  let age ← (← ts.subFrom now).toInt
  return max 0 age

/-- `v or time.time()` -/
def orTime (v : PyVal) : Prog PyVal :=
  if v.truthy then pure v else do
    let now ← Prog.time
    return .float (.fin now)

theorem only_orTime (v : PyVal) : (orTime v).Only Eff.NodeSide := by
  unfold orTime
  split
  · exact True.intro
  · exact .bind (Prog.only_time.mpr trivial) fun _ ↦ True.intro

namespace StateAggregator

variable (num : Numerals)

def getNodeLocation (nodeId : PyVal) : Prog (Option (List (String × PyVal))) :=
  Prog.store (.getNodeLocation nodeId)

def getNodeBattery (nodeId : PyVal) : Prog (Option (List (String × PyVal))) :=
  Prog.store (.getNodeBattery nodeId)

def getBaseLocation : Prog (Option (List (String × PyVal))) :=
  Prog.store (.getBaseState "location")

def getNodeState (nodeId : PyVal) : Prog (Option (List (String × PyVal))) := do
  match ← (Prog.store (.getLastSeen nodeId) : Prog (Option PyFloat)) with
  | none => return none
  | some lastSeen =>
    let loc ← getNodeLocation nodeId
    let bat ← getNodeBattery nodeId
    let radio ← Prog.getRadio nodeId
    let now ← Prog.time
    let age ← .ofOutcome (ageS now (.float lastSeen))
    return some
      [("id", nodeId), ("last_seen", .float lastSeen), ("last_seen_age_s", .int age),
        ("online", .bool ((lastSeen.subFrom now).lt onlineThresholdS)),
        ("loc_ts", (loc.map (getKey · "ts")).getD .none),
        ("bat_pct", (bat.map (getKey · "pct")).getD .none),
        ("rssi", optInteger (radio.bind Radio.rssi)), ("snr", optReal (radio.bind Radio.snr))]

def republishState (nodeId : PyVal) : Prog Unit := do
  match ← getNodeState nodeId with
  | none => return ()
  | some st => Prog.publish (Topics.nodeStateTopic (nodeId.toStr num)) (compactJson st) true

/-- The radio metadata of a reception, when it has any. -/
def noteRadio (nodeId ts : PyVal) (rssi : Option ℤ) (snr : Option PyFloat) : Prog Unit :=
  if rssi.isSome ∨ snr.isSome then Prog.setRadio nodeId ⟨rssi, snr, ts⟩ else pure ()

def applySeen (nodeId ts : PyVal) (rssi : Option ℤ) (snr : Option PyFloat) : Prog Unit := do
  Prog.store (.markNodeSeen nodeId ts)
  noteRadio nodeId ts rssi snr
  republishState num nodeId

def applyLocation (nodeId : PyVal) (fix : LocationFix) (source : String) (rssi : Option ℤ)
    (snr : Option PyFloat) : Prog Unit := do
  Prog.store (.upsertNodeLocation nodeId fix (some source) rssi snr)
  Prog.store (.markNodeSeen nodeId (.float fix.ts))
  noteRadio nodeId (.float fix.ts) rssi snr
  Prog.publish (Topics.nodeLocationTopic (nodeId.toStr num))
    (compactJson
      [("id", nodeId), ("lat", .float fix.lat), ("lon", .float fix.lon), ("alt", optReal fix.alt),
        ("acc", optReal fix.acc), ("fix", optInteger fix.fix), ("spd", optReal fix.spd),
        ("hdg", optReal fix.hdg), ("ts", .float fix.ts), ("source", .str source),
        ("rssi", optInteger rssi), ("snr", optReal snr)]) true
  republishState num nodeId

def applyBattery (nodeId ts pct voltage : PyVal) (source : String) : Prog Unit := do
  Prog.store (.upsertNodeBattery nodeId ts pct voltage (.str source))
  Prog.store (.markNodeSeen nodeId ts)
  Prog.publish (Topics.nodeBatteryTopic (nodeId.toStr num))
    (compactJson
      [("id", nodeId), ("pct", pct), ("v", voltage), ("ts", ts), ("source", .str source)]) true
  republishState num nodeId

def baseBody (fix : LocationFix) (source : String) : List (String × PyVal) :=
  [("lat", .float fix.lat), ("lon", .float fix.lon), ("alt", optReal fix.alt),
    ("acc", optReal fix.acc), ("fix", optInteger fix.fix), ("ts", .float fix.ts),
    ("source", .str source)]

def applyBaseLocation (fix : LocationFix) (source : String) : Prog Unit := do
  Prog.store (.upsertBaseState "location" (baseBody fix source))
  Prog.publish Topics.baseLocation (compactJson (baseBody fix source)) true

/-! ## What the aggregator awaits -/

theorem only_noteRadio {nodeId ts : PyVal} {rssi : Option ℤ} {snr : Option PyFloat} :
    (noteRadio nodeId ts rssi snr).Only Eff.NodeSide := by
  unfold noteRadio
  split
  · exact Prog.only_setRadio.mpr trivial
  · exact True.intro

theorem reads_getNodeLocation {nodeId : PyVal} : (getNodeLocation nodeId).Only Eff.Reads :=
  Prog.only_store.mpr rfl

theorem reads_getBaseLocation : getBaseLocation.Only Eff.Reads := Prog.only_store.mpr rfl

theorem reads_getNodeState {nodeId : PyVal} : (getNodeState nodeId).Only Eff.Reads := by
  refine .bind (Prog.only_store.mpr rfl) fun seen ↦ ?_
  cases seen with
  | none => exact True.intro
  | some lastSeen =>
      refine .bind reads_getNodeLocation fun _ ↦ .bind (Prog.only_store.mpr rfl) fun _ ↦
        .bind (Prog.only_getRadio.mpr trivial) fun _ ↦ .bind (Prog.only_time.mpr trivial) fun _ ↦
        .bind (Only.ofOutcome_iff.mpr True.intro) fun _ ↦ True.intro

theorem only_republishState {nodeId : PyVal} :
    (republishState num nodeId).Only Eff.NodeSide := by
  refine .bind (reads_getNodeState.mono fun _ he ↦ he.nodeSide) fun st ↦ ?_
  cases st with
  | none => exact True.intro
  | some st => exact Prog.only_publish.mpr trivial

theorem only_applySeen {nodeId ts : PyVal} {rssi : Option ℤ} {snr : Option PyFloat} :
    (applySeen num nodeId ts rssi snr).Only Eff.NodeSide :=
  .bind (Prog.only_store.mpr ⟨rfl, rfl⟩) fun _ ↦ .bind only_noteRadio fun _ ↦
    only_republishState num

theorem only_applyLocation {nodeId : PyVal} {fix : LocationFix} {source : String}
    {rssi : Option ℤ} {snr : Option PyFloat} :
    (applyLocation num nodeId fix source rssi snr).Only Eff.NodeSide :=
  .bind (Prog.only_store.mpr ⟨rfl, rfl⟩) fun _ ↦ .bind (Prog.only_store.mpr ⟨rfl, rfl⟩) fun _ ↦
    .bind only_noteRadio fun _ ↦ .bind (Prog.only_publish.mpr trivial) fun _ ↦
    only_republishState num

theorem only_applyBattery {nodeId ts pct voltage : PyVal} {source : String} :
    (applyBattery num nodeId ts pct voltage source).Only Eff.NodeSide :=
  .bind (Prog.only_store.mpr ⟨rfl, rfl⟩) fun _ ↦ .bind (Prog.only_store.mpr ⟨rfl, rfl⟩) fun _ ↦
    .bind (Prog.only_publish.mpr trivial) fun _ ↦ only_republishState num

end StateAggregator

end MeshcoreRpc
