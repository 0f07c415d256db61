import MeshcoreRpc.Tak.Session

/-!
# The base apart from the nodes

Two runs side by side: with the messages about nodes and without them.
-/

namespace MeshcoreRpc.Tak

open Tables

namespace Stimulus

def isNode : Stimulus → Bool
  | message _ msg _ => Topics.startsWith msg.topic Bridge.nodePrefixSlash
  | heartbeat _ => false

/-- The id in the topic of a message about a node. -/
def IsAbout (id : String) : Stimulus → Prop
  | message _ msg _ =>
    msg.topic = Topics.nodeLocationTopic id ∨ msg.topic = Topics.nodeStateTopic id
  | heartbeat _ => False

instance (id : String) : DecidablePred (IsAbout id)
  | message _ msg _ => inferInstanceAs (Decidable (msg.topic = _ ∨ msg.topic = _))
  | heartbeat _ => inferInstanceAs (Decidable False)

end Stimulus

inductive Entity where
  | base
  | node (id : String)

def Entity.uid : Entity → String
  | base => Bridge.uidOf Bridge.baseKey
  | node id => Bridge.uidOf id

/-- The entities that the stimuli are about; the base is always one. -/
def Entity.Among (stimuli : List Stimulus) : Entity → Prop
  | base => True
  | node id => ∃ stimulus ∈ stimuli, stimulus.IsAbout id

namespace Session

variable (cfg : TakBridgeConfig)

def baseRecord (s : Session) : Option PyDict := s.bridge.state.get? Bridge.baseKey

/-- The events under the uid of the base. -/
def baseEvents (sent : List CotEvent) : List CotEvent :=
  sent.filter fun cot ↦ decide (cot.uid = Entity.base.uid)

/-- The messages about nodes leave no trace on the base. -/
structure BaseApart (stimuli : List Stimulus) : Prop where
  record : (run cfg stimuli).baseRecord =
    (run cfg (stimuli.filter fun stimulus ↦ !stimulus.isNode)).baseRecord
  events : baseEvents (run cfg stimuli).sent =
    baseEvents (run cfg (stimuli.filter fun stimulus ↦ !stimulus.isNode)).sent
  uids : ∀ e e' : Entity, e.Among stimuli → e'.Among stimuli → e.uid = e'.uid → e = e'

/-- Nothing that a node's record holds stops a pass of the heartbeat. -/
structure NodesSound (clock : Clock) (b : Bridge) : Prop where
  dropped : ∀ key, key ≠ Bridge.baseKey → key ∈ Bridge.due cfg clock b → Bridge.Droppable b key
  shown : ∀ key, key ≠ Bridge.baseKey → key ∉ Bridge.due cfg clock b →
    Bridge.PresentableAt cfg clock b key

/-- The stimulus names no node after the base, and meets node records that can be
presented. -/
def Harmless (s : Session) (stimulus : Stimulus) : Prop :=
  (∀ id, stimulus.IsAbout id → id ≠ Bridge.baseKey ∧ id ≠ "base") ∧
    ∀ clock, stimulus = .heartbeat clock → s.beating → NodesSound cfg clock s.bridge

end Session

namespace Bridge

theorem uidOf_eq_base {key : String} :
    uidOf key = Entity.base.uid ↔ key = baseKey ∨ key = "base" := by
  have hbase : Entity.base.uid = "meshcore." ++ "base" := rfl
  by_cases hkey : key = baseKey
  · simp [hkey, Entity.uid]
  · rw [uidOf, if_neg hkey, hbase, String.append_right_inj, or_iff_right hkey]

theorem uidOf_injective {key key' : String} (h : key ≠ baseKey) (h' : key' ≠ baseKey)
    (heq : uidOf key = uidOf key') : key = key' := by
  simpa [uidOf, h, h'] using heq

section Messages

variable {cfg : TakBridgeConfig} {clock : Clock}

theorem mergeState_get? {now : ℚ} {key key' : String} {data : PyDict} {kind : String} {b : Bridge}
    (h : key' ≠ key) : (mergeState now key data kind b).state.get? key' = b.state.get? key' :=
  Dict.get?_set_ne _ h _

theorem updateOfflineTracking_get? {now : ℚ} {key key' : String} {data : PyDict} {b : Bridge}
    (h : key' ≠ key) :
    (updateOfflineTracking now key data b).offlineSince.get? key' = b.offlineSince.get? key' := by
  unfold updateOfflineTracking
  split
  · rw [Dict.get?_erase, if_neg h]
  · split
    · rfl
    · rw [Dict.get?_set_ne _ h]
  · rfl

/-- A message touches the entry of its own entity only. -/
theorem ingest_get? {now : ℚ} {topic : String} {data : PyDict} {b b' : Bridge}
    (hsub : Subscribed topic) (h : ingest now topic data b = some b') {key : String}
    (hkey : key ≠ keyFor topic) :
    b'.state.get? key = b.state.get? key ∧ b'.offlineSince.get? key = b.offlineSince.get? key := by
  cases hsub with
  | base =>
      rw [ingest_base, Option.some.injEq] at h
      rw [← h]
      exact ⟨mergeState_get? hkey, rfl⟩
  | location id hlevel =>
      rw [keyFor_location hlevel] at hkey
      rw [ingest_location, if_pos hlevel, Option.some.injEq] at h
      rw [← h]
      exact ⟨mergeState_get? hkey, rfl⟩
  | state id hlevel =>
      rw [keyFor_state hlevel] at hkey
      rw [ingest_state, if_pos hlevel, Option.some.injEq] at h
      rw [← h, updateOfflineTracking_state, updateOfflineTracking_get? hkey]
      exact ⟨mergeState_get? hkey, rfl⟩

theorem publishChange_bridge {topic : String} {b : Bridge} :
    (publishChange cfg clock topic b).bridge = b := by
  rw [publishChange]
  cases publishOne cfg clock (keyFor topic) b <;> rfl

theorem publishChange_uid {topic : String} {b : Bridge} :
    ∀ cot ∈ (publishChange cfg clock topic b).sent, cot.uid = uidOf (keyFor topic) := by
  rw [publishChange]
  cases h : publishOne cfg clock (keyFor topic) b with
  | error err => simp
  | ok sent => exact publishOne_uid h

/-- A message either says nothing, or is ingested and published. -/
theorem handle_cases (cfg : TakBridgeConfig) (clock : Clock) (msg : MqttMessage) (b : Bridge) :
    ((handleMqttMessage cfg clock msg b).bridge = b ∧
        (handleMqttMessage cfg clock msg b).sent = []) ∨
      ∃ kvs b', msg.payload = .ok (.dict kvs) ∧
        ingest clock.time msg.topic (PyDict.ofPairs kvs) b = some b' ∧
        handleMqttMessage cfg clock msg b = publishChange cfg clock msg.topic b' := by
  rw [handleMqttMessage]
  split
  · rename_i kvs hpayload
    split
    · rename_i b' hin
      exact .inr ⟨kvs, b', hpayload, hin, rfl⟩
    · exact .inl ⟨rfl, rfl⟩
  · exact .inl ⟨rfl, rfl⟩
  · split <;> exact .inl ⟨rfl, rfl⟩

theorem handle_get? (cfg : TakBridgeConfig) (clock : Clock) {msg : MqttMessage} (b : Bridge)
    (hsub : Subscribed msg.topic) {key : String} (hkey : key ≠ keyFor msg.topic) :
    (handleMqttMessage cfg clock msg b).bridge.state.get? key = b.state.get? key ∧
      (handleMqttMessage cfg clock msg b).bridge.offlineSince.get? key =
        b.offlineSince.get? key := by
  rcases handle_cases cfg clock msg b with ⟨hb, _⟩ | ⟨kvs, b', _, hin, heq⟩
  · rw [hb]
    exact ⟨rfl, rfl⟩
  · rw [heq, publishChange_bridge]
    exact ingest_get? hsub hin hkey

theorem handle_uid {msg : MqttMessage} {b : Bridge} :
    ∀ cot ∈ (handleMqttMessage cfg clock msg b).sent, cot.uid = uidOf (keyFor msg.topic) := by
  rcases handle_cases cfg clock msg b with ⟨_, hsent⟩ | ⟨kvs, b', _, _, heq⟩
  · simp [hsent]
  · rw [heq]
    exact publishChange_uid

theorem handle_base (cfg : TakBridgeConfig) (clock : Clock) {msg : MqttMessage} {b b' : Bridge}
    (htopic : msg.topic = Topics.baseLocation)
    (h : b.state.get? baseKey = b'.state.get? baseKey) :
    (handleMqttMessage cfg clock msg b).sent = (handleMqttMessage cfg clock msg b').sent ∧
      (handleMqttMessage cfg clock msg b).bridge.state.get? baseKey =
        (handleMqttMessage cfg clock msg b').bridge.state.get? baseKey ∧
      (handleMqttMessage cfg clock msg b).bridge.offlineSince = b.offlineSince := by
  have hkey : keyFor Topics.baseLocation = baseKey := if_pos rfl
  obtain ⟨topic, payload⟩ := msg
  subst htopic
  cases payload with
  | error err =>
      simp only [handleMqttMessage]
      split
      · exact ⟨rfl, h, rfl⟩
      · exact ⟨rfl, h, rfl⟩
  | ok v =>
      cases v with
      | dict kvs =>
          have hmerged : (mergeState clock.time baseKey (PyDict.ofPairs kvs) "base" b).state.get?
              baseKey = (mergeState clock.time baseKey (PyDict.ofPairs kvs) "base" b').state.get?
              baseKey := by
            rw [mergeState, mergeState, Dict.get?_set_self, Dict.get?_set_self, h]
          simp only [handleMqttMessage, ingest_base, publishChange_bridge]
          refine ⟨?_, hmerged, rfl⟩
          rw [publishChange, publishChange, hkey, publishOne_congr hmerged]
          cases publishOne cfg clock baseKey _ <;> rfl
      | _ => exact ⟨rfl, h, rfl⟩

end Messages

/-! ## A pass of the heartbeat -/

/-- No node goes by a name of the base. -/
structure Reserved (b : Bridge) : Prop where
  never : b.offlineSince.get? baseKey = none
  named : b.state.get? "base" = none
  namedSince : b.offlineSince.get? "base" = none

section Heartbeat

open Session

variable {cfg : TakBridgeConfig} {clock : Clock} {b : Bridge}

/-- The events of nodes are none of the base. -/
theorem baseEvents_nodes {ids : List String} {sent : List CotEvent}
    (hids : ∀ id ∈ ids, id ≠ baseKey ∧ id ≠ "base")
    (huid : ∀ cot ∈ sent, ∃ id ∈ ids, cot.uid = uidOf id) : baseEvents sent = [] := by
  rw [baseEvents, List.filter_eq_nil_iff]
  intro cot hcot hbase
  obtain ⟨id, hid, heq⟩ := huid cot hcot
  rcases uidOf_eq_base.mp (heq.symm.trans (of_decide_eq_true hbase)) with h | h
  · exact (hids id hid).1 h
  · exact (hids id hid).2 h

theorem baseEvents_node {key : String} {sent : List CotEvent}
    (h : ∀ cot ∈ sent, cot.uid = uidOf key)
    (hkey : key ≠ baseKey) (hnamed : key ≠ "base") : baseEvents sent = [] := by
  refine baseEvents_nodes (fun id hid ↦ ?_)
    fun cot hcot ↦ ⟨key, List.mem_singleton_self key, h cot hcot⟩
  rw [List.mem_singleton.mp hid]
  exact ⟨hkey, hnamed⟩

theorem baseEvents_base {sent : List CotEvent} (h : ∀ cot ∈ sent, cot.uid = uidOf baseKey) :
    baseEvents sent = sent := by
  rw [baseEvents, List.filter_eq_self]
  intro cot hcot
  exact decide_eq_true (h cot hcot)

theorem baseEvents_append (sent sent' : List CotEvent) :
    baseEvents (sent ++ sent') = baseEvents sent ++ baseEvents sent' := List.filter_append ..

/-- Among sound nodes the base is published as if it were alone. -/
theorem publishKeys_base {keys : List String} (hnodup : keys.Nodup) (hnamed : "base" ∉ keys)
    (hsound : ∀ key ∈ keys, key ≠ baseKey → PresentableAt cfg clock b key) :
    (baseEvents (publishKeys cfg clock b keys).1, (publishKeys cfg clock b keys).2) =
      if baseKey ∈ keys then publishKeys cfg clock b [baseKey] else ([], .ok ()) := by
  induction keys with
  | nil => rfl
  | cons key rest ih =>
      obtain ⟨hnew, hrest⟩ := List.nodup_cons.mp hnodup
      have hih := ih hrest (fun h ↦ hnamed (List.mem_cons_of_mem _ h))
        fun k hk ↦ hsound k (List.mem_cons_of_mem _ hk)
      by_cases hkey : key = baseKey
      · subst hkey
        rw [if_neg hnew, Prod.mk.injEq] at hih
        rw [if_pos List.mem_cons_self]
        simp only [publishKeys]
        cases hone : publishOne cfg clock baseKey b with
        | error err => rfl
        | ok sent =>
            simp only [baseEvents_append, hih.1, hih.2, List.append_nil]
            rw [baseEvents_base (publishOne_uid hone)]
      · obtain ⟨sent, hone⟩ := publishOne_ok_iff.mpr (hsound key List.mem_cons_self hkey)
        have hnone := baseEvents_node (publishOne_uid hone) hkey
          (fun h ↦ hnamed (h ▸ List.mem_cons_self))
        rw [publishKeys, hone]
        simp only [baseEvents_append, hnone, List.nil_append, hih, List.mem_cons, Ne.symm hkey,
          false_or]

theorem Reserved.not_due (hreserved : Reserved b) {key : String} (h : key ∈ due cfg clock b) :
    key ≠ baseKey ∧ key ≠ "base" := by
  have hsince := due_offline h
  refine ⟨fun heq ↦ ?_, fun heq ↦ ?_⟩
  · rw [heq, hreserved.never] at hsince
    cases hsince
  · rw [heq, hreserved.namedSince] at hsince
    cases hsince

/-- What is published of the base depends on its record only. -/
theorem publishKeys_alone {b' : Bridge} (h : b'.state.get? baseKey = b.state.get? baseKey) :
    (if baseKey ∈ b'.state.keys then publishKeys cfg clock b' [baseKey] else ([], .ok ())) =
      publishKeys cfg clock b [baseKey] := by
  simp only [publishKeys, publishOne_congr h]
  split
  · rfl
  · rename_i hmem
    have hnone : b.state.get? baseKey = none := by
      rw [← h]
      by_contra hsome
      obtain ⟨record, hget⟩ := Option.ne_none_iff_exists'.mp hsome
      exact hmem (Dict.mem_keys.mpr ⟨record, hget⟩)
    rw [publishOne, hnone]
    rfl

/-- A pass over sound nodes shows the base as if it were alone. -/
theorem heartbeat_base (hreserved : Reserved b) (hsound : NodesSound cfg clock b) :
    baseEvents (heartbeat cfg clock b).sent = (publishKeys cfg clock b [baseKey]).1 ∧
      (heartbeat cfg clock b).outcome = (publishKeys cfg clock b [baseKey]).2 ∧
      (∀ key, (heartbeat cfg clock b).bridge.state.get? key =
        if key ∈ due cfg clock b then none else b.state.get? key) ∧
      ∀ key, (heartbeat cfg clock b).bridge.offlineSince.get? key =
        if key ∈ due cfg clock b then none else b.offlineSince.get? key := by
  have hdue (key : String) (hkey : key ∈ due cfg clock b) := hreserved.not_due hkey
  obtain ⟨hok, hstate, hsince, huid⟩ := evictNodes_ok cfg clock fun key hkey ↦
    hsound.dropped key (hdue key hkey).1 hkey
  rw [← evictLongOffline_eq] at hok hstate hsince huid
  generalize hevicted : evictLongOffline cfg clock b = evicted at hok hstate hsince huid
  have hdrops : baseEvents evicted.sent = [] := baseEvents_nodes hdue huid
  have hrecord : evicted.bridge.state.get? baseKey = b.state.get? baseKey := by
    rw [hstate, if_neg fun h ↦ (hdue baseKey h).1 rfl]
  have hnamed : "base" ∉ evicted.bridge.state.keys := by
    intro h
    obtain ⟨record, hget⟩ := Dict.mem_keys.mp h
    rw [hstate, hreserved.named, ite_self] at hget
    cases hget
  have hkept (key : String) (hne : key ≠ baseKey) :
      PresentableAt cfg clock evicted.bridge key := by
    intro record hget hpos
    rw [hstate] at hget
    split at hget
    · cases hget
    · rename_i hstays
      exact hsound.shown key hne hstays record hget hpos
  have hpass : (baseEvents (publishKeys cfg clock evicted.bridge evicted.bridge.state.keys).1,
      (publishKeys cfg clock evicted.bridge evicted.bridge.state.keys).2) =
      publishKeys cfg clock b [baseKey] :=
    (publishKeys_base evicted.bridge.state.nodup hnamed fun key _ hne ↦ hkept key hne).trans
      (publishKeys_alone hrecord)
  simp only [heartbeat, hevicted, hok, republishAll, baseEvents_append, hdrops, List.nil_append]
  obtain ⟨hevents, houtcome⟩ := Prod.ext_iff.mp hpass
  exact ⟨hevents, houtcome, hstate, hsince⟩

end Heartbeat

end Bridge

/-! ## The two runs -/

namespace Session

open Bridge

variable {cfg : TakBridgeConfig} {s r : Session}

/-- The run `s` with the nodes and the run `r` without them. -/
structure Apart (s r : Session) : Prop where
  record : s.baseRecord = r.baseRecord
  events : baseEvents s.sent = baseEvents r.sent
  beating : s.beating = r.beating
  reserved : s.bridge.Reserved
  alone : ∀ key, key ≠ baseKey → r.bridge.state.get? key = none
  online : ∀ key, r.bridge.offlineSince.get? key = none

theorem Apart.reserved_alone (h : Apart s r) : r.bridge.Reserved :=
  ⟨h.online _, h.alone _ (by decide), h.online _⟩

theorem Apart.sound_alone (cfg : TakBridgeConfig) (clock : Clock) (h : Apart s r) :
    NodesSound cfg clock r.bridge := by
  refine ⟨fun key hkey _ record hget ↦ ?_, fun key hkey _ record hget ↦ ?_⟩
  · rw [h.alone key hkey] at hget
    cases hget
  · rw [h.alone key hkey] at hget
    cases hget

theorem Apart.base {clock : Clock} {msg : MqttMessage} {hsub : Subscribed msg.topic}
    (h : Apart s r) (htopic : msg.topic = Topics.baseLocation) :
    Apart (s.step cfg (.message clock msg hsub)) (r.step cfg (.message clock msg hsub)) := by
  have hkey : keyFor msg.topic = baseKey := if_pos htopic
  obtain ⟨hsent, hrecord, hsince⟩ := handle_base cfg clock htopic h.record
  obtain ⟨_, _, hsince'⟩ := handle_base cfg clock htopic h.record.symm
  have hother (b : Bridge) (key : String) (hne : key ≠ baseKey) :=
    (handle_get? cfg clock b hsub (hkey.symm ▸ hne)).1
  refine ⟨hrecord, ?_, h.beating, ⟨?_, ?_, ?_⟩, fun key hne ↦ ?_, fun key ↦ ?_⟩
  · simp only [step, baseEvents_append, h.events, hsent]
  · simp only [step, hsince, h.reserved.never]
  · simp only [step, hother s.bridge "base" (by decide), h.reserved.named]
  · simp only [step, hsince, h.reserved.namedSince]
  · simp only [step, hother r.bridge key hne, h.alone key hne]
  · simp only [step, hsince', h.online key]

theorem Apart.node {clock : Clock} {msg : MqttMessage} {hsub : Subscribed msg.topic}
    (h : Apart s r) (hbase : keyFor msg.topic ≠ baseKey) (hnamed : keyFor msg.topic ≠ "base") :
    Apart (s.step cfg (.message clock msg hsub)) r := by
  have hother (key : String) (hne : key ≠ keyFor msg.topic) :=
    handle_get? cfg clock s.bridge hsub hne
  have hsent : baseEvents (handleMqttMessage cfg clock msg s.bridge).sent = [] :=
    baseEvents_node handle_uid hbase hnamed
  refine ⟨?_, ?_, h.beating, ⟨?_, ?_, ?_⟩, h.alone, h.online⟩
  · simp only [step, baseRecord, (hother baseKey (Ne.symm hbase)).1]
    exact h.record
  · simp only [step, baseEvents_append, hsent, List.append_nil, h.events]
  · simp only [step, (hother baseKey (Ne.symm hbase)).2, h.reserved.never]
  · simp only [step, (hother "base" (Ne.symm hnamed)).1, h.reserved.named]
  · simp only [step, (hother "base" (Ne.symm hnamed)).2, h.reserved.namedSince]

theorem Apart.heartbeat {clock : Clock} (h : Apart s r)
    (hsound : s.beating → NodesSound cfg clock s.bridge) :
    Apart (s.step cfg (.heartbeat clock)) (r.step cfg (.heartbeat clock)) := by
  cases hbeating : s.beating with
  | false =>
      have hs : s.step cfg (.heartbeat clock) = s := by simp [step, hbeating]
      have hr : r.step cfg (.heartbeat clock) = r := by simp [step, ← h.beating, hbeating]
      rw [hs, hr]
      exact h
  | true =>
      obtain ⟨hevents, houtcome, hstate, hsince⟩ := heartbeat_base h.reserved (hsound hbeating)
      obtain ⟨hevents', houtcome', hstate', hsince'⟩ :=
        heartbeat_base h.reserved_alone (h.sound_alone cfg clock)
      have hone : publishOne cfg clock baseKey s.bridge = publishOne cfg clock baseKey r.bridge :=
        publishOne_congr h.record
      have hkeys : publishKeys cfg clock s.bridge [baseKey] =
          publishKeys cfg clock r.bridge [baseKey] := by
        simp only [publishKeys, hone]
      have hdue (b : Bridge) (hb : b.offlineSince.get? baseKey = none) :
          baseKey ∉ due cfg clock b := by
        intro hmem
        have := due_offline hmem
        rw [hb] at this
        cases this
      simp only [step, hbeating, ← h.beating, if_true]
      refine ⟨?_, ?_, ?_, ⟨?_, ?_, ?_⟩, fun key hne ↦ ?_, fun key ↦ ?_⟩
      · simp only [baseRecord, hstate, hstate', if_neg (hdue _ h.reserved.never),
          if_neg (hdue _ (h.online _))]
        exact h.record
      · simp only [baseEvents_append, hevents, hevents', hkeys, h.events]
      · simp only [houtcome, houtcome', hkeys]
      · simp only [hsince, h.reserved.never, ite_self]
      · simp only [hstate, h.reserved.named, ite_self]
      · simp only [hsince, h.reserved.namedSince, ite_self]
      · simp only [hstate', h.alone key hne, ite_self]
      · simp only [hsince', h.online key, ite_self]

theorem node_topic {topic : String} (h : Subscribed topic)
    (hnode : Topics.startsWith topic nodePrefixSlash = true) :
    topic = Topics.nodeLocationTopic (keyFor topic) ∨
      topic = Topics.nodeStateTopic (keyFor topic) := by
  cases h with
  | base => exact absurd hnode (by decide)
  | location id hlevel =>
      rw [keyFor_location hlevel]
      exact .inl rfl
  | state id hlevel =>
      rw [keyFor_state hlevel]
      exact .inr rfl

theorem base_topic {topic : String} (h : Subscribed topic)
    (hnode : Topics.startsWith topic nodePrefixSlash = false) : topic = Topics.baseLocation := by
  have hstarts (id suffix : String) :
      Topics.startsWith (nodePrefixSlash ++ id ++ suffix) nodePrefixSlash = true :=
    startsWith_iff.mpr ⟨id ++ suffix, String.append_assoc⟩
  cases h with
  | base => rfl
  | location id hlevel =>
      rw [nodeLocationTopic_eq, hstarts] at hnode
      cases hnode
  | state id hlevel =>
      rw [nodeStateTopic_eq, hstarts] at hnode
      cases hnode

theorem run_apart {stimuli : List Stimulus}
    (h : ∀ pre stimulus post, stimuli = pre ++ stimulus :: post →
      Harmless cfg (run cfg pre) stimulus) :
    Apart (run cfg stimuli) (run cfg (stimuli.filter fun stimulus ↦ !stimulus.isNode)) := by
  induction stimuli using List.reverseRecOn with
  | nil => exact ⟨rfl, rfl, rfl, ⟨rfl, rfl, rfl⟩, fun _ _ ↦ rfl, fun _ ↦ rfl⟩
  | append_singleton stimuli stimulus ih =>
      have hpast := ih fun pre stimulus' post heq ↦
        h pre stimulus' (post ++ [stimulus]) (by rw [heq, List.append_assoc, List.cons_append])
      obtain ⟨hnames, hsound⟩ := h stimuli stimulus [] rfl
      rw [run_snoc, List.filter_append]
      cases stimulus with
      | heartbeat clock =>
          rw [show [Stimulus.heartbeat clock].filter _ = [.heartbeat clock] from rfl, run_snoc]
          exact hpast.heartbeat (hsound clock rfl)
      | message clock msg hsub =>
          cases hnode : Topics.startsWith msg.topic nodePrefixSlash with
          | false =>
              have hkept : [Stimulus.message clock msg hsub].filter
                  (fun stimulus ↦ !stimulus.isNode) = [.message clock msg hsub] := by
                simp [Stimulus.isNode, hnode]
              rw [hkept, run_snoc]
              exact hpast.base (base_topic hsub hnode)
          | true =>
              have hgone : [Stimulus.message clock msg hsub].filter
                  (fun stimulus ↦ !stimulus.isNode) = [] := by
                simp [Stimulus.isNode, hnode]
              obtain ⟨hbase, hnamed⟩ := hnames (keyFor msg.topic) (node_topic hsub hnode)
              rw [hgone, List.append_nil]
              exact hpast.node hbase hnamed

/-- A node with a name of the base shares its uid. -/
theorem reserved_name_collides {stimuli : List Stimulus} {stimulus : Stimulus} {id : String}
    (hmem : stimulus ∈ stimuli) (habout : stimulus.IsAbout id) (hid : id = baseKey ∨ id = "base") :
    ¬ BaseApart cfg stimuli := by
  intro h
  have huid : (Entity.node id).uid = Entity.base.uid := uidOf_eq_base.mpr hid
  cases h.uids (.node id) .base ⟨stimulus, hmem, habout⟩ True.intro huid

/-- In every run in which no node has a name of the base and no node's record
stops the heartbeat, the messages about nodes leave no trace on the base. -/
theorem base_apart (cfg : TakBridgeConfig) (stimuli : List Stimulus)
    (h : ∀ pre stimulus post, stimuli = pre ++ stimulus :: post →
      Harmless cfg (run cfg pre) stimulus) : BaseApart cfg stimuli := by
  have hnames {id : String} (hid : (Entity.node id).Among stimuli) :
      id ≠ baseKey ∧ id ≠ "base" := by
    obtain ⟨stimulus, hmem, habout⟩ := hid
    obtain ⟨pre, post, heq⟩ := List.append_of_mem hmem
    exact (h pre stimulus post heq).1 id habout
  have hdistinct {id : String} (hid : (Entity.node id).Among stimuli) :
      (Entity.node id).uid ≠ Entity.base.uid := by
    intro huid
    rcases uidOf_eq_base.mp huid with heq | heq
    · exact (hnames hid).1 heq
    · exact (hnames hid).2 heq
  have hpast := run_apart h
  refine ⟨hpast.record, hpast.events, fun e e' he he' huid ↦ ?_⟩
  cases e with
  | base =>
      cases e' with
      | base => rfl
      | node id => exact absurd huid.symm (hdistinct he')
  | node id =>
      cases e' with
      | base => exact absurd huid (hdistinct he)
      | node id' => rw [uidOf_injective (hnames he).1 (hnames he').1 huid]

/-- A location message with a position and nothing else. -/
def positioned (topic : String) (lat lon : ℤ) : MqttMessage :=
  ⟨topic, .ok (.dict [("lat", .int lat), ("lon", .int lon)])⟩

def baseAnd (id : String) (h : IsLevel id) : List Stimulus :=
  [.message .epoch (positioned Topics.baseLocation 1 2) .base,
    .message .epoch (positioned (Topics.nodeLocationTopic id) 50 60) (.location id h)]

theorem level_nodeA : IsLevel "node-a" := by decide

theorem level_baseKey : IsLevel baseKey := by decide

theorem baseAnd_sound :
    NodesSound {} .epoch (run {} (baseAnd "node-a" level_nodeA)).bridge := by
  generalize hb : (run {} (baseAnd "node-a" level_nodeA)).bridge = b
  have hkeys : b.state.keys = [baseKey, "node-a"] := by
    rw [← hb]
    decide +kernel
  have hdue : due {} .epoch b = [] := by
    rw [← hb]
    decide +kernel
  have hone : (publishOne {} .epoch "node-a" b).isOk = true := by
    rw [← hb]
    decide +kernel
  refine ⟨fun key _ hmem ↦ ?_, fun key hne _ record hget ↦ ?_⟩
  · rw [hdue] at hmem
    cases hmem
  have hmem : key ∈ b.state.keys := Dict.mem_keys.mpr ⟨record, hget⟩
  rw [hkeys, List.mem_cons, or_iff_right hne, List.mem_singleton] at hmem
  subst hmem
  cases hsent : publishOne {} .epoch "node-a" b with
  | ok sent => exact publishOne_ok_iff.mp ⟨sent, hsent⟩ record hget
  | error err =>
      rw [hsent] at hone
      cases hone

theorem node_beside_base :
    BaseApart {} (baseAnd "node-a" level_nodeA ++ [.heartbeat .epoch]) := by
  refine base_apart {} _ fun pre stimulus post heq ↦ ⟨?_, ?_⟩
  · have hmem : stimulus ∈ baseAnd "node-a" level_nodeA ++ [.heartbeat .epoch] := by simp [heq]
    simp only [baseAnd, List.cons_append, List.nil_append, List.mem_cons, List.not_mem_nil,
      or_false] at hmem
    intro id habout
    constructor
    · rintro rfl
      rcases hmem with rfl | rfl | rfl
      · exact absurd habout (by decide)
      · exact absurd habout (by decide)
      · exact habout
    · rintro rfl
      rcases hmem with rfl | rfl | rfl
      · exact absurd habout (by decide)
      · exact absurd habout (by decide)
      · exact habout
  · rintro clock rfl _
    have hlast : pre = baseAnd "node-a" level_nodeA ∧ clock = .epoch := by
      rcases pre with _ | ⟨m, _ | ⟨m', _ | ⟨last, rest⟩⟩⟩
      · cases heq
      · cases heq
      · cases heq
        exact ⟨rfl, rfl⟩
      · have hlen := congrArg List.length heq
        simp only [baseAnd, List.length_cons, List.length_append, List.length_nil] at hlen
        omega
    rw [hlast.1, hlast.2]
    exact baseAnd_sound

/-- A node called `__base__` moves the base marker. -/
theorem base_moved : ¬ ∀ cfg stimuli, BaseApart cfg stimuli := by
  intro h
  have hrecord := (h {} (baseAnd baseKey level_baseKey)).record
  have hmoved : ((run {} (baseAnd baseKey level_baseKey)).baseRecord.map
      fun record ↦ (record.get "lat").between 40 60) = some true := by decide +kernel
  have hstays : ((run {} ((baseAnd baseKey level_baseKey).filter
      fun stimulus ↦ !stimulus.isNode)).baseRecord.map
      fun record ↦ (record.get "lat").between 40 60) = some false := by decide +kernel
  rw [hrecord, hstays] at hmoved
  cases hmoved

end Session

end MeshcoreRpc.Tak
