import MeshcoreRpc.Lib.TopicFilter
import MeshcoreRpc.Tak.Topics

/-!
# Node ids as topic levels

A request may come from any id of 1 to 128 characters, and the topics of a node
are put together from its id as it is.
-/

namespace MeshcoreRpc

open TopicFilter

namespace Tak

/-- `NODE_LOCATION_FILTER` -/
def nodeLocationFilter : String := Topics.nodePrefix ++ "/+/location"

/-- `NODE_STATE_FILTER` -/
def nodeStateFilter : String := Topics.nodePrefix ++ "/+/state"

/-- The topics of a node other than that of its responses. -/
def nodeTopics (id : String) : List (String × String) :=
  [("location", Topics.nodeLocationTopic id), ("battery", Topics.nodeBatteryTopic id),
    ("state", Topics.nodeStateTopic id)]

/-- The id makes topics that can be published to, in which it is one level, that
the filters of the bridge match and from which both decoders recover it. -/
structure Addressable (id : String) : Prop where
  response : ∃ topic, Topics.rpcResponseTopic id = .ok topic ∧ Publishable topic ∧
    levels topic = ["mc", "rpc", "resp", id]
  publishable : ∀ t ∈ nodeTopics id, Publishable t.2
  one_level : ∀ t ∈ nodeTopics id, levels t.2 = ["mc", "node", id, t.1]
  matched_location : Matches nodeLocationFilter (Topics.nodeLocationTopic id)
  matched_state : Matches nodeStateFilter (Topics.nodeStateTopic id)
  extracted_location : Bridge.extractNodeId (Topics.nodeLocationTopic id) "/location" = some id
  extracted_state : Bridge.extractNodeId (Topics.nodeStateTopic id) "/state" = some id
  key_location : Bridge.keyFor (Topics.nodeLocationTopic id) = id
  key_state : Bridge.keyFor (Topics.nodeStateTopic id) = id

variable {id : String}

theorem levels_nodeTopic (h : OneLevel id) {name : String} (hname : OneLevel name) :
    levels (Topics.nodePrefix ++ "/" ++ id ++ ("/" ++ name)) = ["mc", "node", id, name] := by
  have htopic : Topics.nodePrefix ++ "/" ++ id ++ ("/" ++ name) =
      "mc" ++ ("/" ++ ("node" ++ ("/" ++ (id ++ ("/" ++ name))))) :=
    String.toList_injective (by simp [Topics.nodePrefix])
  rw [htopic, levels_cons (by decide), levels_cons (by decide), levels_cons h,
    levels_of_oneLevel hname]

theorem levels_responseTopic (h : OneLevel id) :
    levels (Topics.rpcResponsePrefix ++ "/" ++ id) = ["mc", "rpc", "resp", id] := by
  have htopic : Topics.rpcResponsePrefix ++ "/" ++ id =
      "mc" ++ ("/" ++ ("rpc" ++ ("/" ++ ("resp" ++ ("/" ++ id))))) :=
    String.toList_injective (by simp [Topics.rpcResponsePrefix])
  rw [htopic, levels_cons (by decide), levels_cons (by decide), levels_cons (by decide),
    levels_of_oneLevel h]

theorem publishable_around {before after : String} (hbefore : Publishable before)
    (hafter : ∀ c ∈ reserved, c ∉ after.toList) :
    Publishable (before ++ id ++ after) ↔ ∀ c ∈ reserved, c ∉ id.toList := by
  constructor
  · intro h c hc
    exact (reserved_append.mp (reserved_append.mp (h.2 c hc)).1).2
  · intro h
    refine ⟨fun hempty ↦ hbefore.1 ?_, fun c hc ↦ ?_⟩
    · have hnil := congrArg String.toList hempty
      simp only [String.toList_append, String.toList_empty, List.append_eq_nil_iff] at hnil
      exact String.toList_injective hnil.1.1
    · rw [reserved_append, reserved_append]
      exact ⟨⟨hbefore.2 c hc, h c hc⟩, hafter c hc⟩

theorem publishable_nodeTopic {name : String} (hname : ∀ c ∈ reserved, c ∉ ("/" ++ name).toList) :
    Publishable (Topics.nodePrefix ++ "/" ++ id ++ ("/" ++ name)) ↔
      ∀ c ∈ reserved, c ∉ id.toList :=
  publishable_around (by decide) hname

/-- The filter with a `+` in the place of the id matches. -/
theorem matches_nodeTopic (h : OneLevel id) {name filter : String} (hname : OneLevel name)
    (hfilter : filter = Topics.nodePrefix ++ "/" ++ "+" ++ ("/" ++ name)) :
    Matches filter (Topics.nodePrefix ++ "/" ++ id ++ ("/" ++ name)) := by
  rw [Matches, hfilter, levels_nodeTopic (by decide) hname, levels_nodeTopic h hname]
  simp [matchLevels_cons_self, matchLevels_plus]

theorem nodeLocationTopic_split (id : String) :
    Topics.nodeLocationTopic id = Topics.nodePrefix ++ "/" ++ id ++ ("/" ++ "location") := rfl

theorem nodeBatteryTopic_split (id : String) :
    Topics.nodeBatteryTopic id = Topics.nodePrefix ++ "/" ++ id ++ ("/" ++ "battery") := rfl

theorem nodeStateTopic_split (id : String) :
    Topics.nodeStateTopic id = Topics.nodePrefix ++ "/" ++ id ++ ("/" ++ "state") := rfl

theorem nodeTopics_split {t : String × String} (ht : t ∈ nodeTopics id) :
    t.2 = Topics.nodePrefix ++ "/" ++ id ++ ("/" ++ t.1) ∧
      t.1 ∈ ["location", "battery", "state"] := by
  simp only [nodeTopics, List.mem_cons, List.not_mem_nil, or_false] at ht
  rcases ht with rfl | rfl | rfl
  · exact ⟨nodeLocationTopic_split id, by simp⟩
  · exact ⟨nodeBatteryTopic_split id, by simp⟩
  · exact ⟨nodeStateTopic_split id, by simp⟩

theorem nodeNames_plain {name : String} (h : name ∈ ["location", "battery", "state"]) :
    OneLevel name ∧ ∀ c ∈ reserved, c ∉ ("/" ++ name).toList := by
  revert name
  decide

theorem publishable_response (hreserved : ∀ c ∈ reserved, c ∉ id.toList) :
    Publishable (Topics.rpcResponsePrefix ++ "/" ++ id) := by
  have hbefore : Publishable (Topics.rpcResponsePrefix ++ "/") := by decide
  have hpublishable := (@publishable_around id _ "" hbefore (by decide)).mpr hreserved
  rwa [String.append_empty] at hpublishable

theorem addressable_of_level (h : Bridge.IsLevel id) (hreserved : ∀ c ∈ reserved, c ∉ id.toList) :
    Addressable id where
  response := ⟨_, if_neg h.1, publishable_response hreserved, levels_responseTopic h.2⟩
  publishable := by
    intro t ht
    obtain ⟨htopic, hname⟩ := nodeTopics_split ht
    rw [htopic]
    exact (publishable_nodeTopic (nodeNames_plain hname).2).mpr hreserved
  one_level := by
    intro t ht
    obtain ⟨htopic, hname⟩ := nodeTopics_split ht
    rw [htopic]
    exact levels_nodeTopic h.2 (nodeNames_plain hname).1
  matched_location := by
    rw [nodeLocationTopic_split]
    exact matches_nodeTopic h.2 (by decide) rfl
  matched_state := by
    rw [nodeStateTopic_split]
    exact matches_nodeTopic h.2 (by decide) rfl
  extracted_location := Bridge.extractNodeId_iff.mpr ⟨h, Bridge.nodeLocationTopic_eq id⟩
  extracted_state := Bridge.extractNodeId_iff.mpr ⟨h, Bridge.nodeStateTopic_eq id⟩
  key_location := Bridge.keyFor_location h
  key_state := Bridge.keyFor_state h

theorem ne_empty_of_length {s : String} (h : FieldLength s) : s ≠ "" := by
  rintro rfl
  exact absurd h.1 (by decide)

/-- The id of a request makes good topics exactly where it has neither a slash
nor a character that MQTT reserves. -/
theorem addressable_iff (request : Request) :
    Addressable request.from_ ↔ ∀ c ∈ '/' :: reserved, c ∉ request.from_.toList := by
  constructor
  · intro h c hc
    rcases List.mem_cons.mp hc with rfl | hc
    · exact (Bridge.extractNodeId_iff.mp h.extracted_location).1.2
    · have hpublishable := h.publishable ("location", Topics.nodeLocationTopic request.from_)
        List.mem_cons_self
      rw [nodeLocationTopic_split] at hpublishable
      exact (publishable_nodeTopic (by decide)).mp hpublishable c hc
  · intro h
    refine addressable_of_level
      ⟨ne_empty_of_length request.from_length, h '/' List.mem_cons_self⟩ ?_
    exact fun c hc ↦ h c (List.mem_cons_of_mem _ hc)

theorem length_slashed : FieldLength "a/b" := by decide

/-- A ping from the node `a/b`. -/
def slashedPing : Request := .simple "r1" "ping" "a/b" length_r1 length_ping length_slashed

/-- The bridge recovers nothing from a topic of `a/b`, and takes it for one of `a`
when it publishes. -/
theorem slashed_lost :
    Bridge.extractNodeId (Topics.nodeStateTopic slashedPing.from_) "/state" = none ∧
      Bridge.keyFor (Topics.nodeStateTopic slashedPing.from_) = "a" ∧
      ¬ Matches nodeStateFilter (Topics.nodeStateTopic slashedPing.from_) ∧
      ¬ Addressable slashedPing.from_ := by
  have hnone : Bridge.extractNodeId (Topics.nodeStateTopic slashedPing.from_) "/state" = none := by
    decide
  refine ⟨hnone, by decide, by decide, fun h ↦ ?_⟩
  have hsome := h.extracted_state
  rw [hnone] at hsome
  cases hsome

end Tak

end MeshcoreRpc
