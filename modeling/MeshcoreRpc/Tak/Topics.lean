import MeshcoreRpc.Tak.Bridge

/-!
# The topics of the bridge

Which entity a topic is about, and that the two decoders of the bridge agree on
it: `_extract_node_id` for the maps and `_key_for` for the publication.
-/

namespace MeshcoreRpc.Tak.Bridge

open Tables

/-- A node id that is one non-empty topic level. -/
def IsLevel (id : String) : Prop := id ≠ "" ∧ '/' ∉ id.toList

instance (id : String) : Decidable (IsLevel id) := inferInstanceAs (Decidable (_ ∧ _))

theorem endsWith_iff {t s : String} : Topics.endsWith t s = true ↔ ∃ r, t = r ++ s := by
  rw [Topics.endsWith, List.isSuffixOf_iff_suffix]
  constructor
  · rintro ⟨r, hr⟩
    exact ⟨String.ofList r, String.toList_injective (by simp [hr])⟩
  · rintro ⟨r, rfl⟩
    exact ⟨r.toList, by simp⟩

theorem startsWith_iff {t p : String} : Topics.startsWith t p = true ↔ ∃ r, t = p ++ r := by
  rw [Topics.startsWith, List.isPrefixOf_iff_prefix]
  constructor
  · rintro ⟨r, hr⟩
    exact ⟨String.ofList r, String.toList_injective (by simp [hr])⟩
  · rintro ⟨r, rfl⟩
    exact ⟨r.toList, by simp⟩

theorem dropPrefix_append (p r : String) : Topics.dropPrefix (p ++ r) p = r := by
  apply String.toList_injective
  rw [Topics.dropPrefix, String.toList_ofList, String.toList_append]
  exact List.drop_left' String.length_toList

theorem dropSuffix_append (r s : String) :
    String.ofList ((r ++ s).toList.take ((r ++ s).length - s.length)) = r := by
  apply String.toList_injective
  rw [String.toList_ofList, String.toList_append]
  refine List.take_left' ?_
  rw [String.length_toList, String.length_append]
  omega

theorem extractNodeId_iff {topic suffix id : String} :
    extractNodeId topic suffix = some id ↔
      IsLevel id ∧ topic = nodePrefixSlash ++ id ++ suffix := by
  rw [extractNodeId]
  constructor
  · intro h
    split at h
    · rename_i hends
      obtain ⟨head, rfl⟩ := endsWith_iff.mp hends
      simp only [dropSuffix_append] at h
      split at h
      · rename_i hstarts
        obtain ⟨rest, rfl⟩ := startsWith_iff.mp hstarts
        simp only [dropPrefix_append] at h
        split at h
        · cases h
        · rename_i hlevel
          cases h
          exact ⟨not_or.mp hlevel, rfl⟩
      · cases h
    · cases h
  · rintro ⟨hlevel, rfl⟩
    rw [if_pos (endsWith_iff.mpr ⟨_, rfl⟩), dropSuffix_append,
      if_pos (startsWith_iff.mpr ⟨_, rfl⟩), dropPrefix_append, if_neg (not_or.mpr hlevel)]

theorem nodeTopic_ne_base (id suffix : String) :
    nodePrefixSlash ++ id ++ suffix ≠ Topics.baseLocation := by
  intro h
  have := congrArg (fun t : String ↦ t.toList[3]?) h
  simp [nodePrefixSlash, Topics.nodePrefix, Topics.baseLocation, Topics.basePrefix] at this

/-- The second decoder finds the same id. -/
theorem keyFor_node {id suffix : String} (h : IsLevel id) :
    keyFor (nodePrefixSlash ++ id ++ ("/" ++ suffix)) = id := by
  have hlist : (nodePrefixSlash ++ id ++ ("/" ++ suffix)).toList =
      ['m', 'c'] ++ '/' ::
        (['n', 'o', 'd', 'e'] ++ '/' :: (id.toList ++ '/' :: suffix.toList)) := by
    simp [nodePrefixSlash, Topics.nodePrefix]
  rw [keyFor, if_neg (nodeTopic_ne_base id _), hlist,
    List.splitOn_append_cons_self_of_not_mem (by decide),
    List.splitOn_append_cons_self_of_not_mem (by decide),
    List.splitOn_append_cons_self_of_not_mem h.2]
  exact String.ofList_toList

theorem keyFor_location {id : String} (h : IsLevel id) :
    keyFor (Topics.nodeLocationTopic id) = id :=
  (keyFor_node h : keyFor (nodePrefixSlash ++ id ++ ("/" ++ "location")) = id)

theorem keyFor_state {id : String} (h : IsLevel id) : keyFor (Topics.nodeStateTopic id) = id :=
  (keyFor_node h : keyFor (nodePrefixSlash ++ id ++ ("/" ++ "state")) = id)

theorem nodeLocationTopic_eq (id : String) :
    Topics.nodeLocationTopic id = nodePrefixSlash ++ id ++ "/location" := rfl

theorem nodeStateTopic_eq (id : String) :
    Topics.nodeStateTopic id = nodePrefixSlash ++ id ++ "/state" := rfl

theorem extractNodeId_self {id suffix : String} :
    extractNodeId (nodePrefixSlash ++ id ++ suffix) suffix =
      if IsLevel id then some id else none := by
  by_cases h : IsLevel id
  · rw [if_pos h]
    exact extractNodeId_iff.mpr ⟨h, rfl⟩
  · rw [if_neg h, Option.eq_none_iff_forall_not_mem]
    intro id' hid'
    obtain ⟨hlevel, heq⟩ := extractNodeId_iff.mp hid'
    have hlist := congrArg String.toList heq
    simp only [String.toList_append, List.append_cancel_right_eq,
      List.append_cancel_left_eq] at hlist
    exact h (String.toList_injective hlist ▸ hlevel)

section Ingest

variable {now : ℚ} {data : PyDict} {b : Bridge} {id : String}

theorem updateOfflineTracking_state {nodeId : String} :
    (updateOfflineTracking now nodeId data b).state = b.state := by
  unfold updateOfflineTracking
  split
  · rfl
  · split <;> rfl
  · rfl

theorem ingest_base : ingest now Topics.baseLocation data b =
    some (mergeState now baseKey data "base" b) :=
  if_pos rfl

theorem ingest_location : ingest now (Topics.nodeLocationTopic id) data b =
    some (if IsLevel id then mergeState now id data "node" b else b) := by
  rw [nodeLocationTopic_eq, ingest, if_neg (nodeTopic_ne_base id _),
    if_pos ⟨startsWith_iff.mpr ⟨id ++ "/location", by rw [String.append_assoc]⟩,
      endsWith_iff.mpr ⟨_, rfl⟩⟩, extractNodeId_self]
  by_cases h : IsLevel id
  · rw [if_pos h, if_pos h]
  · rw [if_neg h, if_neg h]

theorem ingest_state : ingest now (Topics.nodeStateTopic id) data b =
    some (if IsLevel id then updateOfflineTracking now id data (mergeState now id data "node" b)
      else b) := by
  have hnot : ¬ (Topics.startsWith (nodePrefixSlash ++ id ++ "/state") nodePrefixSlash = true ∧
      Topics.endsWith (nodePrefixSlash ++ id ++ "/state") "/location" = true) := by
    rintro ⟨_, hends⟩
    obtain ⟨r, hr⟩ := endsWith_iff.mp hends
    have := congrArg (fun t : String ↦ t.toList.getLast?) hr
    simp at this
  rw [nodeStateTopic_eq, ingest, if_neg (nodeTopic_ne_base id _), if_neg hnot,
    if_pos ⟨startsWith_iff.mpr ⟨id ++ "/state", by rw [String.append_assoc]⟩,
      endsWith_iff.mpr ⟨_, rfl⟩⟩, extractNodeId_self]
  by_cases h : IsLevel id
  · rw [if_pos h, if_pos h]
  · rw [if_neg h, if_neg h]

/-- What a message can do to the maps. -/
theorem ingest_cases {topic : String} {b' : Bridge} (h : ingest now topic data b = some b') :
    (topic = Topics.baseLocation ∧ b' = mergeState now baseKey data "base" b) ∨
      (∃ id, IsLevel id ∧ topic = Topics.nodeLocationTopic id ∧
        b' = mergeState now id data "node" b) ∨
      (∃ id, IsLevel id ∧ topic = Topics.nodeStateTopic id ∧
        b' = updateOfflineTracking now id data (mergeState now id data "node" b)) ∨
      b' = b := by
  rw [ingest] at h
  split at h
  · rename_i htopic
    cases h
    exact .inl ⟨htopic, rfl⟩
  · split at h
    · cases hid : extractNodeId topic "/location" with
      | none =>
          rw [hid] at h
          cases h
          exact .inr (.inr (.inr rfl))
      | some id =>
          rw [hid] at h
          cases h
          obtain ⟨hlevel, rfl⟩ := extractNodeId_iff.mp hid
          exact .inr (.inl ⟨id, hlevel, rfl, rfl⟩)
    · split at h
      · cases hid : extractNodeId topic "/state" with
        | none =>
            rw [hid] at h
            cases h
            exact .inr (.inr (.inr rfl))
        | some id =>
            rw [hid] at h
            cases h
            obtain ⟨hlevel, rfl⟩ := extractNodeId_iff.mp hid
            exact .inr (.inr (.inl ⟨id, hlevel, rfl, rfl⟩))
      · cases h

end Ingest

end MeshcoreRpc.Tak.Bridge
