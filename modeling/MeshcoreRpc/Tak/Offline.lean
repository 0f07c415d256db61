import MeshcoreRpc.Tak.Isolation

/-!
# Offline streaks and evictions

`_offline_since` holds the beginning of the streak each node is in; a pass of
the heartbeat drops the nodes whose streak has lasted long enough, up to the
first one whose drop event cannot be built.
-/

namespace MeshcoreRpc.Tak

open Tables

namespace Stimulus

def time : Stimulus → ℚ
  | message clock _ _ => clock.time
  | heartbeat clock => clock.time

/-- A state message of the node that says whether it is online. -/
def Flags (id : String) (online : Bool) : Stimulus → Prop
  | message _ msg _ => msg.topic = Topics.nodeStateTopic id ∧
      ∃ kvs, msg.payload = .ok (.dict kvs) ∧ (PyDict.ofPairs kvs).get "online" = .bool online
  | heartbeat _ => False

theorem Flags.unique {id : String} {online online' : Bool} {x : Stimulus} (h : x.Flags id online)
    (h' : x.Flags id online') : online = online' := by
  cases x with
  | heartbeat clock => exact h.elim
  | message clock msg hsub =>
      obtain ⟨_, kvs, hpayload, honline⟩ := h
      obtain ⟨_, kvs', hpayload', honline'⟩ := h'
      rw [hpayload] at hpayload'
      cases hpayload'
      rw [honline] at honline'
      cases honline'
      rfl

end Stimulus

/-- The node has a numeric position. -/
def Bridge.placed (b : Bridge) (id : String) : Bool := (b.state.get? id).any Bridge.hasPosition

namespace Session

variable (cfg : TakBridgeConfig)

/-- The stimulus makes the bridge forget the node. -/
def Removes (pre : List Stimulus) (x : Stimulus) (id : String) : Prop :=
  ((run cfg pre).bridge.state.get? id).isSome ∧
    (run cfg (pre ++ [x])).bridge.state.get? id = none

/-- The offline streak the node is in after the stimuli, by its first message. -/
inductive Streak (id : String) : List Stimulus → Option ℚ → Prop
  | start : Streak id [] none
  | begins {pre : List Stimulus} {x : Stimulus} (past : Streak id pre none)
      (offline : x.Flags id false) : Streak id (pre ++ [x]) (some x.time)
  | ends {pre : List Stimulus} {x : Stimulus} {o : Option ℚ} (past : Streak id pre o)
      (ended : x.Flags id true ∨ Removes cfg pre x id) : Streak id (pre ++ [x]) none
  | lasts {pre : List Stimulus} {x : Stimulus} {o : Option ℚ} (past : Streak id pre o)
      (online : ¬ x.Flags id true) (kept : ¬ Removes cfg pre x id)
      (repeated : x.Flags id false → o.isSome) : Streak id (pre ++ [x]) o

/-- A pass removes the nodes whose streak has lasted the threshold, from both maps, with
one drop event for each that has a position. -/
structure EvictsDue (pre : List Stimulus) (clock : Clock) : Prop where
  removed : ∀ id, Removes cfg pre (.heartbeat clock) id ↔
    ∃ since, Streak cfg id pre (some since) ∧ (cfg.removeAfterOfflineS : ℚ) ≤ clock.time - since
  forgotten : ∀ id, Removes cfg pre (.heartbeat clock) id →
    (run cfg (pre ++ [.heartbeat clock])).bridge.offlineSince.get? id = none
  dropped : ∃ ids : List String, ids.Nodup ∧
    (∀ id, id ∈ ids ↔ Removes cfg pre (.heartbeat clock) id) ∧
      ((Bridge.heartbeat cfg clock (run cfg pre).bridge).sent.filter CotEvent.isDrop).map
        CotEvent.uid = (ids.filter (run cfg pre).bridge.placed).map Bridge.uidOf

end Session

namespace Bridge

variable {cfg : TakBridgeConfig} {clock : Clock}

/-! ## Messages -/

section Messages

variable {now : ℚ} {key : String} {data : PyDict} {b : Bridge}

theorem mergeState_keeps {key' kind : String} (h : (b.state.get? key').isSome) :
    ((mergeState now key data kind b).state.get? key').isSome := by
  by_cases hkey : key' = key
  · subst hkey
    rw [mergeState, Dict.get?_set_self]
    rfl
  · rw [mergeState_get? hkey]
    exact h

theorem tracking_flagged {online : Bool} (h : data.get "online" = .bool online) :
    (updateOfflineTracking now key data b).offlineSince.get? key =
      if online then none else some ((b.offlineSince.get? key).getD now) := by
  rw [updateOfflineTracking, h]
  cases online with
  | true => simp [Dict.get?_erase]
  | false =>
      cases hsince : b.offlineSince.get? key with
      | none => simp [Dict.get?_set_self]
      | some since => simp [hsince]

theorem tracking_unflagged (h : ∀ online, data.get "online" ≠ .bool online) :
    updateOfflineTracking now key data b = b := by
  unfold updateOfflineTracking
  split
  · exact absurd ‹_› (h true)
  · exact absurd ‹_› (h false)
  · rfl

theorem level_of_subscribed {id : String} (h : Subscribed (Topics.nodeStateTopic id)) :
    IsLevel id := by
  generalize htopic : Topics.nodeStateTopic id = topic at h
  rw [nodeStateTopic_eq] at htopic
  cases h with
  | base => exact absurd htopic (nodeTopic_ne_base id _)
  | location id' hlevel =>
      rw [nodeLocationTopic_eq] at htopic
      have hlast := congrArg (fun t : String ↦ t.toList.getLast?) htopic
      simp at hlast
  | state id' hlevel =>
      rw [nodeStateTopic_eq] at htopic
      have hlist := congrArg String.toList htopic
      simp only [String.toList_append, List.append_cancel_right_eq, List.append_cancel_left_eq]
        at hlist
      exact String.toList_injective hlist ▸ hlevel

theorem handle_keeps {msg : MqttMessage} {id : String} (h : (b.state.get? id).isSome) :
    ((handleMqttMessage cfg clock msg b).bridge.state.get? id).isSome := by
  rcases handle_cases cfg clock msg b with ⟨hb, _⟩ | ⟨kvs, b', _, hin, heq⟩
  · rw [hb]
    exact h
  · rw [heq, publishChange_bridge]
    rcases ingest_cases hin with ⟨_, rfl⟩ | ⟨_, _, _, rfl⟩ | ⟨_, _, _, rfl⟩ | rfl
    · exact mergeState_keeps h
    · exact mergeState_keeps h
    · rw [updateOfflineTracking_state]
      exact mergeState_keeps h
    · exact h

/-- A state message decides the streak of its node. -/
theorem handle_flagged {msg : MqttMessage} {hsub : Subscribed msg.topic} {id : String}
    {online : Bool} (h : (Stimulus.message clock msg hsub).Flags id online) :
    ((handleMqttMessage cfg clock msg b).bridge.state.get? id).isSome ∧
      (handleMqttMessage cfg clock msg b).bridge.offlineSince.get? id =
        if online then none else some ((b.offlineSince.get? id).getD clock.time) := by
  obtain ⟨topic, payload⟩ := msg
  obtain ⟨rfl, kvs, rfl, honline⟩ := h
  have hlevel := level_of_subscribed hsub
  simp only [handleMqttMessage, ingest_state, if_pos hlevel, publishChange_bridge]
  refine ⟨?_, tracking_flagged honline⟩
  rw [updateOfflineTracking_state, mergeState, Dict.get?_set_self]
  rfl

theorem handle_unflagged {msg : MqttMessage} {hsub : Subscribed msg.topic} {id : String}
    (h : ∀ online, ¬ (Stimulus.message clock msg hsub).Flags id online) :
    (handleMqttMessage cfg clock msg b).bridge.offlineSince.get? id = b.offlineSince.get? id := by
  rcases handle_cases cfg clock msg b with ⟨hb, _⟩ | ⟨kvs, b', hpayload, hin, heq⟩
  · rw [hb]
  · rw [heq, publishChange_bridge]
    rcases ingest_cases hin with ⟨_, rfl⟩ | ⟨_, _, _, rfl⟩ | ⟨id', _, htopic, rfl⟩ | rfl
    · rfl
    · rfl
    · by_cases hid : id = id'
      · subst hid
        rw [tracking_unflagged fun online honline ↦ h online ⟨htopic, kvs, hpayload, honline⟩]
        rfl
      · rw [updateOfflineTracking_get? hid]
        rfl
    · rfl

end Messages

/-! ## Passes of the heartbeat -/

section Passes

variable {ids : List String} {b : Bridge}

theorem heartbeat_bridge :
    (heartbeat cfg clock b).bridge = (evictNodes cfg clock (due cfg clock b) b).bridge := by
  rw [heartbeat, evictLongOffline_eq]
  cases (evictNodes cfg clock (due cfg clock b) b).outcome <;> rfl

/-- An eviction forgets a node of its list altogether, or leaves it alone. -/
theorem evictNodes_entry (cfg : TakBridgeConfig) (clock : Clock) (ids : List String) (b : Bridge)
    (id : String) :
    ((evictNodes cfg clock ids b).bridge.state.get? id = b.state.get? id ∧
        (evictNodes cfg clock ids b).bridge.offlineSince.get? id = b.offlineSince.get? id) ∨
      id ∈ ids ∧ (evictNodes cfg clock ids b).bridge.state.get? id = none ∧
        (evictNodes cfg clock ids b).bridge.offlineSince.get? id = none := by
  induction ids generalizing b with
  | nil => exact .inl ⟨rfl, rfl⟩
  | cons first rest ih =>
      cases hdrop : publishDrop cfg clock first b with
      | error err =>
          rw [evictNodes, hdrop]
          exact .inl ⟨rfl, rfl⟩
      | ok sent =>
          rw [evictNodes_cons hdrop]
          rcases ih (b.forget first) with ⟨hstate, hsince⟩ | ⟨hmem, hgone⟩
          · dsimp only
            rw [hstate, hsince, forget, Dict.get?_erase, Dict.get?_erase]
            by_cases hid : id = first
            · exact .inr ⟨hid ▸ List.mem_cons_self, if_pos hid, if_pos hid⟩
            · exact .inl ⟨if_neg hid, if_neg hid⟩
          · exact .inr ⟨List.mem_cons_of_mem _ hmem, hgone⟩

theorem Droppable.of_forget {gone id : String} (h : Droppable (b.forget gone) id)
    (hne : id ≠ gone) : Droppable b id := by
  intro record hget
  refine h record ?_
  rw [Bridge.forget, Dict.get?_erase, if_neg hne]
  exact hget

theorem droppable_of_ok {id : String} {sent : List CotEvent}
    (h : publishDrop cfg clock id b = .ok sent) : Droppable b id := by
  intro record hget hpos
  obtain ⟨hlat, hlon⟩ := Bool.and_eq_true_iff.mp hpos
  simp only [publishDrop, hget, hpos, if_true] at h
  obtain ⟨lat, hlat', h⟩ := except_bind_ok h
  obtain ⟨lon, hlon', _⟩ := except_bind_ok h
  exact ⟨(PyVal.numberToFloat_ok_iff hlat).mp ⟨lat, hlat'⟩,
    (PyVal.numberToFloat_ok_iff hlon).mp ⟨lon, hlon'⟩⟩

theorem evictNodes_undroppable {id : String} (h : ¬ Droppable b id) :
    (evictNodes cfg clock ids b).bridge.state.get? id = b.state.get? id := by
  induction ids generalizing b with
  | nil => rfl
  | cons first rest ih =>
      cases hdrop : publishDrop cfg clock first b with
      | error err => rw [evictNodes, hdrop]
      | ok sent =>
          have hne : id ≠ first := by
            rintro rfl
            exact h (droppable_of_ok hdrop)
          rw [evictNodes_cons hdrop]
          dsimp only
          rw [ih fun hforgot ↦ h (hforgot.of_forget hne), forget, Dict.get?_erase, if_neg hne]

theorem publishDrop_sent {id : String} {sent : List CotEvent}
    (h : publishDrop cfg clock id b = .ok sent) :
    (∀ cot ∈ sent, cot.isDrop = true) ∧
      sent.map CotEvent.uid = if b.placed id then [uidOf id] else [] := by
  rw [publishDrop] at h
  cases hget : b.state.get? id with
  | none =>
      rw [hget] at h
      cases h
      simp [placed, hget]
  | some record =>
      rw [hget] at h
      dsimp only at h
      by_cases hpos : hasPosition record = true
      · rw [if_pos hpos] at h
        obtain ⟨lat, _, h⟩ := except_bind_ok h
        obtain ⟨lon, _, h⟩ := except_bind_ok h
        cases h
        simp [placed, hget, hpos, buildDropCot, CotEvent.isDrop, CotEvent.uid]
      · rw [if_neg hpos] at h
        cases h
        simp [placed, hget, hpos]

/-- The events of an eviction: one drop for each node with a position. -/
theorem evictNodes_sent (cfg : TakBridgeConfig) (clock : Clock) (hnodup : ids.Nodup)
    (h : ∀ id ∈ ids, Droppable b id) :
    (∀ cot ∈ (evictNodes cfg clock ids b).sent, cot.isDrop = true) ∧
      (evictNodes cfg clock ids b).sent.map CotEvent.uid = (ids.filter b.placed).map uidOf := by
  induction ids generalizing b with
  | nil => simp [evictNodes]
  | cons first rest ih =>
      obtain ⟨hnew, hnodup⟩ := List.nodup_cons.mp hnodup
      obtain ⟨hfirst, hrest⟩ := List.forall_mem_cons.mp h
      obtain ⟨sent, hdrop, _⟩ := publishDrop_ok cfg clock hfirst
      obtain ⟨hdrops, huids⟩ := ih hnodup fun id hid ↦ (hrest id hid).forget first
      have hplaced : rest.filter (b.forget first).placed = rest.filter b.placed := by
        refine List.filter_congr fun id hid ↦ ?_
        have hne : id ≠ first := by
          rintro rfl
          exact hnew hid
        rw [placed, placed, forget, Dict.get?_erase, if_neg hne]
      rw [evictNodes_cons hdrop]
      dsimp only
      rw [List.map_append, huids, hplaced]
      obtain ⟨hall, huid⟩ := publishDrop_sent hdrop
      refine ⟨fun cot hcot ↦ ?_, ?_⟩
      · rcases List.mem_append.mp hcot with hcot | hcot
        · exact hall cot hcot
        · exact hdrops cot hcot
      · rw [huid, List.filter_cons]
        split <;> rfl

theorem cotOf_track {key : String} {record : PyDict} {cot : CotEvent}
    (h : cotOf cfg clock key record = .ok cot) : cot.isDrop = false := by
  unfold cotOf at h
  iterate 8 obtain ⟨_, _, h⟩ := except_bind_ok h
  obtain ⟨stale, _, h⟩ := except_bind_ok h
  cases h
  rfl

theorem publishOne_tracks {key : String} {sent : List CotEvent}
    (h : publishOne cfg clock key b = .ok sent) : ∀ cot ∈ sent, cot.isDrop = false := by
  rw [publishOne] at h
  split at h
  · cases h
    simp
  · split at h
    · rename_i record _ _
      cases hcot : cotOf cfg clock key record with
      | error err => simp [hcot, Except.map] at h
      | ok cot =>
          rw [hcot] at h
          cases h
          simpa using cotOf_track hcot
    · cases h
      simp

/-- What holds of the events of each key holds of those of a pass. -/
theorem forall_publishKeys {P : CotEvent → Prop} {keys : List String}
    (h : ∀ key sent, publishOne cfg clock key b = .ok sent → ∀ cot ∈ sent, P cot) :
    ∀ cot ∈ (publishKeys cfg clock b keys).1, P cot := by
  induction keys with
  | nil => simp [publishKeys]
  | cons key rest ih =>
      intro cot hcot
      cases hone : publishOne cfg clock key b with
      | error err => simp [publishKeys, hone] at hcot
      | ok sent =>
          simp only [publishKeys, hone] at hcot
          rcases List.mem_append.mp hcot with hcot | hcot
          · exact h key sent hone cot hcot
          · exact ih cot hcot

theorem publishKeys_tracks {keys : List String} :
    ∀ cot ∈ (publishKeys cfg clock b keys).1, cot.isDrop = false :=
  forall_publishKeys fun _ _ ↦ publishOne_tracks

theorem heartbeat_drops (h : (evictNodes cfg clock (due cfg clock b) b).outcome = .ok ()) :
    (heartbeat cfg clock b).sent.filter CotEvent.isDrop =
      (evictNodes cfg clock (due cfg clock b) b).sent.filter CotEvent.isDrop := by
  have hnone : (publishKeys cfg clock (evictNodes cfg clock (due cfg clock b) b).bridge
      (evictNodes cfg clock (due cfg clock b) b).bridge.state.keys).1.filter CotEvent.isDrop =
        [] := by
    refine List.filter_eq_nil_iff.mpr fun cot hcot hdrop ↦ ?_
    rw [publishKeys_tracks cot hcot] at hdrop
    cases hdrop
  simp only [heartbeat, evictLongOffline_eq, h, republishAll, List.filter_append, hnone,
    List.append_nil]

end Passes

end Bridge

/-! ## Along a run -/

namespace Session

open Bridge

variable {cfg : TakBridgeConfig} {pre : List Stimulus} {x : Stimulus} {id : String} {o : Option ℚ}

theorem step_heartbeat (cfg : TakBridgeConfig) (clock : Clock) (s : Session) (id : String) :
    ((s.step cfg (.heartbeat clock)).bridge.state.get? id = s.bridge.state.get? id ∧
        (s.step cfg (.heartbeat clock)).bridge.offlineSince.get? id =
          s.bridge.offlineSince.get? id) ∨
      id ∈ due cfg clock s.bridge ∧
        (s.step cfg (.heartbeat clock)).bridge.state.get? id = none ∧
          (s.step cfg (.heartbeat clock)).bridge.offlineSince.get? id = none := by
  cases hbeating : s.beating with
  | false => simp [step, hbeating]
  | true =>
      simp only [step, hbeating, if_true, heartbeat_bridge]
      exact evictNodes_entry cfg clock _ _ id

theorem held_of_offline (cfg : TakBridgeConfig) (stimuli : List Stimulus) (id : String)
    (h : ((run cfg stimuli).bridge.offlineSince.get? id).isSome) :
    ((run cfg stimuli).bridge.state.get? id).isSome := by
  induction stimuli using List.reverseRecOn with
  | nil => cases h
  | append_singleton stimuli x ih =>
      rw [run_snoc] at h ⊢
      cases x with
      | heartbeat clock =>
          rcases step_heartbeat cfg clock (run cfg stimuli) id with ⟨hstate, hsince⟩ | ⟨_, _, hgone⟩
          · rw [hsince] at h
            rw [hstate]
            exact ih h
          · rw [hgone] at h
            cases h
      | message clock msg hsub =>
          by_cases hflags : ∃ online, (Stimulus.message clock msg hsub).Flags id online
          · obtain ⟨online, hflags⟩ := hflags
            exact (handle_flagged hflags).1
          · refine handle_keeps (ih ?_)
            rw [← handle_unflagged (not_exists.mp hflags)]
            exact h

theorem removes_iff {x : Stimulus} :
    Removes cfg pre x id ↔ ((run cfg pre).bridge.state.get? id).isSome ∧
      ((run cfg pre).step cfg x).bridge.state.get? id = none := by
  rw [Removes, run_snoc]

/-- Only a pass removes a node, and the node is due there. -/
theorem Removes.due (h : Removes cfg pre x id) : ∃ clock, x = .heartbeat clock ∧
    (run cfg pre).beating = true ∧ id ∈ due cfg clock (run cfg pre).bridge ∧
      ((run cfg pre).step cfg x).bridge.offlineSince.get? id = none := by
  obtain ⟨hheld, hgone⟩ := removes_iff.mp h
  cases x with
  | message clock msg hsub =>
      have hkept := @handle_keeps cfg clock _ msg id hheld
      rw [show (handleMqttMessage cfg clock msg (run cfg pre).bridge).bridge.state.get? id = none
        from hgone] at hkept
      cases hkept
  | heartbeat clock =>
      refine ⟨clock, rfl, ?_⟩
      cases hbeating : (run cfg pre).beating with
      | false =>
          simp only [step, hbeating, Bool.false_eq_true, if_false] at hgone
          rw [hgone] at hheld
          cases hheld
      | true =>
          rcases step_heartbeat cfg clock (run cfg pre) id with ⟨hstate, _⟩ | ⟨hdue, _, hsince⟩
          · rw [hstate] at hgone
            rw [hgone] at hheld
            cases hheld
          · exact ⟨rfl, hdue, hsince⟩

/-- The streak of the history is the one the bridge keeps. -/
theorem Streak.since (h : Streak cfg id pre o) :
    (run cfg pre).bridge.offlineSince.get? id = o := by
  induction h with
  | start => rfl
  | @begins pre x past offline ih =>
      rw [run_snoc]
      cases x with
      | heartbeat clock => exact offline.elim
      | message clock msg hsub =>
          refine (handle_flagged offline).2.trans ?_
          rw [ih]
          rfl
  | @ends pre x o past ended ih =>
      rw [run_snoc]
      rcases ended with hflags | hremoved
      · cases x with
        | heartbeat clock => exact hflags.elim
        | message clock msg hsub => exact (handle_flagged hflags).2
      · obtain ⟨_, _, _, _, hsince⟩ := hremoved.due
        exact hsince
  | @lasts pre x o past online kept repeated ih =>
      rw [run_snoc]
      cases x with
      | message clock msg hsub =>
          by_cases hoffline : (Stimulus.message clock msg hsub).Flags id false
          · obtain ⟨since, rfl⟩ := Option.isSome_iff_exists.mp (repeated hoffline)
            refine (handle_flagged hoffline).2.trans ?_
            rw [ih]
            rfl
          · have hunflagged : ∀ flag, ¬ (Stimulus.message clock msg hsub).Flags id flag := by
              intro flag
              cases flag with
              | true => exact online
              | false => exact hoffline
            exact (handle_unflagged hunflagged).trans ih
      | heartbeat clock =>
          rcases step_heartbeat cfg clock (run cfg pre) id with ⟨_, hsince⟩ | ⟨hdue, hgone, _⟩
          · exact hsince.trans ih
          · exact absurd (removes_iff.mpr
              ⟨held_of_offline cfg pre id (due_offline hdue), hgone⟩) kept

theorem streak_exists (cfg : TakBridgeConfig) (id : String) (stimuli : List Stimulus) :
    ∃ o, Streak cfg id stimuli o := by
  induction stimuli using List.reverseRecOn with
  | nil => exact ⟨none, .start⟩
  | append_singleton stimuli x ih =>
      obtain ⟨o, past⟩ := ih
      by_cases hended : x.Flags id true ∨ Removes cfg stimuli x id
      · exact ⟨none, past.ends hended⟩
      · obtain ⟨honline, hkept⟩ := not_or.mp hended
        by_cases hoffline : x.Flags id false
        · cases o with
          | none => exact ⟨some x.time, past.begins hoffline⟩
          | some since => exact ⟨some since, past.lasts honline hkept fun _ ↦ rfl⟩
        · exact ⟨o, past.lasts honline hkept fun h ↦ absurd h hoffline⟩

theorem streak_iff : Streak cfg id pre o ↔ (run cfg pre).bridge.offlineSince.get? id = o := by
  constructor
  · exact Streak.since
  · rintro rfl
    obtain ⟨o, h⟩ := streak_exists cfg id pre
    rw [h.since]
    exact h

/-! ## The evictions of a pass -/

section Evictions

variable {clock : Clock}

theorem mem_due (hR : 0 < cfg.removeAfterOfflineS) :
    id ∈ due cfg clock (run cfg pre).bridge ↔ ∃ since, Streak cfg id pre (some since) ∧
      (cfg.removeAfterOfflineS : ℚ) ≤ clock.time - since := by
  simp only [due, if_neg (not_le.mpr hR), mem_toEvict, streak_iff]

theorem removes_of_droppable (hbeating : (run cfg pre).beating = true)
    (h : ∀ id ∈ due cfg clock (run cfg pre).bridge, Droppable (run cfg pre).bridge id) :
    Removes cfg pre (.heartbeat clock) id ↔ id ∈ due cfg clock (run cfg pre).bridge := by
  constructor
  · intro hremoved
    obtain ⟨_, heq, _, hdue, _⟩ := hremoved.due
    cases heq
    exact hdue
  · intro hdue
    refine removes_iff.mpr ⟨held_of_offline cfg pre id (due_offline hdue), ?_⟩
    simp only [step, hbeating, if_true, heartbeat_bridge]
    rw [(evictNodes_ok cfg clock h).2.1, if_pos hdue]

theorem due_nodup (cfg : TakBridgeConfig) (clock : Clock) (b : Bridge) :
    (due cfg clock b).Nodup := by
  rw [due]
  split
  · exact .nil
  · exact b.offlineSince.nodup.sublist (List.filter_sublist.map _)

/-- A pass removes just the nodes that have been offline for the threshold, exactly when
it can build the drop event of each of them. -/
theorem evictsDue_iff (hR : 0 < cfg.removeAfterOfflineS) (hbeating : (run cfg pre).beating = true) :
    EvictsDue cfg pre clock ↔
      ∀ id ∈ due cfg clock (run cfg pre).bridge, Droppable (run cfg pre).bridge id := by
  constructor
  · intro h id hdue
    by_contra hundroppable
    obtain ⟨hheld, hgone⟩ := removes_iff.mp ((h.removed id).mpr ((mem_due hR).mp hdue))
    simp only [step, hbeating, if_true, heartbeat_bridge] at hgone
    rw [evictNodes_undroppable hundroppable] at hgone
    rw [hgone] at hheld
    cases hheld
  · intro h
    refine ⟨fun id ↦ ?_, fun id hremoved ↦ ?_, due cfg clock (run cfg pre).bridge,
      due_nodup cfg clock _,
      fun id ↦ (removes_of_droppable hbeating h).symm, ?_⟩
    · rw [removes_of_droppable hbeating h, mem_due hR]
    · obtain ⟨_, _, _, _, hsince⟩ := hremoved.due
      rw [run_snoc]
      exact hsince
    · obtain ⟨hdrops, huids⟩ := evictNodes_sent cfg clock (due_nodup cfg clock _) h
      rw [heartbeat_drops (evictNodes_ok cfg clock h).1, List.filter_eq_self.mpr hdrops, huids]

/-- A message removes nothing, a pass exactly the nodes that are due as long as the drop
event of each can be built, and with no threshold nothing is ever removed. -/
theorem evictions_right_iff (cfg : TakBridgeConfig) (pre : List Stimulus) :
    (∀ id, ((run cfg pre).bridge.offlineSince.get? id).isSome →
        ((run cfg pre).bridge.state.get? id).isSome) ∧
      (∀ clock msg hsub id, ¬ Removes cfg pre (.message clock msg hsub) id) ∧
      (cfg.removeAfterOfflineS ≤ 0 → ∀ x id, ¬ Removes cfg pre x id) ∧
      ∀ clock, 0 < cfg.removeAfterOfflineS → (run cfg pre).beating = true →
        (EvictsDue cfg pre clock ↔
          ∀ id ∈ due cfg clock (run cfg pre).bridge, Droppable (run cfg pre).bridge id) := by
  refine ⟨held_of_offline cfg pre, fun clock msg hsub id h ↦ ?_, fun hR x id h ↦ ?_,
    fun clock ↦ evictsDue_iff⟩
  · obtain ⟨_, heq, _⟩ := h.due
    cases heq
  · obtain ⟨clock, _, _, hdue, _⟩ := h.due
    rw [Bridge.due, if_pos hR] at hdue
    cases hdue

end Evictions

/-! ## A node that goes offline -/

/-- A state message that says the node is offline. -/
def offlineMessage (id : String) : MqttMessage :=
  ⟨Topics.nodeStateTopic id, .ok (.dict [("online", .bool false)])⟩

/-- At 0 the node reports offline; at 595 it reports a position. -/
def offlineThenPlaced (lat : ℤ) : List Stimulus :=
  [.message .epoch (offlineMessage "node-a") (.state "node-a" level_nodeA),
    .message ⟨595, Clock.epoch.utc⟩ (positioned (Topics.nodeLocationTopic "node-a") lat 2)
      (.location "node-a" level_nodeA)]

/-- With a latitude that is no float the due node stays. -/
theorem huge_latitude_stays : ¬ ∀ cfg pre clock, 0 < cfg.removeAfterOfflineS →
    (run cfg pre).beating = true → EvictsDue cfg pre clock := by
  intro h
  have hdue := h {} (offlineThenPlaced (10 ^ 309)) ⟨600, Clock.epoch.utc⟩ (by decide)
    (by decide +kernel)
  have hstreak : Streak {} "node-a" (offlineThenPlaced (10 ^ 309)) (some 0) :=
    streak_iff.mpr (by decide +kernel)
  have hgone := ((hdue.removed "node-a").mpr ⟨0, hstreak, by norm_num⟩).2
  have hheld : ((run {} (offlineThenPlaced (10 ^ 309) ++
      [.heartbeat ⟨600, Clock.epoch.utc⟩])).bridge.state.get? "node-a").isSome = true := by
    decide +kernel
  rw [hgone] at hheld
  cases hheld

end Session

end MeshcoreRpc.Tak
