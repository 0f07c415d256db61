import MeshcoreRpc.Nodes.Glances
import MeshcoreRpc.Nodes.Readable
import MeshcoreRpc.Tak.Offline
import MeshcoreRpc.Tak.Records

/-!
# A node that goes silent

The `online` flag is computed when a summary is published, and nothing is
published because time passes.  So a silent node is evicted only when its last
summary was told from a `last_seen` that was already old.
-/

namespace MeshcoreRpc.Tak

open Tables

/-! ## Silence at the bridge -/

namespace Stimulus

/-- A state message of the node. -/
def IsState (node : String) : Stimulus → Prop
  | message _ msg _ => msg.topic = Topics.nodeStateTopic node
  | heartbeat _ => False

theorem IsState.about {node : String} {x : Stimulus} (h : x.IsState node) : x.IsAbout node := by
  cases x with
  | message clock msg hsub => exact .inr h
  | heartbeat clock => exact h

end Stimulus

namespace Bridge

variable {cfg : TakBridgeConfig} {clock : Clock} {b : Bridge}

/-- No entity keeps the pass from its end. -/
structure PassSound (cfg : TakBridgeConfig) (clock : Clock) (b : Bridge) : Prop where
  dropped : ∀ key ∈ due cfg clock b, Droppable b key
  shown : ∀ key ∉ due cfg clock b, PresentableAt cfg clock b key

theorem PassSound.ok (h : PassSound cfg clock b) : (heartbeat cfg clock b).outcome = .ok () ∧
    ∀ key ∈ due cfg clock b, (heartbeat cfg clock b).bridge.state.get? key = none := by
  obtain ⟨hok, hstate, _⟩ := evictNodes_ok cfg clock h.dropped
  have hshown (key : String) :
      PresentableAt cfg clock (evictNodes cfg clock (due cfg clock b) b).bridge key := by
    intro record hget hpos
    rw [hstate] at hget
    split at hget
    · cases hget
    · exact h.shown key ‹_› record hget hpos
  refine ⟨?_, fun key hkey ↦ ?_⟩
  · rw [heartbeat, evictLongOffline_eq]
    simp only [hok]
    exact publishKeys_ok_iff.mpr fun key _ ↦ hshown key
  · rw [heartbeat_bridge, hstate, if_pos hkey]

end Bridge

namespace Session

open Bridge

variable {cfg : TakBridgeConfig} {node : String} {s : Session} {x : Stimulus}

theorem keyFor_subscribed {topic : String} (h : Subscribed topic) : keyFor topic = baseKey ∨
    topic = Topics.nodeLocationTopic (keyFor topic) ∨
      topic = Topics.nodeStateTopic (keyFor topic) := by
  cases h with
  | base => exact .inl (if_pos rfl)
  | location id hlevel =>
      rw [keyFor_location hlevel]
      exact .inr (.inl rfl)
  | state id hlevel =>
      rw [keyFor_state hlevel]
      exact .inr (.inr rfl)

/-- What is not about a node leaves its entries, or takes them both. -/
theorem step_other (hnode : node ≠ baseKey) (hx : ¬ x.IsAbout node) :
    ((s.step cfg x).bridge.state.get? node = s.bridge.state.get? node ∧
        (s.step cfg x).bridge.offlineSince.get? node = s.bridge.offlineSince.get? node) ∨
      (s.step cfg x).bridge.state.get? node = none := by
  cases x with
  | heartbeat clock =>
      rcases step_heartbeat cfg clock s node with hsame | ⟨_, hgone, _⟩
      · exact .inl hsame
      · exact .inr hgone
  | message clock msg hsub =>
      left
      refine handle_get? cfg clock s.bridge hsub fun hkey ↦ ?_
      rcases keyFor_subscribed hsub with hbase | habout
      · exact hnode (hkey.trans hbase)
      · exact hx (hkey ▸ habout)

/-- Without a message about it, a node stays as it is, or goes and does not come back. -/
theorem run_silent (hnode : node ≠ baseKey) {pre post : List Stimulus}
    (hpost : ∀ x ∈ post, ¬ x.IsAbout node) :
    ((run cfg (pre ++ post)).bridge.state.get? node = (run cfg pre).bridge.state.get? node ∧
        (run cfg (pre ++ post)).bridge.offlineSince.get? node =
          (run cfg pre).bridge.offlineSince.get? node) ∨
      (run cfg (pre ++ post)).bridge.state.get? node = none := by
  induction post using List.reverseRecOn with
  | nil => simp
  | append_singleton post x ih =>
      have hpost' (y : Stimulus) (hy : y ∈ post) : ¬ y.IsAbout node :=
        hpost y (List.mem_append_left _ hy)
      rw [← List.append_assoc, run_snoc]
      rcases @step_other cfg node (run cfg (pre ++ post)) x hnode (hpost x (by simp)) with
        ⟨hstate, hsince⟩ | hgone
      · rw [hstate, hsince]
        exact ih hpost'
      · exact .inr hgone

/-- Nobody has been offline since a time to come. -/
theorem since_le {t : ℚ} {stimuli : List Stimulus} (ht : ∀ x ∈ stimuli, x.time ≤ t) :
    ∀ a, (run cfg stimuli).bridge.offlineSince.get? node = some a → a ≤ t := by
  induction stimuli using List.reverseRecOn with
  | nil =>
      intro a ha
      cases ha
  | append_singleton stimuli x ih =>
      have hpast := ih fun y hy ↦ ht y (List.mem_append_left _ hy)
      have hnow : x.time ≤ t := ht x (by simp)
      rw [run_snoc]
      cases x with
      | heartbeat clock =>
          rcases step_heartbeat cfg clock (run cfg stimuli) node with ⟨_, hsince⟩ | ⟨_, _, hgone⟩
          · rw [hsince]
            exact hpast
          · rw [hgone]
            intro a ha
            cases ha
      | message clock msg hsub =>
          intro a ha
          by_cases hflags : ∃ online, (Stimulus.message clock msg hsub).Flags node online
          · obtain ⟨online, hflags⟩ := hflags
            rw [step, (handle_flagged hflags).2] at ha
            split at ha
            · cases ha
            · cases hold : (run cfg stimuli).bridge.offlineSince.get? node with
              | none =>
                  rw [hold] at ha
                  cases ha
                  exact hnow
              | some since =>
                  rw [hold] at ha
                  cases ha
                  exact hpast since hold
          · refine hpast a ?_
            rw [← handle_unflagged (not_exists.mp hflags)]
            exact ha

/-- While every pass meets sound entities the heartbeat goes on. -/
theorem beating_of_sound {stimuli : List Stimulus}
    (h : ∀ pre clock post, stimuli = pre ++ .heartbeat clock :: post →
      PassSound cfg clock (run cfg pre).bridge) : (run cfg stimuli).beating = true := by
  induction stimuli using List.reverseRecOn with
  | nil => rfl
  | append_singleton stimuli x ih =>
      have hpast := ih fun pre clock post hsplit ↦ h pre clock (post ++ [x]) (by simp [hsplit])
      rw [run_snoc]
      cases x with
      | message clock msg hsub => exact hpast
      | heartbeat clock =>
          have hok := (h stimuli clock [] rfl).ok.1
          simp only [step, hpast, if_true, hok]
          rfl

/-- What has to be true of the messages about a node and of the passes that it is there
for. -/
structure Heeds (cfg : TakBridgeConfig) (node : String) (stimuli : List Stimulus) : Prop where
  /-- A position with no later state of the node finds it offline. -/
  located : ∀ pre x post, stimuli = pre ++ x :: post → x.IsAbout node → ¬ x.IsState node →
    (∀ y ∈ post, ¬ y.IsState node) → ((run cfg pre).bridge.offlineSince.get? node).isSome
  sound : ∀ pre clock post, stimuli = pre ++ .heartbeat clock :: post →
    ((run cfg pre).bridge.state.get? node).isSome ∨ (∃ y ∈ post, y.IsAbout node) →
      PassSound cfg clock (run cfg pre).bridge

/-- What tells no latitude. -/
def Unlocated : Stimulus → Prop
  | .message _ msg _ => ∀ kvs, msg.payload = .ok (.dict kvs) → (fieldOf kvs "lat").isNone = true
  | .heartbeat _ => True

theorem mergeState_unlocated {now : ℚ} {id kind : String} {data : PyDict} {b : Bridge}
    (hdata : (data.get "lat").isNone = true)
    (hb : ∀ key, (b.state.get? key).bind (·.get? "lat") = none) (key : String) :
    ((mergeState now id data kind b).state.get? key).bind (·.get? "lat") = none := by
  by_cases hkey : key = id
  · subst hkey
    have hnone : (data.get? "lat").filter (fun v ↦ !v.isNone) = none := by
      rw [PyDict.get] at hdata
      cases hget : data.get? "lat" with
      | none => rfl
      | some v =>
          rw [hget, Option.getD_some] at hdata
          simp [hdata]
    rw [mergeState_field (by decide), hnone, Option.none_or]
    have hold := hb key
    cases hrecord : b.state.get? key with
    | none => rfl
    | some record =>
        rw [hrecord] at hold
        exact hold
  · rw [mergeState_get? hkey]
    exact hb key

theorem run_unlocated {stimuli : List Stimulus} (h : ∀ x ∈ stimuli, Unlocated x) (key : String) :
    ((run cfg stimuli).bridge.state.get? key).bind (·.get? "lat") = none := by
  induction stimuli using List.reverseRecOn generalizing key with
  | nil => rfl
  | append_singleton stimuli x ih =>
      have hpast := ih fun y hy ↦ h y (List.mem_append_left _ hy)
      have hnow : Unlocated x := h x (by simp)
      rw [run_snoc]
      cases x with
      | heartbeat clock =>
          rcases step_heartbeat cfg clock (run cfg stimuli) key with ⟨hsame, _⟩ | ⟨_, hgone, _⟩
          · rw [hsame]
            exact hpast key
          · rw [hgone]
            rfl
      | message clock msg hsub =>
          rcases handle_cases cfg clock msg (run cfg stimuli).bridge with
            ⟨hb, _⟩ | ⟨kvs, b', hpayload, hin, heq⟩
          · rw [step, hb]
            exact hpast key
          · rw [step, heq, publishChange_bridge]
            rcases ingest_cases hin with ⟨_, rfl⟩ | ⟨id, _, _, rfl⟩ | ⟨id, _, _, rfl⟩ | rfl
            · exact mergeState_unlocated (hnow kvs hpayload) hpast key
            · exact mergeState_unlocated (hnow kvs hpayload) hpast key
            · rw [updateOfflineTracking_state]
              exact mergeState_unlocated (hnow kvs hpayload) hpast key
            · exact hpast key

theorem passSound_of_unlocated {stimuli : List Stimulus} {clock : Clock}
    (h : ∀ x ∈ stimuli, Unlocated x) : PassSound cfg clock (run cfg stimuli).bridge := by
  have hnowhere (key : String) (record : PyDict)
      (hget : (run cfg stimuli).bridge.state.get? key = some record) :
      ¬ hasPosition record = true := by
    have hlat := @run_unlocated cfg stimuli h key
    rw [hget, Option.bind_some] at hlat
    simp [hasPosition, PyDict.get, hlat, PyVal.isNumber]
  exact ⟨fun key _ record hget hpos ↦ absurd hpos (hnowhere key record hget),
    fun key _ record hget hpos ↦ absurd hpos (hnowhere key record hget)⟩

/-- Summaries that tell no position are all that `Heeds` asks for. -/
theorem heeds_of_states {stimuli : List Stimulus} (hstates : ∀ x ∈ stimuli, x.IsAbout node →
    x.IsState node) (h : ∀ x ∈ stimuli, Unlocated x) : Heeds cfg node stimuli := by
  refine ⟨fun pre x post hsplit habout hother _ ↦ ?_, fun pre clock post hsplit _ ↦ ?_⟩
  · exact absurd (hstates x (by simp [hsplit]) habout) hother
  · exact passSound_of_unlocated fun x hx ↦ h x (by simp [hsplit, hx])

/-- The last message about a node that ends offline leaves it in a streak. -/
theorem offline_of_last {stimuli pre post : List Stimulus} {x : Stimulus}
    (hheeds : Heeds cfg node stimuli) (hsplit : stimuli = pre ++ x :: post)
    (habout : x.IsAbout node) (hlast : ∀ y ∈ post, ¬ y.IsAbout node)
    (hoffline : x.IsState node → x.Flags node false) :
    ((run cfg (pre ++ [x])).bridge.offlineSince.get? node).isSome := by
  have hstate (y : Stimulus) (hy : y ∈ post) : ¬ y.IsState node := fun h ↦ hlast y hy h.about
  rw [run_snoc]
  cases x with
  | heartbeat clock => exact habout.elim
  | message clock msg hsub =>
      by_cases hkind : (Stimulus.message clock msg hsub).IsState node
      · rw [step, (handle_flagged (hoffline hkind)).2]
        rfl
      · have hunflagged (online : Bool) :
            ¬ (Stimulus.message clock msg hsub).Flags node online := fun h ↦ hkind h.1
        rw [step, handle_unflagged hunflagged]
        exact hheeds.located pre _ post hsplit habout hkind hstate

/-- What is held in the end was held when it was last heard of, in the same streak. -/
theorem held_before (hnode : node ≠ baseKey) {stimuli pre post : List Stimulus}
    (hheld : (run cfg stimuli).bridge.state.get? node ≠ none) (hsplit : stimuli = pre ++ post)
    (hpost : ∀ y ∈ post, ¬ y.IsAbout node) :
    ((run cfg pre).bridge.state.get? node).isSome ∧
      (run cfg stimuli).bridge.offlineSince.get? node =
        (run cfg pre).bridge.offlineSince.get? node := by
  subst hsplit
  rcases @run_silent cfg node hnode pre post hpost with ⟨hstate, hsince⟩ | hgone
  · exact ⟨Option.isSome_iff_ne_none.mpr (hstate ▸ hheld), hsince⟩
  · exact absurd hgone hheld

/-- A node that is held in the end has met sound passes alone. -/
theorem Heeds.sound_of_held {stimuli : List Stimulus} (hheeds : Heeds cfg node stimuli)
    (hnode : node ≠ baseKey) (hheld : (run cfg stimuli).bridge.state.get? node ≠ none)
    (pre : List Stimulus) (clock : Clock) (post : List Stimulus)
    (hsplit : stimuli = pre ++ .heartbeat clock :: post) :
    PassSound cfg clock (run cfg pre).bridge := by
  refine hheeds.sound pre clock post hsplit ?_
  by_cases hlater : ∃ y ∈ post, y.IsAbout node
  · exact .inr hlater
  · refine .inl (held_before hnode hheld hsplit ?_).1
    exact List.forall_mem_cons.mpr ⟨id, fun y hy habout ↦ hlater ⟨y, hy, habout⟩⟩

theorem gone_at_pass (hpositive : 0 < cfg.removeAfterOfflineS) {pre : List Stimulus}
    {clock : Clock} {a : ℚ} (hbeating : (run cfg pre).beating = true)
    (hsound : PassSound cfg clock (run cfg pre).bridge)
    (hsince : (run cfg pre).bridge.offlineSince.get? node = some a)
    (hlong : cfg.removeAfterOfflineS ≤ clock.time - a) :
    (run cfg (pre ++ [.heartbeat clock])).bridge.state.get? node = none := by
  have hdue : node ∈ due cfg clock (run cfg pre).bridge := by
    rw [due, if_neg (not_le.mpr hpositive)]
    exact mem_toEvict.mpr ⟨a, hsince, hlong⟩
  rw [run_snoc, step, if_pos hbeating]
  exact hsound.ok.2 node hdue

/-- A node whose last state says that it is offline is evicted by a pass that comes the
threshold after its last message. -/
theorem silent_evicted (hnode : node ≠ baseKey) (hpositive : 0 < cfg.removeAfterOfflineS)
    {stimuli : List Stimulus} {late : ℚ}
    (hascends : stimuli.Pairwise fun x y ↦ x.time ≤ y.time)
    (hlate : ∀ x ∈ stimuli, x.IsAbout node → x.time ≤ late)
    (hoffline : ∀ pre x post, stimuli = pre ++ x :: post → x.IsState node →
      (∀ y ∈ post, ¬ y.IsState node) → x.Flags node false)
    (hheeds : Heeds cfg node stimuli)
    (hbeat : ∃ clock, .heartbeat clock ∈ stimuli ∧ late + cfg.removeAfterOfflineS ≤ clock.time) :
    (run cfg stimuli).bridge.state.get? node = none := by
  by_contra hheld
  have hsound := hheeds.sound_of_held hnode hheld
  by_cases hany : ∃ x ∈ stimuli, x.IsAbout node
  · obtain ⟨pre, x, post, hsplit, habout, hlast⟩ := Interleaving.exists_last hany
    have htracked := offline_of_last hheeds hsplit habout hlast fun hkind ↦
      hoffline pre x post hsplit hkind fun y hy hstate ↦ hlast y hy hstate.about
    obtain ⟨a, hsince⟩ := Option.isSome_iff_exists.mp htracked
    rw [hsplit, List.pairwise_append, List.pairwise_cons] at hascends
    obtain ⟨_, ⟨_, _⟩, hcross⟩ := hascends
    have hxlate : x.time ≤ late := hlate x (by simp [hsplit]) habout
    have hbound (y : Stimulus) (hy : y ∈ pre ++ [x]) : y.time ≤ x.time := by
      rcases List.mem_append.mp hy with hy | hy
      · exact hcross y hy x List.mem_cons_self
      · rw [List.mem_singleton.mp hy]
    have hale : a ≤ x.time := since_le hbound a hsince
    obtain ⟨clock, hmem, htime⟩ := hbeat
    have hpositive' : (0 : ℚ) < cfg.removeAfterOfflineS := by exact_mod_cast hpositive
    -- The pass comes after the last message.
    have hafter : .heartbeat clock ∈ post := by
      rw [hsplit] at hmem
      rcases List.mem_append.mp hmem with hmem | hmem
      · have hle := hbound _ (List.mem_append_left _ hmem)
        rw [Stimulus.time] at hle
        linarith
      · rcases List.mem_cons.mp hmem with rfl | hmem
        · exact habout.elim
        · exact hmem
    obtain ⟨mid, rest, rfl⟩ := List.append_of_mem hafter
    have hmid : stimuli = (pre ++ [x] ++ mid) ++ .heartbeat clock :: rest := by simp [hsplit]
    have hfirst : stimuli = (pre ++ [x]) ++ (mid ++ .heartbeat clock :: rest) := by simp [hsplit]
    have hend : stimuli = (pre ++ [x] ++ mid ++ [.heartbeat clock]) ++ rest := by simp [hsplit]
    have hquiet (y : Stimulus) (hy : y ∈ .heartbeat clock :: rest) : ¬ y.IsAbout node :=
      hlast y (List.mem_append_right _ hy)
    have hstill : (run cfg (pre ++ [x] ++ mid)).bridge.offlineSince.get? node = some a := by
      rw [← (held_before hnode hheld hmid hquiet).2, (held_before hnode hheld hfirst hlast).2,
        hsince]
    have hbeating : (run cfg (pre ++ [x] ++ mid)).beating = true :=
      beating_of_sound fun pre' clock' post' hsplit' ↦
        hsound pre' clock' (post' ++ .heartbeat clock :: rest) (by simp [hmid, hsplit'])
    have hgone := gone_at_pass hpositive hbeating (hsound _ clock rest hmid) hstill (by linarith)
    have hheld' :=
      (held_before hnode hheld hend fun y hy ↦ hquiet y (List.mem_cons_of_mem _ hy)).1
    rw [hgone] at hheld'
    cases hheld'
  · have hnone := (@held_before cfg node hnode stimuli [] stimuli hheld rfl
      fun y hy habout ↦ hany ⟨y, hy, habout⟩).1
    cases hnone

end Session

/-! ## The aggregator, the broker and the bridge -/

/-- A message, with what its publisher had read. -/
structure Published where
  topic : String
  payload : List (String × PyVal)
  glance : Glance

/-- A message on its way to the bridge. -/
abbrev Carried := {m : Published // Subscribed m.topic}

def Carried.stimulus (clock : Clock) (m : Carried) : Stimulus :=
  .message clock ⟨m.1.topic, .ok (.dict m.1.payload)⟩ m.2

/-- The database, the memories of the tasks, what the broker retains, the messages on
their way, and the bridge. -/
structure Net (ι : Type) where
  db : Db
  glance : ι → Glance := fun _ ↦ {}
  last : String → Option Published := fun _ ↦ none
  queue : List Carried := []
  session : Session := {}

/-- What happens besides the tasks: the base publishes its position, the broker
delivers the oldest message, the heartbeat makes a pass. -/
inductive Carry where
  | base (payload : List (String × PyVal))
  | deliver (utc : DateTime) (m : Carried)
  | beat (utc : DateTime)

namespace Net

variable {ι : Type}

/-- The broker takes a message. -/
structure Posts (s s' : Net ι) (m : Published) (retain : Bool) : Prop where
  last : s'.last = if retain then Function.update s.last m.topic (some m) else s.last
  queue : ∀ h : Subscribed m.topic, s'.queue = s.queue ++ [⟨m, h⟩]
  ignored : ¬ Subscribed m.topic → s'.queue = s.queue

/-- What the broker gets from a task with the glance. -/
def Takes (s s' : Net ι) (g : Glance) : Option (String × List (String × PyVal) × Bool) → Prop
  | none => s'.last = s.last ∧ s'.queue = s.queue
  | some (topic, payload, retain) => s.Posts s' ⟨topic, payload, g⟩ retain

/-- The retained summary does not say `online`, and the bridge does not hold the node. -/
structure Gone (s : Net ι) (node : String) : Prop where
  retained : ∀ m, s.last (Topics.nodeStateTopic node) = some m →
    fieldOf m.payload "online" ≠ .bool true
  evicted : s.session.bridge.state.get? node = none

/-- The last summary was told from a `last_seen` as old as the threshold. -/
def Stale (s : Net ι) (node : String) : Prop :=
  ∀ m, s.last (Topics.nodeStateTopic node) = some m → ∀ q, m.glance.lastSeen = some (.fin q) →
    onlineThresholdS ≤ m.glance.clock - q

end Net

open Coroutine Interleaving

section Linked

variable (num : Numerals) (cfg : TakBridgeConfig) {ι : Type} [DecidableEq ι]

/-- The tasks of the aggregator and the bridge at its broker. -/
def Linked : World (Net ι) ι Eff.Answer ℚ Carry
  | s, .task i now x, s' =>
    x.1.Serves num now x.2 s.db s'.db ∧
      s'.glance = Function.update s.glance i ((s.glance i).after x.1 x.2) ∧
      s'.session = s.session ∧ ∃ sent, x.1.Sends x.2 sent ∧ s.Takes s' (s.glance i) sent
  | s, .env _ (.base payload), s' =>
    s'.db = s.db ∧ s'.glance = s.glance ∧ s'.session = s.session ∧
      s.Posts s' ⟨Topics.baseLocation, payload, {}⟩ true
  | s, .env now (.deliver utc m), s' =>
    ∃ rest, s.queue = m :: rest ∧
      s' = { s with queue := rest, session := s.session.step cfg (m.stimulus ⟨now, utc⟩) }
  | s, .env now (.beat utc), s' =>
    s' = { s with session := s.session.step cfg (.heartbeat ⟨now, utc⟩) }

/-- What an event is to the bridge. -/
def stimulusOf : Event ι Eff.Answer ℚ Carry → Option Stimulus
  | .task .. => none
  | .env _ (.base _) => none
  | .env now (.deliver utc m) => some (m.stimulus ⟨now, utc⟩)
  | .env now (.beat utc) => some (.heartbeat ⟨now, utc⟩)

def stimuliOf (tr : List (Event ι Eff.Answer ℚ Carry)) : List Stimulus := tr.filterMap stimulusOf

variable {num cfg} {s₀ s s' : Net ι} {tr : List (Event ι Eff.Answer ℚ Carry)}
  {p₀ p : ι → Prog Unit} {node : String}

omit [DecidableEq ι] in
theorem stimuliOf_snoc {ev : Event ι Eff.Answer ℚ Carry} :
    stimuliOf (tr ++ [ev]) = stimuliOf tr ++ (stimulusOf ev).toList := by
  rw [stimuliOf, stimuliOf, List.filterMap_append]
  cases h : stimulusOf ev <;> simp [h]

theorem session_of_evolves (h : Evolves (Linked num cfg) s₀ tr s) (h₀ : s₀.session = {}) :
    s.session = Session.run cfg (stimuliOf tr) := by
  induction h with
  | start => exact h₀
  | @step tr s s' ev past now ih =>
      rw [stimuliOf_snoc]
      cases ev with
      | task i t x =>
          rw [stimulusOf, Option.toList_none, List.append_nil, ← ih]
          exact now.2.2.1
      | env t a =>
          cases a with
          | base payload =>
              rw [stimulusOf, Option.toList_none, List.append_nil, ← ih]
              exact now.2.2.1
          | deliver utc m =>
              obtain ⟨rest, _, rfl⟩ := now
              rw [stimulusOf, Option.toList_some, Session.run_snoc, ← ih]
          | beat utc =>
              obtain rfl := now
              rw [stimulusOf, Option.toList_some, Session.run_snoc, ← ih]

theorem glance_of_evolves (h : Evolves (Linked num cfg) s₀ tr s) (i : ι)
    (h₀ : s₀.glance i = {}) : s.glance i = (exchangesOf i tr).foldl remember {} := by
  induction h with
  | start => exact h₀
  | @step tr s s' ev past now ih =>
      rw [exchangesOf_append, List.foldl_append, ← ih]
      cases ev with
      | task j t x =>
          rw [now.2.1]
          by_cases hj : j = i
          · subst hj
            rw [Function.update_self, exchangesOf_task_self]
            rfl
          · rw [Function.update_of_ne (Ne.symm hj), exchangesOf_task_ne hj]
            rfl
      | env t a =>
          rw [exchangesOf_env]
          cases a with
          | base payload => rw [now.2.1]; rfl
          | deliver utc m =>
              obtain ⟨rest, _, rfl⟩ := now
              rfl
          | beat utc =>
              obtain rfl := now
              rfl

theorem tells_of_run {i : ι} {now : ℚ} {x : Exchange Eff.Answer}
    (h : Run (Linked num cfg) p₀ s₀ (tr ++ [.task i now x]) p s') (hp₀ : (p₀ i).Tells {})
    (hpast : Evolves (Linked num cfg) s₀ tr s) (h₀ : s₀.glance i = {}) :
    x.1.TellsFrom (s.glance i) := by
  have hsteps := h.steps i
  rw [exchangesOf_append, exchangesOf_task_self, exchangesOf_nil] at hsteps
  obtain ⟨e, r⟩ := x
  obtain ⟨next, hbefore, _⟩ := hsteps.await_of_snoc
  rw [glance_of_evolves hpast i h₀]
  exact (hp₀.steps hbefore).1

/-! ## The summaries of a node -/

/-- The summary that a message to the bridge carries. -/
def Stimulus.summary (node : String) : Stimulus → Option (Except PyExc PyVal)
  | .message _ msg _ => if msg.topic = Topics.nodeStateTopic node then some msg.payload else none
  | .heartbeat _ => none

def Published.content (m : Published) : Except PyExc PyVal := .ok (.dict m.payload)

def Carried.summary (node : String) (m : Carried) : Option (Except PyExc PyVal) :=
  if m.1.topic = Topics.nodeStateTopic node then some m.1.content else none

/-- The retained summary was told from its glance, and is the last one delivered or on
its way. -/
structure Ledger (node : String) (stimuli : List Stimulus) (s : Net ι) : Prop where
  told : ∀ m, s.last (Topics.nodeStateTopic node) = some m → m.glance.Told m.payload
  order : Subscribed (Topics.nodeStateTopic node) →
    (stimuli.filterMap (Stimulus.summary node) ++
      s.queue.filterMap (Carried.summary node)).getLast? =
        (s.last (Topics.nodeStateTopic node)).map Published.content

omit [DecidableEq ι] in
theorem Ledger.posts {stimuli : List Stimulus} {m : Published} {retain : Bool}
    (h : Ledger node stimuli s) (hposts : s.Posts s' m retain)
    (hm : m.topic = Topics.nodeStateTopic node → retain = true ∧ m.glance.Told m.payload) :
    Ledger node stimuli s' := by
  by_cases htopic : m.topic = Topics.nodeStateTopic node
  · obtain ⟨hretain, htold⟩ := hm htopic
    have hlast : s'.last (Topics.nodeStateTopic node) = some m := by
      rw [hposts.last, if_pos hretain, ← htopic, Function.update_self]
    refine ⟨fun m' hm' ↦ ?_, fun hsub ↦ ?_⟩
    · rw [hlast] at hm'
      cases hm'
      exact htold
    · rw [hposts.queue (htopic ▸ hsub), hlast, List.filterMap_append, ← List.append_assoc]
      have hone : Carried.summary node ⟨m, htopic ▸ hsub⟩ = some m.content := if_pos htopic
      rw [List.filterMap_cons_some hone, List.filterMap_nil, List.getLast?_concat]
      rfl
  · have hlast : s'.last (Topics.nodeStateTopic node) = s.last (Topics.nodeStateTopic node) := by
      rw [hposts.last]
      split
      · rw [Function.update_of_ne (Ne.symm htopic)]
      · rfl
    have hqueue : s'.queue.filterMap (Carried.summary node) =
        s.queue.filterMap (Carried.summary node) := by
      by_cases hsub : Subscribed m.topic
      · have hnone : Carried.summary node ⟨m, hsub⟩ = none := if_neg htopic
        rw [hposts.queue hsub, List.filterMap_append, List.filterMap_cons_none hnone,
          List.filterMap_nil, List.append_nil]
      · rw [hposts.ignored hsub]
    refine ⟨fun m' hm' ↦ h.told m' (hlast ▸ hm'), fun hsub ↦ ?_⟩
    rw [hqueue, hlast]
    exact h.order hsub

omit [DecidableEq ι] in
theorem Ledger.same {stimuli : List Stimulus} (h : Ledger node stimuli s) (hlast : s'.last = s.last)
    (hqueue : s'.queue = s.queue) : Ledger node stimuli s' :=
  ⟨fun m hm ↦ h.told m (hlast ▸ hm), fun hsub ↦ by rw [hqueue, hlast]; exact h.order hsub⟩

theorem Ledger.snoc {ev : Event ι Eff.Answer ℚ Carry} (h : Ledger node (stimuliOf tr) s)
    (hev : Linked num cfg s ev s')
    (htells : ∀ i now x, ev = .task i now x → x.1.TellsFrom (s.glance i)) :
    Ledger node (stimuliOf (tr ++ [ev])) s' := by
  rw [stimuliOf_snoc]
  cases ev with
  | task i now x =>
      rw [stimulusOf, Option.toList_none, List.append_nil]
      obtain ⟨_, _, _, sent, hsends, htakes⟩ := hev
      cases sent with
      | none => exact h.same htakes.1 htakes.2
      | some sent =>
          obtain ⟨topic, payload, retain⟩ := sent
          refine h.posts htakes ?_
          rintro rfl
          exact (htells i now x rfl).told hsends
  | env now a =>
      cases a with
      | base payload =>
          rw [stimulusOf, Option.toList_none, List.append_nil]
          refine h.posts hev.2.2.2 fun htopic ↦ ?_
          exact absurd htopic.symm (Bridge.nodeTopic_ne_base node _)
      | deliver utc m =>
          obtain ⟨rest, hqueue, rfl⟩ := hev
          refine ⟨h.told, fun hsub ↦ ?_⟩
          have horder := h.order hsub
          rw [hqueue] at horder
          have hone : [m.stimulus ⟨now, utc⟩].filterMap (Stimulus.summary node) =
              [m].filterMap (Carried.summary node) := rfl
          rw [stimulusOf, Option.toList_some, List.filterMap_append, hone, List.append_assoc,
            ← List.filterMap_append, List.singleton_append]
          exact horder
      | beat utc =>
          obtain rfl := hev
          refine ⟨h.told, fun hsub ↦ ?_⟩
          rw [stimulusOf, Option.toList_some, List.filterMap_append]
          have hnone : [Stimulus.heartbeat ⟨now, utc⟩].filterMap (Stimulus.summary node) = [] := rfl
          rw [hnone, List.append_nil]
          exact h.order hsub

theorem ledger_of_run (h : Run (Linked num cfg) p₀ s₀ tr p s) (hp₀ : ∀ i, (p₀ i).Tells {})
    (hglance : ∀ i, s₀.glance i = {}) (hlast : s₀.last = fun _ ↦ none) (hqueue : s₀.queue = []) :
    Ledger node (stimuliOf tr) s := by
  induction tr using List.reverseRecOn generalizing p s with
  | nil =>
      obtain rfl := Evolves.nil_iff.mp h.evolves
      refine ⟨fun m hm ↦ ?_, fun _ ↦ ?_⟩
      · rw [hlast] at hm
        cases hm
      · rw [hqueue, hlast]
        rfl
  | append_singleton tr ev ih =>
      obtain ⟨p', s', hpast, hev⟩ := h.init
      refine (ih hpast).snoc hev ?_
      rintro i now x rfl
      exact tells_of_run h (hp₀ i) hpast.evolves (hglance i)

omit [DecidableEq ι] in
theorem mem_stimuliOf {x : Stimulus} (h : x ∈ stimuliOf tr) :
    (∃ now utc m, .env now (.deliver utc m) ∈ tr ∧ x = Carried.stimulus ⟨now, utc⟩ m) ∨
      ∃ now utc, .env now (.beat utc) ∈ tr ∧ x = .heartbeat ⟨now, utc⟩ := by
  obtain ⟨ev, hev, hx⟩ := List.mem_filterMap.mp h
  cases ev with
  | task i now x => cases hx
  | env now a =>
      cases a with
      | base payload => cases hx
      | deliver utc m =>
          cases hx
          exact .inl ⟨now, utc, m, hev, rfl⟩
      | beat utc =>
          cases hx
          exact .inr ⟨now, utc, hev, rfl⟩

omit [DecidableEq ι] in
theorem ascends_stimuliOf (h : Ascends tr) :
    (stimuliOf tr).Pairwise fun x y ↦ x.time ≤ y.time := by
  have htime {ev : Event ι Eff.Answer ℚ Carry} {x : Stimulus} (hx : stimulusOf ev = some x) :
      x.time = ev.now := by
    cases ev with
    | task i now x => cases hx
    | env now a =>
        cases a with
        | base payload => cases hx
        | deliver utc m =>
            cases hx
            rfl
        | beat utc =>
            cases hx
            rfl
  refine List.Pairwise.filterMap stimulusOf (fun ev ev' hle x hx x' hx' ↦ ?_) h
  rw [htime hx, htime hx']
  exact hle

omit [DecidableEq ι] in
/-- When all is delivered, the last summary that the bridge has got is the retained one. -/
theorem Ledger.last_delivered {stimuli pre post : List Stimulus} {clock : Clock}
    {msg : MqttMessage} {hsub : Subscribed msg.topic} (h : Ledger node stimuli s)
    (hqueue : ∀ m ∈ s.queue, m.1.topic ≠ Topics.nodeStateTopic node)
    (hsplit : stimuli = pre ++ .message clock msg hsub :: post)
    (htopic : msg.topic = Topics.nodeStateTopic node)
    (hlast : ∀ y ∈ post, ¬ y.IsState node) :
    ∃ m, s.last (Topics.nodeStateTopic node) = some m ∧ msg.payload = m.content := by
  have hnone : s.queue.filterMap (Carried.summary node) = [] :=
    List.filterMap_eq_nil_iff.mpr fun m hm ↦ if_neg (hqueue m hm)
  have hpost : post.filterMap (Stimulus.summary node) = [] := by
    refine List.filterMap_eq_nil_iff.mpr fun y hy ↦ ?_
    cases y with
    | heartbeat clock => rfl
    | message clock msg hsub => exact if_neg (hlast _ hy)
  have hone : Stimulus.summary node (.message clock msg hsub) = some msg.payload := if_pos htopic
  have horder := h.order (htopic ▸ hsub)
  rw [hnone, List.append_nil, hsplit, List.filterMap_append, List.filterMap_cons_some hone, hpost,
    List.getLast?_concat, eq_comm, Option.map_eq_some_iff] at horder
  obtain ⟨m, hm, hcontent⟩ := horder
  exact ⟨m, hm, hcontent.symm⟩

omit [DecidableEq ι] in
/-- What the retained summary says is whether its `last_seen` was old when it was told. -/
theorem Ledger.stale_iff {stimuli : List Stimulus} (h : Ledger node stimuli s) :
    s.Stale node ↔ ∀ m, s.last (Topics.nodeStateTopic node) = some m →
      fieldOf m.payload "online" = .bool false := by
  constructor
  · intro hstale m hm
    obtain ⟨q, hseen, honline⟩ := h.told m hm
    rw [honline, PyVal.bool.injEq, decide_eq_false_iff_not, not_lt]
    exact hstale m hm q hseen
  · intro hoffline m hm q hseen
    obtain ⟨q', hseen', honline⟩ := h.told m hm
    rw [hseen] at hseen'
    cases hseen'
    rw [hoffline m hm, PyVal.bool.injEq, eq_comm, decide_eq_false_iff_not, not_lt] at honline
    exact honline

/-- In a run of the aggregator and the bridge in which what is about a node has reached
the bridge before `T + 300`, a pass is made every `P`, and none of the node's messages and
no pass meets what `Heeds` excludes: after `T + 300 + R + 2 P` the node is reported
offline and evicted just when its last summary was told from a `last_seen` that was
already 300 seconds old. -/
theorem silent_gone_iff {geo : Geo} {policy : TimeoutPolicy} {ops : ι → Operation} {db : Db}
    {T P t : ℚ}
    (h : Run (Linked num cfg) (fun i ↦ (ops i).prog num geo policy) { db := db } tr p s)
    (hclock : Ascends tr) (hpositive : 0 < cfg.removeAfterOfflineS) (hinterval : 0 ≤ P)
    (hnode : node ≠ Bridge.baseKey)
    (hlate : ∀ now utc m, .env now (.deliver utc m) ∈ tr →
      (Carried.stimulus ⟨now, utc⟩ m).IsAbout node → now ≤ T + onlineThresholdS)
    (hdelivered : ∀ m ∈ s.queue, ¬ (Carried.stimulus .epoch m).IsAbout node)
    (hbeats : ∀ a, T ≤ a → a + P ≤ t →
      ∃ now utc, .env now (.beat utc) ∈ tr ∧ a ≤ now ∧ now ≤ a + P)
    (ht : T + onlineThresholdS + cfg.removeAfterOfflineS + 2 * P < t)
    (hheeds : Session.Heeds cfg node (stimuliOf tr)) :
    s.Gone node ↔ s.Stale node := by
  have hledger : Ledger node (stimuliOf tr) s :=
    ledger_of_run h (fun i ↦ (ops i).tells) (fun _ ↦ rfl) rfl rfl
  rw [hledger.stale_iff]
  constructor
  · intro hgone m hm
    obtain ⟨q, _, honline⟩ := hledger.told m hm
    have hnot := hgone.retained m hm
    rw [honline] at hnot ⊢
    simpa using hnot
  · intro hoffline
    refine ⟨fun m hm ↦ by rw [hoffline m hm]; simp, ?_⟩
    rw [session_of_evolves h.evolves rfl]
    have hpositive' : (0 : ℚ) < cfg.removeAfterOfflineS := by exact_mod_cast hpositive
    have hthreshold : (0 : ℚ) < onlineThresholdS := by norm_num [onlineThresholdS]
    have hreached (x : Stimulus) (hx : x ∈ stimuliOf tr) (habout : x.IsAbout node) :
        x.time ≤ T + onlineThresholdS := by
      rcases mem_stimuliOf hx with ⟨now, utc, m, hmem, rfl⟩ | ⟨now, utc, hmem, rfl⟩
      · exact hlate now utc m hmem habout
      · exact habout.elim
    refine Session.silent_evicted hnode hpositive (ascends_stimuliOf hclock) hreached
      (fun pre x post hsplit hstate hlast ↦ ?_) hheeds ?_
    · cases x with
      | heartbeat clock => exact hstate.elim
      | message clock msg hsub =>
          obtain ⟨m, hm, hpayload⟩ := hledger.last_delivered
            (fun m hm htopic ↦ hdelivered m hm (.inr htopic)) hsplit hstate hlast
          exact ⟨hstate, m.payload, hpayload, hoffline m hm⟩
    · obtain ⟨now, utc, hmem, hle, _⟩ :=
        hbeats (T + onlineThresholdS + cfg.removeAfterOfflineS) (by linarith) (by linarith)
      exact ⟨⟨now, utc⟩, List.mem_filterMap.mpr ⟨_, hmem, rfl⟩, hle⟩

end Linked

/-! ## A summary, and silence -/

instance (topic : String) : Decidable (Subscribed topic) :=
  decidable_of_iff (topic = Topics.baseLocation ∨
    (Bridge.extractNodeId topic "/location").isSome ∨
      (Bridge.extractNodeId topic "/state").isSome) <| by
    constructor
    · rintro (rfl | h | h)
      · exact .base
      · obtain ⟨id, h⟩ := Option.isSome_iff_exists.mp h
        obtain ⟨hlevel, rfl⟩ := Bridge.extractNodeId_iff.mp h
        exact .location id hlevel
      · obtain ⟨id, h⟩ := Option.isSome_iff_exists.mp h
        obtain ⟨hlevel, rfl⟩ := Bridge.extractNodeId_iff.mp h
        exact .state id hlevel
    · intro h
      cases h with
      | base => exact .inl rfl
      | location id hlevel =>
          refine .inr (.inl (Option.isSome_iff_exists.mpr ⟨id, ?_⟩))
          exact Bridge.extractNodeId_iff.mpr ⟨hlevel, rfl⟩
      | state id hlevel =>
          refine .inr (.inr (Option.isSome_iff_exists.mpr ⟨id, ?_⟩))
          exact Bridge.extractNodeId_iff.mpr ⟨hlevel, rfl⟩

/-- What the effect publishes. -/
def sentBy : Eff → Option (String × List (String × PyVal) × Bool)
  | .publish topic payload retain => some (topic, payload, retain)
  | .underTtl _ e => sentBy e
  | .afterTtl e => sentBy e
  | _ => none

namespace Net

variable {ι : Type}

def put (g : Glance) (s : Net ι) : Option (String × List (String × PyVal) × Bool) → Net ι
  | none => s
  | some (topic, payload, retain) =>
    let m : Published := ⟨topic, payload, g⟩
    { s with
      last := if retain then Function.update s.last topic (some m) else s.last
      queue := if h : Subscribed m.topic then s.queue ++ [⟨m, h⟩] else s.queue }

theorem put_takes (g : Glance) (s : Net ι)
    (sent : Option (String × List (String × PyVal) × Bool)) : s.Takes (s.put g sent) g sent := by
  cases sent with
  | none => exact ⟨rfl, rfl⟩
  | some sent => exact ⟨rfl, fun h ↦ dif_pos h, fun h ↦ dif_neg h⟩

theorem Takes.congr {g : Glance} {s s' s'' : Net ι}
    {sent : Option (String × List (String × PyVal) × Bool)} (h : s.Takes s' g sent)
    (hlast : s''.last = s'.last) (hqueue : s''.queue = s'.queue) : s.Takes s'' g sent := by
  cases sent with
  | none => exact ⟨hlast.trans h.1, hqueue.trans h.2⟩
  | some sent => exact ⟨hlast.trans h.last, fun hsub ↦ hqueue.trans (h.queue hsub), fun hsub ↦
      hqueue.trans (h.ignored hsub)⟩

/-- Answer an effect of the task while nothing fails. -/
def respond [DecidableEq ι] (i : ι) (now : ℚ) (e : Eff) (s : Net ι) : e.Answer × Net ι :=
  let answered := e.respond .plain now (fun _ ↦ none) s.db
  (answered.1,
    { s.put (s.glance i) (sentBy e) with
      db := answered.2
      glance := Function.update s.glance i ((s.glance i).after e answered.1) })

theorem respond_sends (now : ℚ) (e : Eff) (db : Db) :
    e.Sends (e.respond .plain now (fun _ ↦ none) db).1 (sentBy e) := by
  induction e with
  | publish topic payload retain => exact .inl rfl
  | underTtl ttlS e ih => exact ih
  | afterTtl e ih => exact ih
  | _ => rfl

theorem put_rest (g : Glance) (s : Net ι) (sent : Option (String × List (String × PyVal) × Bool)) :
    (s.put g sent).session = s.session := by
  cases sent <;> rfl

theorem respond_linked [DecidableEq ι] {cfg : TakBridgeConfig} (i : ι) (now : ℚ) (e : Eff)
    (s : Net ι) :
    Linked .plain cfg s (.task i now ⟨e, (respond i now e s).1⟩) (respond i now e s).2 := by
  exact ⟨respond_serves .plain now e s.db, rfl, put_rest .., sentBy e, respond_sends ..,
    (put_takes (s.glance i) s (sentBy e)).congr rfl rfl⟩

end Net

/-- `apply_seen` for the time `ts` at the time `now`, alone. -/
def seenAt (ts now : ℚ) :
    List (Event Unit Eff.Answer ℚ Carry) × (Unit → Prog Unit) × Net Unit :=
  play Net.respond (List.replicate 7 ((), now))
    (fun _ ↦ (Operation.applySeen "node-a" (.float (.fin ts)) none none).prog .plain noGeo {},
      { db := Db.empty })

theorem seenAt_run (ts now : ℚ) (cfg : TakBridgeConfig) :
    Run (Linked .plain cfg)
      (fun _ ↦ (Operation.applySeen "node-a" (.float (.fin ts)) none none).prog .plain noGeo {})
      { db := Db.empty } (seenAt ts now).1 (seenAt ts now).2.1 (seenAt ts now).2.2 := by
  rcases hseen : seenAt ts now with ⟨tr, p, s⟩
  exact play_run (fun i now e s ↦ Net.respond_linked i now e s) hseen

/-- The summary is delivered at once, and three passes follow. -/
def silence (ts now : ℚ) : List (Event Unit Eff.Answer ℚ Carry) :=
  (seenAt ts now).1 ++
    (seenAt ts now).2.2.queue.map (fun m ↦ .env now (.deliver Clock.epoch.utc m)) ++
    [now + 1000, now + 2000, now + 3000].map fun b ↦ .env b (.beat Clock.epoch.utc)

section Silence

variable {cfg : TakBridgeConfig} {num : Numerals} {ι : Type} [DecidableEq ι] {p₀ p : ι → Prog Unit}
  {s₀ s : Net ι} {tr : List (Event ι Eff.Answer ℚ Carry)}

theorem deliver_all (now : ℚ) (utc : DateTime) (h : Run (Linked num cfg) p₀ s₀ tr p s) :
    ∃ s', Run (Linked num cfg) p₀ s₀ (tr ++ s.queue.map fun m ↦ .env now (.deliver utc m)) p s' ∧
      s'.queue = [] ∧ s'.last = s.last := by
  generalize hqueue : s.queue = queue
  induction queue generalizing s tr with
  | nil => exact ⟨s, by simpa using h, hqueue, rfl⟩
  | cons m rest ih =>
      have hacted : Linked num cfg s (.env now (.deliver utc m)) { s with
          queue := rest, session := s.session.step cfg (m.stimulus ⟨now, utc⟩) } :=
        ⟨rest, hqueue, rfl⟩
      obtain ⟨s', hrun, hempty, hlast⟩ := ih (h.env now _ hacted) rfl
      exact ⟨s', by simpa using hrun, hempty, hlast⟩

theorem beat_all (utc : DateTime) (beats : List ℚ) (h : Run (Linked num cfg) p₀ s₀ tr p s) :
    ∃ s', Run (Linked num cfg) p₀ s₀ (tr ++ beats.map fun b ↦ .env b (.beat utc)) p s' ∧
      s'.queue = s.queue ∧ s'.last = s.last := by
  induction beats generalizing s tr with
  | nil => exact ⟨s, by simpa using h, rfl, rfl⟩
  | cons b beats ih =>
      have hacted : Linked num cfg s (.env b (.beat utc))
          { s with session := s.session.step cfg (.heartbeat ⟨b, utc⟩) } := rfl
      obtain ⟨s', hrun, hqueue, hlast⟩ := ih (h.env b _ hacted)
      exact ⟨s', by simpa using hrun, hqueue, hlast⟩

end Silence

theorem silence_run (cfg : TakBridgeConfig) (ts now : ℚ) : ∃ p s,
    Run (Linked .plain cfg)
      (fun _ ↦ (Operation.applySeen "node-a" (.float (.fin ts)) none none).prog .plain noGeo {})
      { db := Db.empty } (silence ts now) p s ∧ s.queue = [] ∧
        s.last = (seenAt ts now).2.2.last := by
  obtain ⟨s₁, hrun₁, hqueue₁, hlast₁⟩ := deliver_all now Clock.epoch.utc (seenAt_run ts now cfg)
  obtain ⟨s₂, hrun₂, hqueue₂, hlast₂⟩ :=
    beat_all Clock.epoch.utc [now + 1000, now + 2000, now + 3000] hrun₁
  exact ⟨_, s₂, hrun₂, hqueue₂.trans hqueue₁, hlast₂.trans hlast₁⟩

theorem silence_delivers {ts now t : ℚ} {utc : DateTime} {m : Carried}
    (h : .env t (.deliver utc m) ∈ silence ts now) : t = now ∧ m ∈ (seenAt ts now).2.2.queue := by
  rw [silence, List.mem_append, List.mem_append] at h
  rcases h with (h | h) | h
  · exact (env_not_mem_play _ _ _ _ _ _ h).elim
  · obtain ⟨m', hm', heq⟩ := List.mem_map.mp h
    cases heq
    exact ⟨rfl, hm'⟩
  · obtain ⟨b, _, heq⟩ := List.mem_map.mp h
    cases heq

theorem silence_beats {ts now a : ℚ} (hle : now ≤ a) (hend : a + 1000 ≤ now + 3000) :
    ∃ b utc, .env b (.beat utc) ∈ silence ts now ∧ a ≤ b ∧ b ≤ a + 1000 := by
  have hbeat {b : ℚ} (hb : b ∈ [now + 1000, now + 2000, now + 3000]) :
      .env b (.beat Clock.epoch.utc) ∈ silence ts now :=
    List.mem_append_right _ (List.mem_map.mpr ⟨b, hb, rfl⟩)
  rcases le_or_gt a (now + 1000) with ha | ha
  · exact ⟨now + 1000, _, hbeat (by simp), ha, by linarith⟩
  · exact ⟨now + 2000, _, hbeat (by simp), by linarith, by linarith⟩

instance (v : PyVal) (b : Bool) : Decidable (v = .bool b) :=
  match v with
  | .bool a => decidable_of_iff (a = b) (by simp)
  | .none | .str _ | .int _ | .float _ | .list _ | .dict _ => isFalse (by simp)

theorem silence_ascends {ts now : ℚ} (h : ((silence ts now).map Event.now).Pairwise (· ≤ ·)) :
    Ascends (silence ts now) := List.pairwise_map.mp h

/-- Seen at the start, reported online, and neither reported offline nor evicted by the
three passes that follow. -/
theorem silence_stays : ∃ p s,
    Run (Linked .plain {})
      (fun _ ↦ (Operation.applySeen "node-a" (.float (.fin 1000)) none none).prog .plain noGeo {})
      { db := Db.empty } (silence 1000 1000) p s ∧
    Ascends (silence 1000 1000) ∧ (∀ ev ∈ silence 1000 1000, ev.now ≤ 4000) ∧ s.queue = [] ∧
    (∀ now utc m, .env now (.deliver utc m) ∈ silence 1000 1000 → now = 1000) ∧
    (∀ a, 1000 ≤ a → a + 1000 ≤ 4000 →
      ∃ b utc, .env b (.beat utc) ∈ silence 1000 1000 ∧ a ≤ b ∧ b ≤ a + 1000) ∧
    1000 + onlineThresholdS + ({} : TakBridgeConfig).removeAfterOfflineS + 2 * 1000 < 4000 ∧
    (∃ m, s.last (Topics.nodeStateTopic "node-a") = some m ∧
      fieldOf m.payload "online" = .bool true) ∧
    (s.session.bridge.state.get? "node-a").isSome ∧ ¬ s.Gone "node-a" := by
  obtain ⟨p, s, hrun, hqueue, hlast⟩ := silence_run {} 1000 1000
  have honline : ((seenAt 1000 1000).2.2.last (Topics.nodeStateTopic "node-a")).any
      (fun m ↦ decide (fieldOf m.payload "online" = .bool true)) = true := by decide +kernel
  rw [← hlast] at honline
  obtain ⟨m, hm, hsays⟩ := (Option.any_eq_true _ _).mp honline
  have hheld :
      ((Session.run {} (stimuliOf (silence 1000 1000))).bridge.state.get? "node-a").isSome =
      true := by decide +kernel
  rw [← session_of_evolves hrun.evolves rfl] at hheld
  have hend : ∀ t ∈ (silence 1000 1000).map Event.now, t ≤ 4000 := by decide +kernel
  refine ⟨p, s, hrun, silence_ascends (by decide +kernel),
    fun ev hev ↦ hend _ (List.mem_map_of_mem hev), hqueue,
    fun now utc m hm ↦ (silence_delivers hm).1,
    fun a hstart ha ↦ silence_beats hstart (by linarith),
    by norm_num [onlineThresholdS], ⟨m, hm, of_decide_eq_true hsays⟩, hheld, fun hgone ↦ ?_⟩
  exact hgone.retained m hm (of_decide_eq_true hsays)

theorem silence_heeds (cfg : TakBridgeConfig) :
    Session.Heeds cfg "node-a" (stimuliOf (silence 500 1000)) := by
  have htopic : ∀ m ∈ (seenAt 500 1000).2.2.queue,
      m.1.topic = Topics.nodeStateTopic "node-a" := by decide +kernel
  have hlat : ∀ m ∈ (seenAt 500 1000).2.2.queue,
      (fieldOf m.1.payload "lat").isNone = true := by decide +kernel
  refine Session.heeds_of_states (fun x hx habout ↦ ?_) fun x hx ↦ ?_
  · rcases mem_stimuliOf hx with ⟨now, utc, m, hmem, rfl⟩ | ⟨now, utc, hmem, rfl⟩
    · exact htopic m (silence_delivers hmem).2
    · exact habout.elim
  · rcases mem_stimuliOf hx with ⟨now, utc, m, hmem, rfl⟩ | ⟨now, utc, hmem, rfl⟩
    · intro kvs hkvs
      cases hkvs
      exact hlat m (silence_delivers hmem).2
    · trivial

/-- Seen through a message that is already older than the threshold, the node goes. -/
theorem silence_gone : ∃ p s,
    Run (Linked .plain {})
      (fun _ ↦ (Operation.applySeen "node-a" (.float (.fin 500)) none none).prog .plain noGeo {})
      { db := Db.empty } (silence 500 1000) p s ∧ s.Stale "node-a" ∧ s.Gone "node-a" := by
  obtain ⟨p, s, hrun, hqueue, hlast⟩ := silence_run {} 500 1000
  have hglance : ((seenAt 500 1000).2.2.last (Topics.nodeStateTopic "node-a")).map
      Published.glance = some ⟨some (.fin 500), 1000⟩ := by decide +kernel
  have hstale : s.Stale "node-a" := by
    intro m hm q hseen
    rw [← hlast, hm, Option.map_some, Option.some.injEq] at hglance
    rw [hglance] at hseen ⊢
    cases hseen
    norm_num [onlineThresholdS]
  have hlate (now : ℚ) (utc : DateTime) (m : Carried)
      (hm : .env now (.deliver utc m) ∈ silence 500 1000)
      (_ : (Carried.stimulus ⟨now, utc⟩ m).IsAbout "node-a") :
      now ≤ 1000 + onlineThresholdS := by
    rw [(silence_delivers hm).1]
    norm_num [onlineThresholdS]
  have hiff : s.Gone "node-a" ↔ s.Stale "node-a" :=
    silent_gone_iff (T := 1000) (P := 1000) (t := 4000) hrun (silence_ascends (by decide +kernel))
      (by decide) (by norm_num) (by decide) hlate (by simp [hqueue])
      (fun a hstart ha ↦ silence_beats hstart (by linarith)) (by norm_num [onlineThresholdS])
      (silence_heeds {})
  exact ⟨p, s, hrun, hstale, hiff.mpr hstale⟩

end MeshcoreRpc.Tak
