import MeshcoreRpc.Tak.Offline
import MeshcoreRpc.Tak.Sink

/-!
# The bridge with its sink

The bridge forgets an evicted node at once; its drop event has the queue of the
sink before it.  A run of the two is a list of moves.  Nothing suspends between
the events of one step of the bridge, so while some of them are still to be
handed to `send`, nothing else moves.
-/

namespace MeshcoreRpc.Tak

open Tables

/-! ## The last word about an entity -/

section LastWord

def lastOf (uid : String) (cots : List CotEvent) : Option CotEvent :=
  (cots.filter fun cot ↦ cot.uid = uid).getLast?

/-- The last event with the uid is a track. -/
def Lingers (uid : String) (cots : List CotEvent) : Prop :=
  ∃ cot, lastOf uid cots = some cot ∧ cot.isDrop = false

def Drops (uid : String) (cots : List CotEvent) : Prop :=
  ∃ cot ∈ cots, cot.uid = uid ∧ cot.isDrop = true

variable {uid : String} {cots cots' : List CotEvent}

theorem lastOf_append : lastOf uid (cots ++ cots') = (lastOf uid cots').or (lastOf uid cots) := by
  rw [lastOf, lastOf, lastOf, List.filter_append, List.getLast?_append]

theorem lastOf_eq_none : lastOf uid cots = none ↔ ∀ cot ∈ cots, cot.uid ≠ uid := by
  simp [lastOf]

theorem mem_of_lastOf {cot : CotEvent} (h : lastOf uid cots = some cot) :
    cot ∈ cots ∧ cot.uid = uid := by
  have hmem := List.mem_filter.mp (List.mem_of_getLast? h)
  exact ⟨hmem.1, of_decide_eq_true hmem.2⟩

theorem lingers_append_other (h : lastOf uid cots' = none) :
    Lingers uid (cots ++ cots') ↔ Lingers uid cots := by
  rw [Lingers, Lingers, lastOf_append, h, Option.none_or]

theorem lingers_append_last {cot : CotEvent} (h : lastOf uid cots' = some cot) :
    Lingers uid (cots ++ cots') ↔ cot.isDrop = false := by
  rw [Lingers, lastOf_append, h, Option.some_or]
  simp

/-- A track that no longer is the last word was followed by a drop event. -/
theorem Lingers.dropped (h : Lingers uid cots) (hnot : ¬ Lingers uid (cots ++ cots')) :
    Drops uid cots' := by
  cases hlast : lastOf uid cots' with
  | none => exact absurd ((lingers_append_other hlast).mpr h) hnot
  | some cot =>
      rw [lingers_append_last hlast, Bool.not_eq_false] at hnot
      obtain ⟨hmem, huid⟩ := mem_of_lastOf hlast
      exact ⟨cot, hmem, huid, hnot⟩

theorem drops_append : Drops uid (cots ++ cots') ↔ Drops uid cots ∨ Drops uid cots' := by
  simp only [Drops, List.mem_append, or_and_right, exists_or]

theorem lingers_append_drops {new : List CotEvent}
    (h : ∀ cot ∈ new, cot.uid = uid → cot.isDrop = true) (hlinger : Lingers uid (cots ++ new)) :
    Lingers uid cots ∧ lastOf uid new = none := by
  cases hlast : lastOf uid new with
  | none => exact ⟨(lingers_append_other hlast).mp hlinger, rfl⟩
  | some cot =>
      obtain ⟨hmem, huid⟩ := mem_of_lastOf hlast
      rw [lingers_append_last hlast, h cot hmem huid] at hlinger
      cases hlinger

theorem Drops.not_other (h : Drops uid cots) :
    lastOf uid cots ≠ none := by
  obtain ⟨cot, hcot, huid, _⟩ := h
  exact fun hnone ↦ lastOf_eq_none.mp hnone cot hcot huid

end LastWord

/-! ## What the bridge sends -/

namespace Bridge

/-- An entity goes by the uid. -/
def Has (b : Bridge) (uid : String) : Prop :=
  ∃ key, (b.state.get? key).isSome ∧ uidOf key = uid

/-- The pass gets to the node and evicts it. -/
def Evicts (cfg : TakBridgeConfig) (clock : Clock) (b : Bridge) (id : String) : Prop :=
  ∃ pre post, due cfg clock b = pre ++ id :: post ∧ ∀ id' ∈ pre ++ [id], Droppable b id'

variable {cfg : TakBridgeConfig} {clock : Clock} {b : Bridge}

theorem publishOne_has {key : String} {sent : List CotEvent}
    (h : publishOne cfg clock key b = .ok sent) : ∀ cot ∈ sent, b.Has cot.uid := by
  intro cot hcot
  refine ⟨key, ?_, (publishOne_uid h cot hcot).symm⟩
  cases hget : b.state.get? key with
  | none =>
      rw [publishOne, hget] at h
      cases h
      cases hcot
  | some record => rfl

theorem publishKeys_has {keys : List String} :
    ∀ cot ∈ (publishKeys cfg clock b keys).1, b.Has cot.uid :=
  forall_publishKeys fun _ _ ↦ publishOne_has

theorem handle_has {msg : MqttMessage} :
    ∀ cot ∈ (handleMqttMessage cfg clock msg b).sent,
      (handleMqttMessage cfg clock msg b).bridge.Has cot.uid := by
  rcases handle_cases cfg clock msg b with ⟨_, hsent⟩ | ⟨kvs, b', _, _, heq⟩
  · simp [hsent]
  · rw [heq, publishChange_bridge, publishChange]
    cases hone : publishOne cfg clock (keyFor msg.topic) b' with
    | error err => simp
    | ok sent => exact publishOne_has hone

theorem evictNodes_drops {ids : List String} :
    ∀ cot ∈ (evictNodes cfg clock ids b).sent, cot.isDrop = true := by
  induction ids generalizing b with
  | nil => simp [evictNodes]
  | cons first rest ih =>
      intro cot hcot
      cases hdrop : publishDrop cfg clock first b with
      | error err => simp [evictNodes, hdrop] at hcot
      | ok sent =>
          rw [evictNodes_cons hdrop] at hcot
          rcases List.mem_append.mp hcot with hcot | hcot
          · exact (publishDrop_sent hdrop).1 cot hcot
          · exact ih cot hcot

/-- A node that an eviction removes was reached by it, and dropped if it had a position. -/
theorem evictNodes_removed {ids : List String} (hnodup : ids.Nodup) {id : String}
    (hheld : (b.state.get? id).isSome)
    (hgone : (evictNodes cfg clock ids b).bridge.state.get? id = none) :
    (∃ pre post, ids = pre ++ id :: post ∧ ∀ id' ∈ pre ++ [id], Droppable b id') ∧
      (b.placed id = true → Drops (uidOf id) (evictNodes cfg clock ids b).sent) := by
  induction ids generalizing b with
  | nil =>
      rw [evictNodes] at hgone
      rw [hgone] at hheld
      cases hheld
  | cons first rest ih =>
      cases hdrop : publishDrop cfg clock first b with
      | error err =>
          rw [evictNodes, hdrop] at hgone
          rw [hgone] at hheld
          cases hheld
      | ok sent =>
          obtain ⟨hnew, hnodup⟩ := List.nodup_cons.mp hnodup
          rw [evictNodes_cons hdrop] at hgone ⊢
          by_cases hid : id = first
          · subst hid
            refine ⟨⟨[], rest, rfl, fun id' hid' ↦ ?_⟩, fun hplaced ↦ ?_⟩
            · rw [List.mem_singleton.mp hid']
              exact droppable_of_ok hdrop
            · obtain ⟨hdrops, huid⟩ := publishDrop_sent hdrop
              rw [if_pos hplaced] at huid
              obtain ⟨cot, hcot, hcotUid⟩ := List.mem_map.mp (huid ▸ List.mem_singleton_self _)
              exact ⟨cot, List.mem_append_left _ hcot, hcotUid, hdrops cot hcot⟩
          · have hstate : (b.forget first).state.get? id = b.state.get? id := by
              rw [forget, Dict.get?_erase, if_neg hid]
            obtain ⟨⟨pre, post, hsplit, hall⟩, hdropped⟩ := ih hnodup (hstate ▸ hheld) hgone
            refine ⟨⟨first :: pre, post, by rw [hsplit]; rfl, ?_⟩, fun hplaced ↦ ?_⟩
            · rw [List.cons_append]
              refine List.forall_mem_cons.mpr ⟨droppable_of_ok hdrop, fun id' hid' ↦ ?_⟩
              refine (hall id' hid').of_forget ?_
              rintro rfl
              refine hnew (hsplit ▸ ?_)
              rcases List.mem_append.mp hid' with hid' | hid'
              · exact List.mem_append_left _ hid'
              · rw [List.mem_singleton.mp hid']
                exact List.mem_append_right _ List.mem_cons_self
            · have hsame : (b.forget first).placed id = true := by rwa [placed, hstate]
              obtain ⟨cot, hcot, huid, htrue⟩ := hdropped hsame
              exact ⟨cot, List.mem_append_right _ hcot, huid, htrue⟩

theorem nodup_due : (due cfg clock b).Nodup := by
  rw [due]
  split
  · exact List.nodup_nil
  · exact b.offlineSince.nodup.sublist (List.filter_sublist.map _)

theorem heartbeat_sent : ∃ later, (heartbeat cfg clock b).sent =
    (evictNodes cfg clock (due cfg clock b) b).sent ++ later ∧
      ∀ cot ∈ later, (heartbeat cfg clock b).bridge.Has cot.uid := by
  rw [heartbeat, evictLongOffline_eq]
  cases (evictNodes cfg clock (due cfg clock b) b).outcome with
  | ok _ => exact ⟨_, rfl, publishKeys_has⟩
  | error err => exact ⟨[], by simp, by simp⟩

/-- What a pass sends about an entity that it leaves without a record are drop events. -/
theorem heartbeat_absent {cot : CotEvent} (hcot : cot ∈ (heartbeat cfg clock b).sent)
    (h : ¬ (heartbeat cfg clock b).bridge.Has cot.uid) : cot.isDrop = true := by
  obtain ⟨later, hsent, hlater⟩ := @heartbeat_sent cfg clock b
  rw [hsent] at hcot
  rcases List.mem_append.mp hcot with hcot | hcot
  · exact evictNodes_drops cot hcot
  · exact absurd (hlater cot hcot) h

theorem heartbeat_removed {id : String} (hheld : (b.state.get? id).isSome)
    (hgone : (heartbeat cfg clock b).bridge.state.get? id = none) :
    Evicts cfg clock b id ∧
      (b.placed id = true → Drops (uidOf id) (heartbeat cfg clock b).sent) := by
  rw [heartbeat_bridge] at hgone
  obtain ⟨hevicts, hdropped⟩ := evictNodes_removed nodup_due hheld hgone
  refine ⟨hevicts, fun hplaced ↦ ?_⟩
  obtain ⟨cot, hcot, huid, htrue⟩ := hdropped hplaced
  obtain ⟨later, hsent, _⟩ := @heartbeat_sent cfg clock b
  exact ⟨cot, hsent ▸ List.mem_append_left _ hcot, huid, htrue⟩

end Bridge

/-! ## What the sink keeps -/

/-- In the `on_reconnect` callback. -/
def Phase.calling {α : Type} : Phase α → Bool
  | reconnecting => true
  | _ => false

namespace TakSink

variable {α : Type} {s s' : TakSink α} {action : SinkAction α}

/-- The queue is going to be written, not dropped by the next session. -/
def live (s : TakSink α) : Bool := !s.wasConnected || s.phase.inSession

/-- What a step without a new event does to those under way. -/
inductive Way (s s' : TakSink α) (action : SinkAction α) : Prop
  | stays (live : s'.live = s.live) (line : s'.line = s.line)
      (backlog : s.live = false → s'.written = s.written ∧ s'.queue = s.queue) : Way s s' action
  | leaves (live : s.live = true) (live' : s'.live = false) (written : s'.written = s.written)
      (queue : s.queue <+: s'.queue)
      (held : s.phase.held = [] ∨ action = .raised ∨ action = .cancelled) : Way s s' action
  | drains (live : s.live = false) (written : s'.written = s.written) (held : s'.phase.held = [])
      (queue : s'.queue = []) (opened : action = .opened) : Way s s' action

/-- The task moves on inside or outside of a session. -/
theorem way_of_phase {p : Phase α} (hp : p.inSession = s.phase.inSession)
    (hheld : s.phase.held = [])
    (hheld' : p.held = []) (stop : Bool) : Way s { s with phase := p, stop := stop } action := by
  refine .stays ?_ ?_ fun _ ↦ ⟨rfl, rfl⟩
  · rw [live, live, hp]
  · rw [line, line, hheld, hheld']

theorem way_of_leave (h : Sound s) {p : Phase α} (hin : s.phase.inSession = true)
    (hp : p.inSession = false)
    (hheld : s.phase.held = [] ∨ action = .raised ∨ action = .cancelled) :
    Way s { s with phase := p } action := by
  have hconnected := h.session hin
  refine .leaves ?_ ?_ rfl List.prefix_rfl hheld
  · rw [live, hin, Bool.or_true]
  · rw [live, hp, hconnected]
    rfl

theorem way_of_serve (h : Sound s) (hin : s.phase.inSession = true) (hheld : s.phase.held = []) :
    Way s s.serve action := by
  rw [serve]
  split
  · exact way_of_leave h hin rfl (.inl hheld)
  · exact way_of_phase (p := .serving) hin.symm hheld rfl s.stop

theorem way_of_established (hphase : s.phase = .connecting) :
    Way s s.established .opened := by
  rw [established]
  cases hconnected : s.wasConnected with
  | true =>
      have hlive : s.live = false := by rw [live, hphase, hconnected]; rfl
      dsimp only
      rw [if_pos rfl]
      split
      · exact .drains hlive rfl rfl rfl rfl
      · refine .drains hlive rfl ?_ rfl rfl
        rw [serve]
        split <;> rfl
  | false =>
      have hlive : s.live = true := by rw [live, hconnected]; rfl
      dsimp only
      rw [if_neg Bool.false_ne_true, serve]
      split
      · exact .leaves hlive rfl rfl List.prefix_rfl (.inl (by rw [hphase]; rfl))
      · refine .stays (by rw [hlive]; rfl) ?_ fun hdead ↦
          absurd (hlive.symm.trans hdead) (by decide)
        rw [line, line, hphase]
        rfl

theorem held_of_outside {p : Phase α} (h : p.inSession = false) : p.held = [] := by
  cases p with
  | holding e => cases h
  | _ => rfl

theorem step_way (h : Sound s) (hstep : s.step action = some s')
    (hsend : ∀ cot, action ≠ .send cot) : Way s s' action := by
  cases step_moves hstep with
  | send cot => exact absurd rfl (hsend cot)
  | start =>
      rw [start]
      split
      · rename_i hphase
        exact way_of_phase (by rw [hphase]; rfl) (by rw [hphase]; rfl) rfl false
      · exact .stays rfl rfl fun _ ↦ ⟨rfl, rfl⟩
  | stop => exact .stays rfl rfl fun _ ↦ ⟨rfl, rfl⟩
  | attempt hphase =>
      refine way_of_phase ?_ (by rw [hphase]; rfl) ?_ s.stop
      · rw [hphase]
        split <;> rfl
      · split <;> rfl
  | opened hphase => exact way_of_established hphase
  | serves hin hheld => exact way_of_serve h hin hheld
  | took hphase hqueue =>
      refine .stays (by rw [live, live, hphase]; rfl) ?_ fun hdead ↦ ?_
      · rw [line, line, hphase, hqueue]
        simp [Phase.held]
      · rw [live, hphase] at hdead
        simp [Phase.inSession] at hdead
  | wrote hphase =>
      refine .stays (by rw [live, live, hphase]; rfl) ?_ fun hdead ↦ ?_
      · rw [line, line, hphase]
        simp [Phase.held]
      · rw [live, hphase] at hdead
        simp [Phase.inSession] at hdead
  | failed hphase =>
      have hin : s.phase.inSession = true := by rw [hphase]; rfl
      refine .leaves (by rw [live, hin, Bool.or_true]) (by rw [live, h.session hin]; rfl) rfl ?_
        (.inl (by rw [hphase]; rfl))
      rw [putNowait]
      split
      · exact List.prefix_append _ _
      · exact List.prefix_rfl
  | retries hout =>
      refine way_of_phase ?_ (held_of_outside hout) ?_ s.stop
      · rw [hout]
        split <;> rfl
      · split <;> rfl
  | closes cancelled hin how => exact way_of_leave h hin rfl (.inr how)
  | ends hheld =>
      cases hin : s.phase.inSession with
      | true => exact way_of_leave h hin rfl (.inl hheld)
      | false => exact way_of_phase (p := .absent) hin.symm hheld rfl s.stop

end TakSink

/-! ## The two together -/

structure Relay where
  session : Session := {}
  sink : TakSink CotEvent := { onReconnect := true }
  /-- Events of the present step of the bridge, not yet handed to `send`. -/
  pending : List CotEvent := []

inductive Move where
  | stimulus (x : Stimulus)
  /-- The next event is handed to `send`. -/
  | hand
  | sink (clock : Clock) (action : SinkAction CotEvent)

namespace Relay

/-- A step of the bridge has not ended, be it the callback of the sink. -/
def busy (r : Relay) : Bool := !r.pending.isEmpty || r.sink.phase.calling

variable (cfg : TakBridgeConfig)

def step (r : Relay) : Move → Option Relay
  | .stimulus x =>
    if r.busy then none
    else
      let session := r.session.step cfg x
      some { r with session, pending := session.sent.drop r.session.sent.length }
  | .hand =>
    match r.pending with
    | cot :: pending => some { r with sink := r.sink.send cot, pending }
    | [] => none
  | .sink _ (.send _) => none
  | .sink clock .opened =>
    if r.busy then none
    else (r.sink.step .opened).map fun sink ↦
      { r with
        sink
        pending :=
          if sink.phase.calling then (Bridge.republishAll cfg clock r.session.bridge).sent
          else [] }
  | .sink _ .calledBack =>
    if r.pending.isEmpty then (r.sink.step .calledBack).map fun sink ↦ { r with sink } else none
  | .sink _ action =>
    if r.busy then none else (r.sink.step action).map fun sink ↦ { r with sink }

def run (moves : List Move) : Option Relay := moves.foldlM (step cfg) {}

def written (r : Relay) : List CotEvent := r.sink.written.map fun w ↦ w.event.cot

def held (r : Relay) : List CotEvent := r.sink.phase.held.map Sent.cot

def queue (r : Relay) : List CotEvent := r.sink.queue.map Sent.cot

/-- What will have been written when the queue is empty, if nothing interferes. -/
def course (r : Relay) : List CotEvent :=
  if r.sink.live then r.written ++ r.held ++ r.queue else r.written

/-- Connected, with nothing on its way. -/
structure Settled (r : Relay) : Prop where
  connected : r.sink.phase.inSession = true
  idle : r.busy = false
  held : r.sink.phase.held = []
  queue : r.sink.queue = []

/-- What the TAK side was last shown as a track is an entity of the bridge. -/
def Faithful (r : Relay) : Prop :=
  r.Settled → ∀ uid, Lingers uid r.written → r.session.bridge.Has uid

/-- Where events are given up, the drop event of an absent entity that was shown as
a track is followed by another among those that are kept. -/
def Spared (r : Relay) (shown lost kept : List CotEvent) : Prop :=
  ∀ uid, ¬ r.session.bridge.Has uid → Lingers uid shown → Drops uid lost → Drops uid kept

/-- No drop event gets lost on the way, and none is left out for want of a position. -/
def Careful (r : Relay) : Move → Prop
  | .stimulus (.heartbeat clock) =>
    r.session.beating = true → ∀ uid, r.session.bridge.Has uid → Lingers uid r.course →
      ∃ key, (r.session.bridge.state.get? key).isSome ∧ Bridge.uidOf key = uid ∧
        (r.session.bridge.placed key = true ∨ ¬ Bridge.Evicts cfg clock r.session.bridge key)
  | .hand => queueCap ≤ r.queue.length →
      r.Spared (r.written ++ r.held) (r.queue.take 1) (r.queue.drop 1 ++ r.pending)
  | .sink _ .opened => r.sink.wasConnected = true → r.Spared r.written r.queue []
  | .sink _ .raised => r.Spared r.written r.held r.queue
  | .sink _ .cancelled => r.Spared r.written r.held r.queue
  | _ => True

/-! ## What careful moves keep -/

variable {cfg} {r r' : Relay}

/-- No absent entity is left shown as a track by what is on its way; or, where the
queue is to be dropped, its drop event is still there to be missed. -/
structure Kept (r : Relay) : Prop where
  sound : r.sink.Sound
  live : r.sink.live = true → ∀ uid, ¬ r.session.bridge.Has uid →
    ¬ Lingers uid (r.written ++ r.held ++ r.queue ++ r.pending)
  doomed : r.sink.live = false → ∀ uid, ¬ r.session.bridge.Has uid → Lingers uid r.written →
    Drops uid (r.queue ++ r.pending)

/-- A step of the bridge that drops whom it removes. -/
theorem Kept.stimulus (h : r.Kept) (hpending : r.pending = []) {session : Session}
    {new : List CotEvent}
    (habsent : ∀ uid, ¬ session.bridge.Has uid → ∀ cot ∈ new, cot.uid = uid → cot.isDrop = true)
    (hremoved : ∀ uid, ¬ session.bridge.Has uid → r.session.bridge.Has uid →
      Lingers uid r.course → Drops uid new) :
    Kept { r with session, pending := new } := by
  refine ⟨h.sound, fun hlive uid hgone hlinger ↦ ?_, fun hdead uid hgone hlinger ↦ ?_⟩
  · obtain ⟨hlinger, hnone⟩ := lingers_append_drops (habsent uid hgone) hlinger
    have hhad : r.session.bridge.Has uid := by
      by_contra hnot
      refine h.live hlive uid hnot ?_
      rwa [hpending, List.append_nil]
    refine (hremoved uid hgone hhad ?_).not_other hnone
    rwa [course, if_pos hlive]
  · by_cases hhad : r.session.bridge.Has uid
    · have hlinger' : Lingers uid r.course := by
        rw [course, if_neg (by rw [hdead]; exact Bool.false_ne_true)]
        exact hlinger
      obtain ⟨cot, hcot, hdrop⟩ := hremoved uid hgone hhad hlinger'
      exact ⟨cot, List.mem_append_right _ hcot, hdrop⟩
    · obtain ⟨cot, hcot, hdrop⟩ := h.doomed hdead uid hhad hlinger
      rw [hpending, List.append_nil] at hcot
      exact ⟨cot, List.mem_append_left _ hcot, hdrop⟩

theorem Kept.message (h : r.Kept) (hpending : r.pending = []) {clock : Clock} {msg : MqttMessage}
    {hsub : Subscribed msg.topic} {session : Session}
    (hsession : session = r.session.step cfg (.message clock msg hsub)) :
    Kept { r with session, pending := session.sent.drop r.session.sent.length } := by
  have hnew : session.sent.drop r.session.sent.length =
      (Bridge.handleMqttMessage cfg clock msg r.session.bridge).sent := by
    simp [hsession, Session.step]
  have hbridge : session.bridge =
      (Bridge.handleMqttMessage cfg clock msg r.session.bridge).bridge := by
    rw [hsession, Session.step]
  rw [hnew]
  refine h.stimulus hpending (fun uid hgone cot hcot huid ↦ ?_) fun uid hgone hhad _ ↦ ?_
  · refine absurd (Bridge.handle_has cot hcot) ?_
    rwa [huid, ← hbridge]
  · obtain ⟨key, hheld, huid⟩ := hhad
    refine absurd ⟨key, ?_, huid⟩ hgone
    rw [hbridge]
    exact Bridge.handle_keeps hheld

theorem Kept.heartbeat (h : r.Kept) (hpending : r.pending = []) {clock : Clock} {session : Session}
    (hsession : session = r.session.step cfg (.heartbeat clock))
    (hcareful : r.Careful cfg (.stimulus (.heartbeat clock))) :
    Kept { r with session, pending := session.sent.drop r.session.sent.length } := by
  cases hbeating : r.session.beating with
  | false =>
      have hidle : session = r.session := by simp [hsession, Session.step, hbeating]
      subst hidle
      rw [List.drop_length]
      exact h.stimulus hpending (by simp) fun uid hgone hhad ↦ absurd hhad hgone
  | true =>
      have hnew : session.sent.drop r.session.sent.length =
          (Bridge.heartbeat cfg clock r.session.bridge).sent := by
        simp [hsession, Session.step, hbeating]
      have hbridge : session.bridge = (Bridge.heartbeat cfg clock r.session.bridge).bridge := by
        simp [hsession, Session.step, hbeating]
      rw [hnew]
      refine h.stimulus hpending (fun uid hgone cot hcot huid ↦ ?_) fun uid hgone hhad hlinger ↦ ?_
      · refine Bridge.heartbeat_absent hcot ?_
        rwa [huid, ← hbridge]
      · obtain ⟨key, hheld, huid, hkey⟩ := hcareful hbeating uid hhad hlinger
        have hnone : (Bridge.heartbeat cfg clock r.session.bridge).bridge.state.get? key =
            none := by
          refine Option.not_isSome_iff_eq_none.mp fun hstill ↦ hgone ⟨key, ?_, huid⟩
          rwa [hbridge]
        obtain ⟨hevicts, hdropped⟩ := Bridge.heartbeat_removed hheld hnone
        rcases hkey with hplaced | hspared
        · exact huid ▸ hdropped hplaced
        · exact absurd hevicts hspared

theorem held_of_dead (hdead : r.sink.live = false) : r.held = [] := by
  rw [TakSink.live, Bool.or_eq_false_iff] at hdead
  rw [held, TakSink.held_of_outside hdead.2, List.map_nil]

theorem line_cots : r.written ++ r.held ++ r.queue = r.sink.line.map Sent.cot := by
  simp [written, held, queue, TakSink.line, Function.comp_def]

/-- Events go from the bridge to the queue, which may lose its oldest one to them. -/
theorem Kept.hand (h : r.Kept) {cot : CotEvent} {pending : List CotEvent}
    (hpending : r.pending = cot :: pending) (hcareful : r.Careful cfg .hand) :
    Kept { r with sink := r.sink.send cot, pending } := by
  obtain ⟨k, hk⟩ : ∃ k, k = r.queue.length + 1 - queueCap := ⟨_, rfl⟩
  have hcap : r.queue.length ≤ queueCap := by
    rw [queue, List.length_map]
    exact h.sound.cap
  have hqueue : (r.sink.send cot).queue.map Sent.cot = r.queue.drop k ++ [cot] := by
    rw [TakSink.send_drops cot h.sound.cap, List.map_append, List.map_drop, hk, queue,
      List.length_map]
    rfl
  have hspared : r.Spared (r.written ++ r.held) (r.queue.take k) (r.queue.drop k ++ r.pending) := by
    by_cases hfull : queueCap ≤ r.queue.length
    · have hone : k = 1 := by omega
      exact hone ▸ hcareful hfull
    · have hzero : k = 0 := by omega
      rw [hzero, List.take_zero]
      rintro uid _ _ ⟨cot, hcot, _⟩
      cases hcot
  have hsplit : r.queue ++ r.pending = r.queue.take k ++ (r.queue.drop k ++ r.pending) := by
    rw [← List.append_assoc, List.take_append_drop]
  have hkept : r.queue.drop k ++ [cot] ++ pending = r.queue.drop k ++ r.pending := by
    rw [hpending, List.append_assoc]
    rfl
  refine ⟨h.sound.send cot, fun hlive uid hgone hlinger ↦ ?_, fun hdead uid hgone hlinger ↦ ?_⟩
  · have hbefore := h.live hlive uid hgone
    rw [List.append_assoc, hsplit] at hbefore
    change Lingers uid (r.written ++ r.held ++ (r.sink.send cot).queue.map Sent.cot ++ pending)
      at hlinger
    rw [hqueue, List.append_assoc, hkept] at hlinger
    cases hlast : lastOf uid (r.queue.drop k ++ r.pending) with
    | some last =>
        rw [← List.append_assoc] at hbefore
        exact hbefore ((lingers_append_last hlast).mpr ((lingers_append_last hlast).mp hlinger))
    | none =>
        have hshown := (lingers_append_other hlast).mp hlinger
        rcases drops_append.mp (hshown.dropped hbefore) with hlost | hkept
        · exact (hspared uid hgone hshown hlost).not_other hlast
        · exact hkept.not_other hlast
  · have hshown : Lingers uid (r.written ++ r.held) := by
      have hdead' : r.sink.live = false := hdead
      rw [held_of_dead hdead', List.append_nil]
      exact hlinger
    have hdrops := h.doomed hdead uid hgone hlinger
    change Drops uid ((r.sink.send cot).queue.map Sent.cot ++ pending)
    rw [hqueue, hkept]
    rw [hsplit] at hdrops
    rcases drops_append.mp hdrops with hlost | hkept
    · exact hspared uid hgone hshown hlost
    · exact hkept

theorem Kept.sink (h : r.Kept) (hpending : r.pending = []) {action : SinkAction CotEvent}
    {sink : TakSink CotEvent} {new : List CotEvent} (hway : r.sink.Way sink action)
    (hsound : sink.Sound) (hnew : ∀ cot ∈ new, r.session.bridge.Has cot.uid)
    (hcareful : ∀ clock, r.Careful cfg (.sink clock action)) :
    Kept { r with sink, pending := new } := by
  have hother {uid : String} (hgone : ¬ r.session.bridge.Has uid) : lastOf uid new = none := by
    refine lastOf_eq_none.mpr ?_
    rintro cot hcot rfl
    exact hgone (hnew cot hcot)
  have hlive := h.live
  have hdoomed := h.doomed
  rw [hpending, List.append_nil] at hlive hdoomed
  cases hway with
  | stays hsame hline hbacklog =>
      refine ⟨hsound, fun hlive' uid hgone hlinger ↦ ?_, fun hdead uid hgone hlinger ↦ ?_⟩
      · refine hlive (hsame ▸ hlive') uid hgone ?_
        rw [line_cots] at hlinger ⊢
        rw [← hline]
        exact (lingers_append_other (hother hgone)).mp hlinger
      · have hdead' : r.sink.live = false := hsame ▸ hdead
        obtain ⟨hwritten, hqueue⟩ := hbacklog hdead'
        rw [written, hwritten] at hlinger
        refine drops_append.mpr (.inl ?_)
        rw [queue, hqueue]
        exact hdoomed hdead' uid hgone hlinger
  | leaves hwas hdead hwritten hqueue hheld =>
      refine ⟨hsound, fun hlive' ↦ ?_, fun _ uid hgone hlinger ↦ drops_append.mpr (.inl ?_)⟩
      · rw [hdead] at hlive'
        cases hlive'
      · rw [written, hwritten] at hlinger
        have hnot := hlive hwas uid hgone
        rw [List.append_assoc] at hnot
        have hdrops : Drops uid r.queue := by
          rcases drops_append.mp (hlinger.dropped hnot) with hlost | hstill
          · rcases hheld with hnone | rfl | rfl
            · rw [held, hnone] at hlost
              obtain ⟨cot, hcot, _⟩ := hlost
              cases hcot
            · exact hcareful .epoch uid hgone hlinger hlost
            · exact hcareful .epoch uid hgone hlinger hlost
          · exact hstill
        obtain ⟨cot, hcot, hdrop⟩ := hdrops
        exact ⟨cot, (hqueue.map Sent.cot).subset hcot, hdrop⟩
  | drains hdead hwritten hheld hqueue hopened =>
      subst hopened
      have hconnected : r.sink.wasConnected = true := by
        rw [TakSink.live, Bool.or_eq_false_iff] at hdead
        simpa using hdead.1
      have hfresh (uid : String) (hgone : ¬ r.session.bridge.Has uid) :
          ¬ Lingers uid r.written := by
        intro hlinger
        obtain ⟨cot, hcot, _⟩ := hcareful .epoch hconnected uid hgone hlinger
          (hdoomed hdead uid hgone hlinger)
        cases hcot
      refine ⟨hsound, fun _ uid hgone hlinger ↦ hfresh uid hgone ?_, fun _ uid hgone hlinger ↦
        absurd ?_ (hfresh uid hgone)⟩
      · rw [lingers_append_other (hother hgone)] at hlinger
        rw [written, held, queue, hwritten, hheld, hqueue] at hlinger
        simpa [written] using hlinger
      · rwa [written, hwritten] at hlinger

theorem idle_of_busy (h : ¬ r.busy = true) : r.pending = [] := by
  rw [busy, Bool.or_eq_true, not_or] at h
  simpa using h.1

theorem step_sink {clock : Clock} {action : SinkAction CotEvent}
    (h : step cfg r (.sink clock action) = some r') :
    r.pending = [] ∧ (∀ cot, action ≠ .send cot) ∧ r.sink.step action = some r'.sink ∧
      r'.session = r.session ∧ ∀ cot ∈ r'.pending, r.session.bridge.Has cot.uid := by
  have hplain (hact : ∀ cot, action ≠ .send cot)
      (h : (if r.busy then none
        else (r.sink.step action).map fun sink ↦ { r with sink }) = some r') :
      r.pending = [] ∧ (∀ cot, action ≠ .send cot) ∧ r.sink.step action = some r'.sink ∧
        r'.session = r.session ∧ ∀ cot ∈ r'.pending, r.session.bridge.Has cot.uid := by
    split at h
    · cases h
    · rename_i hidle
      obtain ⟨sink, hsink, rfl⟩ := Option.map_eq_some_iff.mp h
      refine ⟨idle_of_busy hidle, hact, hsink, rfl, ?_⟩
      simp [idle_of_busy hidle]
  cases action with
  | send cot => cases h
  | opened =>
      rw [step] at h
      split at h
      · cases h
      · rename_i hidle
        obtain ⟨sink, hsink, rfl⟩ := Option.map_eq_some_iff.mp h
        refine ⟨idle_of_busy hidle, by simp, hsink, rfl, ?_⟩
        dsimp only
        split
        · exact Bridge.publishKeys_has
        · simp
  | calledBack =>
      rw [step] at h
      split at h
      · rename_i hempty
        obtain ⟨sink, hsink, rfl⟩ := Option.map_eq_some_iff.mp h
        have hnil : r.pending = [] := by simpa using hempty
        exact ⟨hnil, by simp, hsink, rfl, by simp [hnil]⟩
      · cases h
  | _ => exact hplain (by simp) h

theorem step_kept {move : Move} (h : r.Kept) (hcareful : r.Careful cfg move)
    (hstep : step cfg r move = some r') : r'.Kept := by
  cases move with
  | stimulus x =>
      rw [step] at hstep
      split at hstep
      · cases hstep
      · rename_i hidle
        cases hstep
        cases x with
        | message clock msg hsub => exact h.message (idle_of_busy hidle) rfl
        | heartbeat clock => exact h.heartbeat (idle_of_busy hidle) rfl hcareful
  | hand =>
      rw [step] at hstep
      split at hstep
      · rename_i cot pending hpending
        cases hstep
        exact h.hand hpending hcareful
      · cases hstep
  | sink clock action =>
      obtain ⟨hpending, hsend, hsink, hsession, hnew⟩ := step_sink hstep
      -- What a step of the sink gives up does not depend on the clock.
      have hcareful' (clock' : Clock) : r.Careful cfg (.sink clock' action) := by
        cases action <;> exact hcareful
      have hkept := h.sink hpending (TakSink.step_way h.sound hsink hsend)
        (TakSink.step_sound h.sound hsink) hnew hcareful'
      cases r'
      cases hsession
      exact hkept

theorem kept_init : ({} : Relay).Kept := by
  have hnone (uid : String) : ¬ Lingers uid [] := by
    rintro ⟨cot, hlast, _⟩
    cases hlast
  exact ⟨TakSink.sound_init true, fun _ uid _ ↦ hnone uid, fun _ uid _ hlinger ↦
    absurd hlinger (hnone uid)⟩

theorem run_kept {moves : List Move} (h : run cfg moves = some r)
    (hcareful : ∀ pre move post past, moves = pre ++ move :: post → run cfg pre = some past →
      past.Careful cfg move) : r.Kept :=
  Machine.invariant_of_moves h kept_init fun pre move post past _ hsplit hpast hkept ↦
    step_kept hkept (hcareful pre move post past hsplit hpast)

/-- In a run in which no drop event of an absent entity shown as a track is given up
without another after it, and no node so shown is evicted without a position, the
TAK side is left with entities of the bridge only. -/
theorem run_faithful (cfg : TakBridgeConfig) (moves : List Move)
    (hcareful : ∀ pre move post past, moves = pre ++ move :: post → run cfg pre = some past →
      past.Careful cfg move) :
    ∀ r, run cfg moves = some r → r.Faithful := by
  intro r h hsettled uid hlinger
  have hkept := run_kept h hcareful
  by_contra hgone
  have hlive : r.sink.live = true := by rw [TakSink.live, hsettled.connected, Bool.or_true]
  have hpending : r.pending = [] := idle_of_busy (by rw [hsettled.idle]; exact Bool.false_ne_true)
  refine hkept.live hlive uid hgone ?_
  rw [hpending, held, queue, hsettled.held, hsettled.queue]
  simpa using hlinger

/-! ## An eviction in a session and one in an outage -/

/-- The queue has room, nothing is dropped, and every entity has a position. -/
def calm (r : Relay) : Move → Bool
  | .stimulus (.heartbeat _) => r.session.bridge.state.keys.all r.session.bridge.placed
  | .hand => decide (r.queue.length < queueCap)
  | .sink _ .opened => !r.sink.wasConnected
  | .sink _ .raised => r.held.isEmpty
  | .sink _ .cancelled => r.held.isEmpty
  | _ => true

def calmRun (cfg : TakBridgeConfig) : Relay → List Move → Bool
  | _, [] => true
  | r, move :: moves =>
    r.calm move && ((step cfg r move).map fun r' ↦ calmRun cfg r' moves).getD true

theorem careful_of_calm {move : Move} (h : r.calm move = true) : r.Careful cfg move := by
  have hnothing (kept : List CotEvent) (hheld : r.held.isEmpty = true) :
      r.Spared r.written r.held kept := by
    rintro uid _ _ ⟨cot, hcot, _⟩
    rw [List.isEmpty_iff.mp hheld] at hcot
    cases hcot
  cases move with
  | stimulus x =>
      cases x with
      | message clock msg hsub => exact True.intro
      | heartbeat clock =>
          rintro _ uid ⟨key, hheld, huid⟩ _
          obtain ⟨record, hget⟩ := Option.isSome_iff_exists.mp hheld
          exact ⟨key, hheld, huid,
            .inl (List.all_eq_true.mp h key (Dict.mem_keys.mpr ⟨record, hget⟩))⟩
  | hand =>
      intro hfull
      have hroom : r.queue.length < queueCap := of_decide_eq_true h
      omega
  | sink clock action =>
      cases action with
      | opened =>
          intro hconnected
          rw [calm, hconnected] at h
          cases h
      | raised => exact hnothing _ h
      | cancelled => exact hnothing _ h
      | _ => exact True.intro

theorem careful_of_calmRun {moves : List Move} (h : calmRun cfg r moves = true) :
    ∀ pre move post past, moves = pre ++ move :: post → pre.foldlM (step cfg) r = some past →
      past.Careful cfg move := by
  intro pre
  induction pre generalizing r moves with
  | nil =>
      rintro move post past rfl hpast
      cases hpast
      exact careful_of_calm (Bool.and_eq_true_iff.mp h).1
  | cons first pre ih =>
      rintro move post past rfl hpast
      obtain ⟨r', hstep, hpast⟩ := Option.bind_eq_some_iff.mp hpast
      have hlater := (Bool.and_eq_true_iff.mp h).2
      rw [hstep] at hlater
      exact ih hlater move post past rfl hpast

/-- A node that comes up, says that it is offline, and is evicted after `between`. -/
def eviction (between : List Move) : List Move :=
  [.sink .epoch .start, .sink .epoch .attempt, .sink .epoch .opened,
    .stimulus (.message .epoch
      ⟨Topics.nodeLocationTopic "node-a", .ok (.dict [("lat", .int 1), ("lon", .int 2)])⟩
      (.location "node-a" Session.level_nodeA)),
    .hand, .sink .epoch .took, .sink .epoch .wrote, .sink .epoch .drained,
    .stimulus (.message .epoch
      ⟨Topics.nodeStateTopic "node-a", .ok (.dict [("online", .bool false)])⟩
      (.state "node-a" Session.level_nodeA)),
    .hand, .sink .epoch .took, .sink .epoch .wrote] ++ between ++
    [.stimulus (.heartbeat ⟨1000, Clock.epoch.utc⟩), .hand]

/-- The drop event is written. -/
def evicted : List Move :=
  eviction [.sink .epoch .drained] ++
    [.sink .epoch .took, .sink .epoch .wrote, .sink .epoch .drained]

/-- The drop event is among the backlog that the reconnect drops. -/
def forgotten : List Move :=
  eviction [.sink .epoch .failed, .sink .epoch .closed] ++
    [.sink .epoch .attempt, .sink .epoch .opened, .sink .epoch .calledBack]

theorem evicted_faithful : ∃ r, run {} evicted = some r ∧ r.session.bridge.state.keys = [] ∧
    r.written.map CotEvent.isDrop = [false, false, true] ∧ r.Faithful := by
  have hrun : ((run {} evicted).map fun r ↦ (r.session.bridge.state.keys,
      r.written.map CotEvent.isDrop)) = some ([], [false, false, true]) := by decide +kernel
  obtain ⟨r, hr, hends⟩ := Option.map_eq_some_iff.mp hrun
  obtain ⟨hkeys, hwritten⟩ := Prod.mk.inj hends
  exact ⟨r, hr, hkeys, hwritten,
    run_faithful {} evicted (careful_of_calmRun (by decide +kernel)) r hr⟩

theorem forgotten_lingers : ¬ ∀ cfg moves r, run cfg moves = some r → r.Faithful := by
  intro h
  have hrun : ((run {} forgotten).map fun r ↦
      (r.sink.phase.inSession && !r.busy && r.sink.phase.held.isEmpty && r.sink.queue.isEmpty,
        r.session.bridge.state.keys, (lastOf "meshcore.node-a" r.written).map CotEvent.isDrop)) =
        some (true, [], some false) := by decide +kernel
  obtain ⟨r, hr, hends⟩ := Option.map_eq_some_iff.mp hrun
  simp only [Prod.mk.injEq, Bool.and_eq_true, List.isEmpty_iff, Bool.not_eq_true'] at hends
  obtain ⟨⟨⟨⟨hin, hidle⟩, hheld⟩, hqueue⟩, hkeys, hlast⟩ := hends
  obtain ⟨key, hkey, _⟩ := h {} forgotten r hr ⟨hin, hidle, hheld, hqueue⟩ "meshcore.node-a"
    (Option.map_eq_some_iff.mp hlast)
  obtain ⟨record, hget⟩ := Option.isSome_iff_exists.mp hkey
  have hmem := Dict.mem_keys.mpr ⟨record, hget⟩
  rw [hkeys] at hmem
  cases hmem

end Relay

end MeshcoreRpc.Tak
