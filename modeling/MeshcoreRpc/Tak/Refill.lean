import MeshcoreRpc.Tak.Offline
import MeshcoreRpc.Tak.Records
import MeshcoreRpc.Tak.Sink

/-!
# Refilling the queue

After an outage the sink drops its backlog and `_republish_all` sends an event
for every entity, before the first of them is taken.  The queue keeps the last
`queueCap` of them.
-/

namespace MeshcoreRpc.Tak

open Tables

namespace TakSink

variable {α : Type} {s : TakSink α}

/-- One event after the other is sent, and none taken meanwhile. -/
def sendAll (cots : List α) (s : TakSink α) : TakSink α := cots.foldl (fun s cot ↦ s.send cot) s

/-- The events with the places they get from `n` on. -/
def placed (n : ℕ) (cots : List α) : List (Sent α) := (cots.zipIdx n).map fun c ↦ ⟨c.2, c.1⟩

/-- The whole callback of a reconnect, up to the loop of the new session. -/
def reconnect (cots : List α) : List (SinkAction α) :=
  .opened :: cots.map .send ++ [.calledBack]

theorem placed_snoc (n : ℕ) (cots : List α) (cot : α) :
    placed n (cots ++ [cot]) = placed n cots ++ [⟨n + cots.length, cot⟩] := by
  rw [placed, placed, List.zipIdx_append, List.map_append]
  rfl

@[simp] theorem length_placed (n : ℕ) (cots : List α) : (placed n cots).length = cots.length := by
  rw [placed, List.length_map, List.length_zipIdx]

theorem sendAll_snoc (cots : List α) (cot : α) :
    s.sendAll (cots ++ [cot]) = (s.sendAll cots).send cot := by
  rw [sendAll, List.foldl_append]
  rfl

theorem sendAll_sent (cots : List α) : (s.sendAll cots).sent = s.sent ++ cots := by
  induction cots using List.reverseRecOn with
  | nil => simp [sendAll]
  | append_singleton cots cot ih => rw [sendAll_snoc, send, ih, List.append_assoc]

/-- The queue keeps the end of what it held and was given. -/
theorem sendAll_drops (cots : List α) (h : s.queue.length ≤ queueCap) :
    (s.sendAll cots).queue =
      (s.queue ++ placed s.sent.length cots).drop (s.queue.length + cots.length - queueCap) := by
  induction cots using List.reverseRecOn with
  | nil =>
      have hnone : s.queue.length - queueCap = 0 := by omega
      simp [sendAll, placed, hnone]
  | append_singleton cots cot ih =>
      have hcap : queueCap = 256 := rfl
      have hlength : (s.sendAll cots).queue.length = s.queue.length + cots.length -
          (s.queue.length + cots.length - queueCap) := by
        rw [ih, List.length_drop, List.length_append, length_placed]
      have hall : (s.queue ++ placed s.sent.length cots).length = s.queue.length + cots.length := by
        rw [List.length_append, length_placed]
      have hdrop : s.queue.length + cots.length - queueCap +
          ((s.sendAll cots).queue.length + 1 - queueCap) =
            s.queue.length + (cots ++ [cot]).length - queueCap := by
        rw [List.length_append, List.length_singleton]
        omega
      have hle : s.queue.length + (cots ++ [cot]).length - queueCap ≤
          (s.queue ++ placed s.sent.length cots).length := by
        rw [hall, List.length_append, List.length_singleton]
        omega
      rw [sendAll_snoc, send_drops cot (by omega), sendAll_sent, List.length_append, placed_snoc,
        ← List.append_assoc, List.drop_append_of_le_length hle, ← hdrop, ← List.drop_drop, ← ih]

/-- Nothing is lost from the end of what is sent, as far as the queue is long. -/
theorem sendAll_keeps (early late : List α) (h : s.queue = []) (hroom : late.length ≤ queueCap) :
    placed (s.sent.length + early.length) late ⊆ (s.sendAll (early ++ late)).queue := by
  have hsplit : placed s.sent.length (early ++ late) =
      placed s.sent.length early ++ placed (s.sent.length + early.length) late := by
    rw [placed, placed, placed, List.zipIdx_append, List.map_append]
  have hle : ([] : List (Sent α)).length + (early ++ late).length - queueCap ≤
      (placed s.sent.length early).length := by
    rw [length_placed, List.length_append, List.length_nil]
    omega
  rw [sendAll_drops _ (by simp [h]), h, List.nil_append, hsplit, List.drop_append_of_le_length hle]
  exact List.subset_append_right _ _

theorem sendAll_cap (cots : List α) (h : s.queue.length ≤ queueCap) :
    (s.sendAll cots).queue.length ≤ queueCap := by
  rw [sendAll_drops cots h, List.length_drop, List.length_append, length_placed]
  omega

theorem sends_run (cots : List α) :
    (cots.map SinkAction.send).foldlM step s = some (s.sendAll cots) := by
  induction cots generalizing s with
  | nil => rfl
  | cons cot cots ih => exact ih

theorem mem_placed {cots : List α} {i : ℕ} {cot : α} (n : ℕ) (h : cots[i]? = some cot) :
    ⟨n + i, cot⟩ ∈ placed n cots := by
  refine List.mem_map.mpr ⟨(cot, n + i), ?_, rfl⟩
  rw [List.mem_zipIdx_iff_le_and_getElem?_sub]
  exact ⟨Nat.le_add_right n i, by rwa [Nat.add_sub_cancel_left]⟩

theorem sendAll_phase (cots : List α) : (s.sendAll cots).phase = s.phase := by
  induction cots using List.reverseRecOn with
  | nil => rfl
  | append_singleton cots cot ih => rw [sendAll_snoc, send, ih]

theorem reconnect_run (cots : List α) (hphase : s.phase = .connecting)
    (hagain : s.wasConnected = true) (hcallback : s.onReconnect = true) :
    ∃ s', (reconnect cots).foldlM step s = some s' := by
  have hin : (s.established.sendAll cots).phase = .reconnecting := by
    simp [sendAll_phase, established, hagain, hcallback]
  refine ⟨(s.established.sendAll cots).serve, ?_⟩
  rw [reconnect, List.foldlM_append, List.foldlM_cons]
  simp only [step, hphase, Option.bind_eq_bind, Option.bind_some, sends_run, List.foldlM_cons, hin,
    List.foldlM_nil]
  rfl

/-- The callback of a reconnect fills an emptied queue. -/
theorem reconnect_queue {s' : TakSink α} {cots : List α} (hcallback : s.onReconnect = true)
    (hagain : s.wasConnected = true) (h : (reconnect cots).foldlM step s = some s') :
    ∃ drained : TakSink α, drained.queue = [] ∧ drained.sent = s.sent ∧
      s'.queue = (drained.sendAll cots).queue := by
  rw [reconnect, List.cons_append, List.foldlM_cons] at h
  obtain ⟨opened, hopened, h⟩ := Option.bind_eq_some_iff.mp h
  have hdrained : opened.queue = [] ∧ opened.sent = s.sent := by
    cases hphase : s.phase <;> simp only [step, hphase, reduceCtorEq, Option.some.injEq] at hopened
    rw [← hopened, established]
    simp [hagain, hcallback]
  rw [List.foldlM_append] at h
  obtain ⟨filled, hfilled, h⟩ := Option.bind_eq_some_iff.mp h
  rw [sends_run] at hfilled
  cases hfilled
  refine ⟨opened, hdrained.1, hdrained.2, ?_⟩
  simp only [List.foldlM_cons, List.foldlM_nil] at h
  obtain ⟨served, hserved, h⟩ := Option.bind_eq_some_iff.mp h
  cases h
  cases hphase : (opened.sendAll cots).phase <;>
    simp only [step, hphase, reduceCtorEq, Option.some.injEq] at hserved
  rw [← hserved, serve]

end TakSink

namespace Bridge

variable {cfg : TakBridgeConfig} {clock : Clock} {b : Bridge}

/-! ## What a pass sends -/

theorem placed_iff {key : String} :
    b.placed key = true ↔ ∃ record, b.state.get? key = some record ∧ hasPosition record := by
  rw [placed, Option.any_eq_true]

/-- A pass that ends well sends one event for each entity with a position, in order. -/
theorem publishKeys_built {keys : List String} (h : (publishKeys cfg clock b keys).2 = .ok ()) :
    List.Forall₂ (fun key cot ↦ ∃ record, b.state.get? key = some record ∧
      cotOf cfg clock key record = .ok cot) (keys.filter b.placed)
        (publishKeys cfg clock b keys).1 := by
  induction keys with
  | nil => exact List.Forall₂.nil
  | cons key rest ih =>
      cases hone : publishOne cfg clock key b with
      | error err => simp [publishKeys, hone] at h
      | ok sent =>
          have hrest := ih (by simpa [publishKeys, hone] using h)
          have hsplit : (publishKeys cfg clock b (key :: rest)).1 =
              sent ++ (publishKeys cfg clock b rest).1 := by simp [publishKeys, hone]
          rw [hsplit]
          rw [publishOne] at hone
          cases hget : b.state.get? key with
          | none =>
              rw [hget] at hone
              cases hone
              simpa [List.filter_cons, placed, hget] using hrest
          | some record =>
              rw [hget] at hone
              by_cases hpos : hasPosition record = true
              · simp only [hpos, if_true] at hone
                cases hcot : cotOf cfg clock key record with
                | error err => simp [hcot, Except.map] at hone
                | ok cot =>
                    rw [hcot] at hone
                    cases hone
                    have hplaced : b.placed key = true := placed_iff.mpr ⟨record, hget, hpos⟩
                    rw [List.filter_cons_of_pos hplaced]
                    exact List.Forall₂.cons ⟨record, hget, hcot⟩ hrest
              · simp only [hpos] at hone
                cases hone
                simpa [List.filter_cons, placed, hget, hpos] using hrest

/-- The queue holds an event of its own for every entity with a position, built at
the clock from the record the entity has. -/
def Refilled (cfg : TakBridgeConfig) (clock : Clock) (b : Bridge) (s : TakSink CotEvent) : Prop :=
  ∃ place : String → ℕ, Set.InjOn place {key | b.placed key} ∧
    ∀ key record, b.state.get? key = some record → hasPosition record →
      ∃ cot, cotOf cfg clock key record = .ok cot ∧ ⟨place key, cot⟩ ∈ s.queue

/-- Every entity but those gone makes an event, and the queue has room for them all. -/
structure Fits (cfg : TakBridgeConfig) (clock : Clock) (gone : List String) (b : Bridge) :
    Prop where
  presentable : ∀ key, key ∉ gone → PresentableAt cfg clock b key
  room : (b.state.keys.filter fun key ↦ b.placed key ∧ key ∉ gone).length ≤ queueCap

theorem Refilled.presentable {s : TakSink CotEvent} (h : Refilled cfg clock b s) (key : String) :
    PresentableAt cfg clock b key := by
  intro record hget hpos
  obtain ⟨place, _, hall⟩ := h
  obtain ⟨cot, hcot, _⟩ := hall key record hget hpos
  exact (cotOf_ok_iff hpos).mp ⟨cot, hcot⟩

theorem Refilled.room {s : TakSink CotEvent} (h : Refilled cfg clock b s)
    (hcap : s.queue.length ≤ queueCap) {keys : List String} (hnodup : keys.Nodup)
    (hplaced : ∀ key ∈ keys, b.placed key = true) : keys.length ≤ queueCap := by
  obtain ⟨place, hinj, hall⟩ := h
  have hsub : keys.map place ⊆ s.queue.map Sent.place := by
    intro p hp
    obtain ⟨key, hkey, rfl⟩ := List.mem_map.mp hp
    obtain ⟨record, hget, hpos⟩ := placed_iff.mp (hplaced key hkey)
    obtain ⟨cot, _, hmem⟩ := hall key record hget hpos
    exact List.mem_map.mpr ⟨_, hmem, rfl⟩
  have hdistinct : (keys.map place).Nodup :=
    hnodup.map_on fun key hkey key' hkey' ↦ hinj (hplaced key hkey) (hplaced key' hkey')
  have hle := (hdistinct.subperm hsub).length_le
  rw [List.length_map, List.length_map] at hle
  omega

/-- Sending a whole pass last refills a queue that has room for it. -/
theorem refilled_of_room {s : TakSink CotEvent} (early : List CotEvent) (hempty : s.queue = [])
    (hall : ∀ key, PresentableAt cfg clock b key)
    (hroom : (b.state.keys.filter b.placed).length ≤ queueCap) :
    Refilled cfg clock b (s.sendAll (early ++ (republishAll cfg clock b).sent)) := by
  have hbuilt := publishKeys_built
    (publishKeys_ok_iff.mpr fun key (_ : key ∈ b.state.keys) ↦ hall key)
  have hkeep := TakSink.sendAll_keeps (s := s) early (republishAll cfg clock b).sent hempty
    (hbuilt.length_eq ▸ hroom)
  refine ⟨fun key ↦ s.sent.length + early.length + (b.state.keys.filter b.placed).idxOf key, ?_, ?_⟩
  · intro key hkey key' hkey' heq
    obtain ⟨record, hget, _⟩ := placed_iff.mp hkey
    have hmem : key ∈ b.state.keys.filter b.placed :=
      List.mem_filter.mpr ⟨Dict.mem_keys.mpr ⟨record, hget⟩, hkey⟩
    exact (List.idxOf_inj hmem).mp (Nat.add_left_cancel heq)
  · intro key record hget hpos
    have hmem : key ∈ b.state.keys.filter b.placed :=
      List.mem_filter.mpr ⟨Dict.mem_keys.mpr ⟨record, hget⟩, placed_iff.mpr ⟨record, hget, hpos⟩⟩
    have hlt := List.idxOf_lt_length_of_mem hmem
    obtain ⟨_, hget'⟩ := List.forall₂_iff_get.mp hbuilt
    have hlt' := hbuilt.length_eq ▸ hlt
    obtain ⟨record', hrecord', hcot⟩ := hget' _ hlt hlt'
    simp only [List.get_eq_getElem, List.getElem_idxOf] at hrecord' hcot
    rw [hget] at hrecord'
    cases hrecord'
    exact ⟨_, hcot, hkeep (TakSink.mem_placed _ (List.getElem?_eq_getElem hlt'))⟩

/-! ## Passes of the heartbeat -/

theorem fits_nil : Fits cfg clock [] b ↔
    (∀ key, PresentableAt cfg clock b key) ∧
      (b.state.keys.filter b.placed).length ≤ queueCap := by
  have hfilter : (b.state.keys.filter fun key ↦ b.placed key ∧ key ∉ ([] : List String)) =
      b.state.keys.filter b.placed := List.filter_congr fun key _ ↦ by simp
  constructor
  · rintro ⟨hall, hroom⟩
    exact ⟨fun key ↦ hall key List.not_mem_nil, hfilter ▸ hroom⟩
  · rintro ⟨hall, hroom⟩
    exact ⟨fun key _ ↦ hall key, hfilter.symm ▸ hroom⟩

/-- What is left after an eviction fits exactly when what is not evicted does. -/
theorem fits_left {left : Bridge} {gone : List String}
    (h : ∀ key, left.state.get? key = if key ∈ gone then none else b.state.get? key) :
    Fits cfg clock [] left ↔ Fits cfg clock gone b := by
  have hplaced (key : String) : left.placed key = true ↔ b.placed key = true ∧ key ∉ gone := by
    rw [placed, placed, h]
    by_cases hkey : key ∈ gone <;> simp [hkey]
  have hperm : (left.state.keys.filter left.placed).Perm
      (b.state.keys.filter fun key ↦ b.placed key ∧ key ∉ gone) := by
    refine (List.perm_ext_iff_of_nodup (left.state.nodup.filter _) (b.state.nodup.filter _)).mpr
      fun key ↦ ?_
    have hmem (b' : Bridge) (hb' : b'.placed key = true) : key ∈ b'.state.keys := by
      obtain ⟨record, hget, _⟩ := placed_iff.mp hb'
      exact Dict.mem_keys.mpr ⟨record, hget⟩
    rw [List.mem_filter, List.mem_filter, decide_eq_true_eq, hplaced]
    constructor
    · rintro ⟨_, hb, hkey⟩
      exact ⟨hmem b hb, hb, hkey⟩
    · rintro ⟨_, hb, hkey⟩
      exact ⟨hmem left ((hplaced key).mpr ⟨hb, hkey⟩), hb, hkey⟩
  rw [fits_nil, hperm.length_eq]
  constructor
  · rintro ⟨hall, hroom⟩
    refine ⟨fun key hkey record hget ↦ hall key record ?_, hroom⟩
    rw [h, if_neg hkey, hget]
  · rintro ⟨hall, hroom⟩
    refine ⟨fun key record hget ↦ ?_, hroom⟩
    rw [h] at hget
    split at hget
    · cases hget
    · exact hall key ‹_› record hget

theorem refilled_republish {s : TakSink CotEvent} (early : List CotEvent) (hempty : s.queue = []) :
    Refilled cfg clock b (s.sendAll (early ++ (republishAll cfg clock b).sent)) ↔
      Fits cfg clock [] b := by
  rw [fits_nil]
  constructor
  · intro h
    refine ⟨h.presentable, h.room (TakSink.sendAll_cap _ (by simp [hempty]))
      (b.state.nodup.filter _) fun key hkey ↦ (List.mem_filter.mp hkey).2⟩
  · rintro ⟨hall, hroom⟩
    exact refilled_of_room early hempty hall hroom

/-- An entity that makes an event could also be dropped. -/
theorem PresentableAt.droppable {key : String} (h : PresentableAt cfg clock b key) :
    Droppable b key := by
  intro record hget hpos
  obtain ⟨hlat, hlon⟩ := Bool.and_eq_true_iff.mp hpos
  have hfloats := (h record hget hpos).floats
  exact ⟨hfloats "lat" (by simp) hlat, hfloats "lon" (by simp) hlon⟩

theorem refilled_heartbeat {s : TakSink CotEvent} (hempty : s.queue = []) :
    Refilled cfg clock (heartbeat cfg clock b).bridge (s.sendAll (heartbeat cfg clock b).sent) ↔
      (∀ id ∈ due cfg clock b, Droppable b id) ∧ Fits cfg clock (due cfg clock b) b := by
  by_cases hdrop : ∀ id ∈ due cfg clock b, Droppable b id
  · obtain ⟨hok, hstate, _⟩ := evictNodes_ok cfg clock hdrop
    have hbeat : (heartbeat cfg clock b).bridge =
        (evictNodes cfg clock (due cfg clock b) b).bridge ∧
        (heartbeat cfg clock b).sent = (evictNodes cfg clock (due cfg clock b) b).sent ++
          (republishAll cfg clock (evictNodes cfg clock (due cfg clock b) b).bridge).sent := by
      refine ⟨heartbeat_bridge, ?_⟩
      rw [heartbeat, evictLongOffline_eq]
      simp only [hok]
    rw [hbeat.1, hbeat.2, refilled_republish _ hempty, fits_left hstate]
    exact (and_iff_right hdrop).symm
  · refine ⟨fun h ↦ absurd ?_ hdrop, fun h ↦ absurd h.1 hdrop⟩
    -- The node that cannot be dropped is still there, and makes no event either.
    intro id _
    by_contra hstuck
    refine hstuck fun record hget ↦ (h.presentable id).droppable record ?_
    rw [heartbeat_bridge, evictNodes_undroppable hstuck]
    exact hget

/-- An emptied queue ends up with an event of its own for every entity with a
position exactly when each of them makes one and they are no more than the queue
can hold: after the callback of a reconnect, and after a pass of the heartbeat. -/
theorem refilled_iff {s s' : TakSink CotEvent} :
    (s.wasConnected = true → s.onReconnect = true →
        (TakSink.reconnect (republishAll cfg clock b).sent).foldlM TakSink.step s = some s' →
        (Refilled cfg clock b s' ↔ Fits cfg clock [] b)) ∧
      (s.queue = [] →
        ((heartbeat cfg clock b).sent.map SinkAction.send).foldlM TakSink.step s = some s' →
        (Refilled cfg clock (heartbeat cfg clock b).bridge s' ↔
          (∀ id ∈ due cfg clock b, Droppable b id) ∧ Fits cfg clock (due cfg clock b) b)) := by
  constructor
  · intro hagain hcallback hrun
    obtain ⟨drained, hempty, _, hqueue⟩ := TakSink.reconnect_queue hcallback hagain hrun
    rw [← refilled_republish [] hempty, List.nil_append, Refilled, Refilled, hqueue]
  · intro hempty hrun
    rw [TakSink.sends_run] at hrun
    cases hrun
    exact refilled_heartbeat hempty

/-! ## A crowd -/

/-- As many ids as one likes. -/
def nthId (n : ℕ) : String := String.ofList (List.replicate (n + 1) 'a')

/-- The position report of the `n`-th node. -/
def positionReport (n : ℕ) : JsonMessage where
  clock := .epoch
  topic := Topics.nodeLocationTopic (nthId n)
  value := .dict [("lat", .int 1), ("lon", .int 2), ("ts", .int 3)]

def crowd (n : ℕ) : Bridge := received {} ((List.range n).map positionReport)

/-- A sink that was connected and is about to be again. -/
def lostSink : TakSink CotEvent :=
  { onReconnect := true, phase := .connecting, wasConnected := true, openedAt := [0] }

theorem nthId_injective : Function.Injective nthId := by
  intro n m h
  have hlength := congrArg (fun id ↦ id.toList.length) h
  simpa [nthId] using hlength

theorem level_nthId (n : ℕ) : IsLevel (nthId n) := by
  have hletters (c : Char) (hc : c ∈ (nthId n).toList) : c = 'a' := by
    rw [nthId, String.toList_ofList] at hc
    exact List.eq_of_mem_replicate hc
  refine ⟨fun hempty ↦ ?_, fun hslash ↦ absurd (hletters _ hslash) (by decide)⟩
  have hlist := congrArg String.toList hempty
  simp [nthId] at hlist

theorem placed_positionReport {n m : ℕ} (h : n = m ∨ b.placed (nthId m) = true) :
    ((positionReport n).handle {} b).bridge.placed (nthId m) = true := by
  rw [positionReport, handle_dict, ingest_location, if_pos (level_nthId n), Option.getD_some]
  by_cases hkey : nthId m = nthId n
  · have hfield (field : String) (hne : field ≠ "_updated") :=
      @mergeState_field Clock.epoch.time (nthId n)
        (PyDict.ofPairs [("lat", .int 1), ("lon", .int 2), ("ts", .int 3)]) "node" b field hne
    rw [hkey, placed_iff]
    refine ⟨_, Dict.get?_set_self .., ?_⟩
    have hlat := hfield "lat" (by decide)
    have hlon := hfield "lon" (by decide)
    rw [mergeState, Dict.get?_set_self, Option.bind_some] at hlat hlon
    rw [hasPosition, PyDict.get, PyDict.get, hlat, hlon]
    rfl
  · rw [placed, mergeState_get? hkey]
    rcases h with rfl | h
    · exact absurd rfl hkey
    · exact h

theorem placed_crowd {n m : ℕ} (h : m < n) : (crowd n).placed (nthId m) = true := by
  induction n with
  | zero => omega
  | succ n ih =>
      rw [crowd, List.range_succ, List.map_append, List.map_singleton, received_snoc]
      refine placed_positionReport ?_
      rcases Nat.lt_succ_iff_lt_or_eq.mp h with h | rfl
      · exact .inr (ih h)
      · exact .inl rfl

theorem fits_crowd : Fits {} .epoch [] (crowd 2) := by
  have hpass : (republishAll {} .epoch (crowd 2)).outcome = .ok () := by decide +kernel
  refine fits_nil.mpr ⟨fun key record hget ↦ ?_, by decide +kernel⟩
  exact publishKeys_ok_iff.mp hpass key (Dict.mem_keys.mpr ⟨record, hget⟩) record hget

/-- Two entities are both told of. -/
theorem crowd_refilled :
    ∃ s s' : TakSink CotEvent,
      (TakSink.reconnect (republishAll {} .epoch (crowd 2)).sent).foldlM TakSink.step lostSink =
          some s ∧ Refilled {} .epoch (crowd 2) s ∧
        ((heartbeat {} .epoch (crowd 2)).sent.map SinkAction.send).foldlM TakSink.step lostSink =
          some s' ∧ Refilled {} .epoch (heartbeat {} .epoch (crowd 2)).bridge s' := by
  obtain ⟨s, hrun⟩ := TakSink.reconnect_run (republishAll {} .epoch (crowd 2)).sent
    (s := lostSink) rfl rfl rfl
  have hbeat := TakSink.sends_run (s := lostSink) (heartbeat {} .epoch (crowd 2)).sent
  have hdue : due {} .epoch (crowd 2) = [] := by decide +kernel
  refine ⟨s, _, hrun, (refilled_iff.1 rfl rfl hrun).mpr fits_crowd, hbeat,
    (refilled_iff.2 rfl hbeat).mpr ⟨?_, hdue ▸ fits_crowd⟩⟩
  rw [hdue]
  exact List.forall_mem_nil _

/-- Of one entity more than the queue can hold, one is not told of. -/
theorem crowd_overflows :
    ¬ ∀ (b : Bridge) (s s' : TakSink CotEvent), s.wasConnected = true → s.onReconnect = true →
      (TakSink.reconnect (republishAll {} .epoch b).sent).foldlM TakSink.step s = some s' →
      Refilled {} .epoch b s' := by
  intro h
  obtain ⟨s', hrun⟩ := TakSink.reconnect_run (republishAll {} .epoch (crowd 257)).sent
    (s := lostSink) rfl rfl rfl
  obtain ⟨drained, hempty, _, hqueue⟩ := TakSink.reconnect_queue (s := lostSink) rfl rfl hrun
  have hcap : s'.queue.length ≤ queueCap := by
    rw [hqueue]
    exact TakSink.sendAll_cap _ (by simp [hempty])
  have hnodup : ((List.range 257).map nthId).Nodup :=
    List.nodup_range.map nthId_injective
  have hplaced (key : String) (hkey : key ∈ (List.range 257).map nthId) :
      (crowd 257).placed key = true := by
    obtain ⟨n, hn, rfl⟩ := List.mem_map.mp hkey
    exact placed_crowd (List.mem_range.mp hn)
  have hroom := (h (crowd 257) lostSink s' rfl rfl hrun).room hcap hnodup hplaced
  rw [List.length_map, List.length_range] at hroom
  have hcap' : queueCap = 256 := rfl
  omega

end Bridge

end MeshcoreRpc.Tak
