import MeshcoreRpc.Lib.Framing
import MeshcoreRpc.Tak.CotText
import MeshcoreRpc.Tak.Relay

/-!
# What a TAK client shows

Of the bytes of a session any first part may arrive before the connection is
lost.  A client cuts them at the newlines, shows an entity as it was last
reported, and removes it when a report was stale before its start.
-/

namespace MeshcoreRpc.Tak

open Tables

/-! ## Times -/

/-- A track goes stale the configured time after its start. -/
def Timed (cfg : TakBridgeConfig) (cot : CotEvent) : Prop :=
  ∀ t, cot = .track t → t.stale.us = t.time.us + cfg.staleAfterS * 1000000

namespace Bridge

variable {cfg : TakBridgeConfig} {clock : Clock} {b : Bridge}

theorem timed_of_drop {cot : CotEvent} (h : cot.isDrop = true) : Timed cfg cot := by
  rintro t rfl
  cases h

theorem cotOf_timed {key : String} {record : PyDict} {cot : CotEvent}
    (h : cotOf cfg clock key record = .ok cot) : Timed cfg cot := by
  unfold cotOf at h
  iterate 8 obtain ⟨_, _, h⟩ := except_bind_ok h
  obtain ⟨stale, hstale, h⟩ := except_bind_ok h
  cases h
  rintro t ht
  cases ht
  rw [DateTime.addSeconds, DateTime.ofMicroseconds] at hstale
  split_ifs at hstale
  cases hstale
  rfl

theorem publishOne_timed {key : String} {sent : List CotEvent}
    (h : publishOne cfg clock key b = .ok sent) : ∀ cot ∈ sent, Timed cfg cot := by
  rw [publishOne] at h
  split at h
  · cases h
    simp
  · rename_i record hrecord
    split_ifs at h
    · cases hcot : cotOf cfg clock key record with
      | error err => simp [hcot, Except.map] at h
      | ok cot =>
          rw [hcot] at h
          cases h
          simpa using cotOf_timed hcot
    · cases h
      simp

theorem handle_timed {msg : MqttMessage} :
    ∀ cot ∈ (handleMqttMessage cfg clock msg b).sent, Timed cfg cot := by
  rcases handle_cases cfg clock msg b with ⟨_, hsent⟩ | ⟨kvs, b', _, _, heq⟩
  · simp [hsent]
  · rw [heq, publishChange]
    cases hone : publishOne cfg clock (keyFor msg.topic) b' with
    | error err => simp
    | ok sent => exact publishOne_timed hone

theorem publishKeys_timed {keys : List String} :
    ∀ cot ∈ (publishKeys cfg clock b keys).1, Timed cfg cot :=
  forall_publishKeys fun _ _ ↦ publishOne_timed

theorem heartbeat_timed : ∀ cot ∈ (heartbeat cfg clock b).sent, Timed cfg cot := by
  have hdrops : ∀ cot ∈ (evictNodes cfg clock (due cfg clock b) b).sent, Timed cfg cot :=
    fun cot hcot ↦ timed_of_drop (evictNodes_drops cot hcot)
  rw [heartbeat, evictLongOffline_eq]
  cases (evictNodes cfg clock (due cfg clock b) b).outcome with
  | ok _ =>
      intro cot hcot
      exact (List.mem_append.mp hcot).elim (hdrops cot) (publishKeys_timed cot)
  | error err => exact hdrops

end Bridge

theorem Session.step_timed {cfg : TakBridgeConfig} {s : Session} (h : ∀ cot ∈ s.sent, Timed cfg cot)
    (x : Stimulus) : ∀ cot ∈ (s.step cfg x).sent, Timed cfg cot := by
  intro cot hcot
  cases x with
  | message clock msg subscribed =>
      exact (List.mem_append.mp hcot).elim (h cot) (Bridge.handle_timed cot)
  | heartbeat clock =>
      rw [step] at hcot
      split_ifs at hcot
      · exact (List.mem_append.mp hcot).elim (h cot) (Bridge.heartbeat_timed cot)
      · exact h cot hcot

/-! ## Sessions -/

namespace TakSink

variable {α : Type} {s s' : TakSink α} {action : SinkAction α}

/-- What was written in a session. -/
def inSession (s : TakSink α) (n : ℕ) : List α :=
  (s.written.filter fun w ↦ w.session = n).map fun w ↦ w.event.cot

theorem step_sent (h : s.step action = some s') (hsend : ∀ cot, action ≠ .send cot) :
    s'.sent = s.sent := by
  cases step_moves h with
  | send cot => exact absurd rfl (hsend cot)
  | start =>
      rw [start]
      split <;> rfl
  | opened =>
      simp only [established]
      split_ifs <;> rfl
  | _ => rfl

theorem step_written (h : s.step action = some s') :
    s'.written = s.written ∧ s'.openedAt.length ≥ s.openedAt.length ∨
      ∃ e, s'.written = s.written ++ [⟨s.openedAt.length - 1, e⟩] ∧ s'.openedAt = s.openedAt := by
  cases step_moves h with
  | start =>
      left
      rw [start]
      split <;> exact ⟨rfl, le_rfl⟩
  | opened =>
      left
      simp only [established]
      split_ifs <;> exact ⟨rfl, by simp [serve]⟩
  | wrote phase => exact .inr ⟨_, rfl, rfl⟩
  | _ => exact .inl ⟨rfl, le_rfl⟩

/-- The sessions were written one after the other. -/
def Ordered (s : TakSink α) : Prop :=
  (s.written.map Written.session).Pairwise (· ≤ ·) ∧
    ∀ w ∈ s.written, w.session ≤ s.openedAt.length - 1

theorem Ordered.step (h : Ordered s) (hstep : s.step action = some s') : Ordered s' := by
  rcases step_written hstep with ⟨hwritten, hopened⟩ | ⟨e, hwritten, hopened⟩
  · refine ⟨hwritten ▸ h.1, fun w hw ↦ ?_⟩
    have hle := h.2 w (hwritten ▸ hw)
    omega
  · refine ⟨?_, fun w hw ↦ ?_⟩
    · rw [hwritten, List.map_append, List.pairwise_append]
      refine ⟨h.1, by simp, fun m hm n hn ↦ ?_⟩
      obtain ⟨w, hw, rfl⟩ := List.mem_map.mp hm
      obtain rfl : n = s.openedAt.length - 1 := by simpa using hn
      exact h.2 w hw
    · rw [hwritten] at hw
      rw [hopened]
      rcases List.mem_append.mp hw with hw | hw
      · exact h.2 w hw
      · obtain rfl := List.mem_singleton.mp hw
        exact le_rfl

theorem ordered_init (onReconnect : Bool) : Ordered ({ onReconnect } : TakSink α) := by
  simp [Ordered]

end TakSink

/-! ## What is kept in a run -/

namespace Relay

variable {cfg : TakBridgeConfig} {r r' : Relay}

structure Tidy (cfg : TakBridgeConfig) (r : Relay) : Prop where
  sound : r.sink.Sound
  ordered : r.sink.Ordered
  session : ∀ cot ∈ r.session.sent, Timed cfg cot
  pending : ∀ cot ∈ r.pending, Timed cfg cot
  sent : ∀ cot ∈ r.sink.sent, Timed cfg cot

/-- The events of a step of the sink are those of its callback. -/
theorem step_pending {clock : Clock} {action : SinkAction CotEvent}
    (h : step cfg r (.sink clock action) = some r') :
    r'.pending = r.pending ∨
      r'.pending ⊆ (Bridge.republishAll cfg clock r.session.bridge).sent := by
  cases action with
  | send cot => cases h
  | opened =>
      rw [step] at h
      split_ifs at h
      obtain ⟨sink, -, rfl⟩ := Option.map_eq_some_iff.mp h
      right
      dsimp only
      split_ifs
      · exact List.Subset.refl _
      · exact List.nil_subset _
  | calledBack =>
      rw [step] at h
      split_ifs at h
      obtain ⟨sink, -, rfl⟩ := Option.map_eq_some_iff.mp h
      exact .inl rfl
  | _ =>
      rw [step] at h
      · split_ifs at h
        obtain ⟨sink, -, rfl⟩ := Option.map_eq_some_iff.mp h
        exact .inl rfl
      all_goals simp

theorem Tidy.step {move : Move} (h : Tidy cfg r) (hstep : step cfg r move = some r') :
    Tidy cfg r' := by
  cases move with
  | stimulus x =>
      rw [Relay.step] at hstep
      split_ifs at hstep
      cases hstep
      have hsession := Session.step_timed h.session x
      exact ⟨h.sound, h.ordered, hsession, fun cot hcot ↦ hsession cot (List.mem_of_mem_drop hcot),
        h.sent⟩
  | hand =>
      rw [Relay.step] at hstep
      split at hstep
      · rename_i cot pending hpending
        cases hstep
        have hall := h.pending
        rw [hpending] at hall
        obtain ⟨hcot, hrest⟩ := List.forall_mem_cons.mp hall
        have hsend : r.sink.step (.send cot) = some (r.sink.send cot) := rfl
        refine ⟨TakSink.step_sound h.sound hsend, h.ordered.step hsend, h.session, hrest,
          fun c hc ↦ ?_⟩
        rcases List.mem_append.mp hc with hc | hc
        · exact h.sent c hc
        · exact List.mem_singleton.mp hc ▸ hcot
      · cases hstep
  | sink clock action =>
      obtain ⟨-, hsend, hsink, hsession, -⟩ := step_sink hstep
      have hpending : ∀ cot ∈ r'.pending, Timed cfg cot := by
        rcases step_pending hstep with heq | hsub
        · exact heq ▸ h.pending
        · exact fun cot hcot ↦ Bridge.publishKeys_timed cot (hsub hcot)
      refine ⟨TakSink.step_sound h.sound hsink, h.ordered.step hsink, hsession ▸ h.session,
        hpending, ?_⟩
      rw [TakSink.step_sent hsink hsend]
      exact h.sent

theorem run_tidy {moves : List Move} (h : run cfg moves = some r) : Tidy cfg r :=
  Machine.invariant h
    ⟨TakSink.sound_init true, TakSink.ordered_init true, by simp, by simp, by simp⟩
    fun _ _ _ hkept ↦ hkept.step

/-- What was written over all sessions is part of what was sent, in order. -/
theorem Tidy.written_sublist (h : Tidy cfg r) : r.written.Sublist r.sink.sent := by
  have hplaced : ∀ e ∈ r.sink.written.map Written.event, r.sink.sent[e.place]? = some e.cot :=
    fun e he ↦ h.sound.placed e (List.mem_append_left _ (List.mem_append_left _ he))
  have hsub := TakSink.sublist_of_places hplaced
    (by simpa [Function.comp_def] using h.sound.ascending)
  simpa [written, Function.comp_def] using hsub

/-- The bytes of a session. -/
def stream (yearWidth : ℕ) (r : Relay) (n : ℕ) : List UInt8 :=
  Framing.stream newline ((r.sink.inSession n).map (CotEvent.line yearWidth))

theorem inSession_sublist (n : ℕ) : (r.sink.inSession n).Sublist r.written :=
  List.filter_sublist.map _

/-- Whatever part of a session arrives, what has ended are its first events, each
read as it was meant. -/
theorem frames_of_prefix {yearWidth n : ℕ} {arrived : List UInt8}
    (h : arrived <+: r.stream yearWidth n) :
    ∃ shown, shown <+: r.sink.inSession n ∧
      Framing.frames newline arrived = shown.map (CotEvent.line yearWidth) := by
  have hlines : ∀ f ∈ (r.sink.inSession n).map (CotEvent.line yearWidth),
      ∀ b ∈ f, b ≠ newline := by
    intro f hf
    obtain ⟨cot, -, rfl⟩ := List.mem_map.mp hf
    exact cot.newline_not_mem_line yearWidth
  have hprefix := Framing.frames_prefix hlines h
  refine ⟨(r.sink.inSession n).take (Framing.frames newline arrived).length,
    List.take_prefix _ _, ?_⟩
  rw [List.map_take]
  exact List.prefix_iff_eq_take.mp hprefix

/-- What has arrived in full has ended. -/
theorem take_frames {yearWidth n k : ℕ} {arrived : List UInt8} {shown : List CotEvent}
    (hframes : Framing.frames newline arrived = shown.map (CotEvent.line yearWidth))
    (hshown : shown <+: r.sink.inSession n)
    (h : Framing.stream newline (((r.sink.inSession n).take k).map (CotEvent.line yearWidth)) <+:
      arrived) : (r.sink.inSession n).take k <+: shown := by
  have hlines : ∀ f ∈ ((r.sink.inSession n).take k).map (CotEvent.line yearWidth),
      ∀ b ∈ f, b ≠ newline := by
    intro f hf
    obtain ⟨cot, -, rfl⟩ := List.mem_map.mp hf
    exact cot.newline_not_mem_line yearWidth
  have hlen := (Framing.frames_arrived hlines h).length_le
  rw [hframes, List.length_map, List.length_map] at hlen
  exact List.prefix_of_prefix_length_le (List.take_prefix k _) hshown hlen

theorem receive_lines (yearWidth : ℕ) (shown : List CotEvent) :
    (shown.map (CotEvent.line yearWidth)).map receive =
      shown.map fun cot ↦ if cot.legal then some cot.report else none := by
  rw [List.map_map]
  exact List.map_congr_left fun cot _ ↦ cot.receive_line yearWidth

/-- However much of a session arrives: what is understood is what the first events
of the session say, which are part of what the bridge sent, in order.  Only an event
with a character that no document may have is not understood, and an event that has
arrived in full is not held back. -/
theorem stream_understood (cfg : TakBridgeConfig) (yearWidth : ℕ) {moves : List Move} {r : Relay}
    (hrun : run cfg moves = some r) (n : ℕ) {arrived : List UInt8}
    (harrived : arrived <+: r.stream yearWidth n) :
    ∃ shown, shown <+: r.sink.inSession n ∧ shown.Sublist r.sink.sent ∧
      (Framing.frames newline arrived).map receive =
        shown.map (fun cot ↦ if cot.legal then some cot.report else none) ∧
      (∀ cot ∈ shown, cot.Says cot.report) ∧
      ∀ k, Framing.stream newline
          (((r.sink.inSession n).take k).map (CotEvent.line yearWidth)) <+: arrived →
        (r.sink.inSession n).take k <+: shown := by
  obtain ⟨shown, hshown, hframes⟩ := frames_of_prefix harrived
  have hsub := hshown.sublist.trans ((inSession_sublist n).trans (run_tidy hrun).written_sublist)
  refine ⟨shown, hshown, hsub, ?_, fun cot _ ↦ cot.says_report, fun k hk ↦ ?_⟩
  · rw [hframes]
    exact receive_lines yearWidth shown
  · exact take_frames hframes hshown hk

/-- The connection is lost before the drop event: the two tracks are understood. -/
theorem cut_understood : ∃ r, run {} evicted = some r ∧
    (r.sink.inSession 0).map CotEvent.isDrop = [false, false, true] ∧
    ∃ shown : List CotEvent, 2 ≤ shown.length ∧ shown.Sublist r.sink.sent ∧
      (Framing.frames newline (Framing.stream newline
        (((r.sink.inSession 0).take 2).map (CotEvent.line 4)))).map receive =
        shown.map (fun cot ↦ if cot.legal then some cot.report else none) := by
  have hrun : ((run {} evicted).map fun r ↦ (r.sink.inSession 0).map CotEvent.isDrop) =
      some [false, false, true] := by decide +kernel
  obtain ⟨r, hr, hends⟩ := Option.map_eq_some_iff.mp hrun
  have hpart : ((r.sink.inSession 0).take 2).map (CotEvent.line 4) <+:
      (r.sink.inSession 0).map (CotEvent.line 4) := (List.take_prefix 2 _).map _
  obtain ⟨shown, -, hsub, hread, -, hfull⟩ :=
    stream_understood {} 4 hr 0 (Framing.stream_prefix hpart)
  refine ⟨r, hr, hends, shown, ?_, hsub, hread⟩
  have hlen := (hfull 2 List.prefix_rfl).length_le
  have hthree := congrArg List.length hends
  simp only [List.length_map, List.length_cons, List.length_nil] at hthree
  rw [List.length_take, hthree] at hlen
  omega

/-! ## The picture -/

/-- The markers of a client. -/
abbrev Picture := Dict String Report

/-- A report that was stale before its start removes the marker. -/
def Picture.take (p : Picture) : Option Report → Picture
  | none => p
  | some rep => if rep.stale < rep.start then p.erase rep.uid else p.set rep.uid rep

def Picture.of (reports : List (Option Report)) : Picture := reports.foldl Picture.take .empty

theorem Picture.of_snoc (reports : List (Option Report)) (rep : Option Report) :
    Picture.of (reports ++ [rep]) = (Picture.of reports).take rep := by
  rw [Picture.of, List.foldl_append]
  rfl

/-- Only a drop event is stale before its start. -/
theorem stale_iff {cfg : TakBridgeConfig} (hstale : 0 ≤ cfg.staleAfterS) {cot : CotEvent}
    (h : Timed cfg cot) : cot.report.stale < cot.report.start ↔ cot.isDrop = true := by
  cases cot with
  | track t =>
      have htime := h t rfl
      simp only [CotEvent.report, CotEvent.isDrop]
      constructor
      · intro hlt
        omega
      · simp
  | drop uid cotType lat lon time => simp [CotEvent.report, CotEvent.isDrop]

/-- What has arrived of each session, read one session after the other. -/
def reports (r : Relay) (arrived : ℕ → List UInt8) : List (Option Report) :=
  (List.range r.sink.openedAt.length).flatMap fun n ↦
    (Framing.frames newline (arrived n)).map receive

end Relay

end MeshcoreRpc.Tak
