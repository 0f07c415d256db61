import MeshcoreRpc.Core.Pipeline
import MeshcoreRpc.Lib.Exclusive
import MeshcoreRpc.Nodes.Marks

/-!
# The retained state of a node

Operations one after the other, each over the database and the last payload on
every topic.  The aggregator publishes the state of a node after it has moved
`last_seen`; the pipeline marks the sender of a fresh request and publishes
nothing.
-/

namespace MeshcoreRpc

open Tables Coroutine Coro

/-- The database and the last payload published on each topic. -/
structure Stage where
  db : Db
  last : String → Option (List (String × PyVal))

/-- What an answered effect does to the stage.  Writes to the store and publishes
succeed; a read raises what the method raises.  What a timeout cancels may have
been done all the same: a worker thread runs to its end. -/
def Eff.Performed (num : Numerals) : (e : Eff) → e.Answer → Stage → Stage → Prop
  | .store c, r, s, s' => s'.last = s.last ∧ ∃ now,
    (∃ a, r = .ok a ∧ c.exec num now s.db = .ok (s'.db, a)) ∨
      c.reads = true ∧ s'.db = s.db ∧ ∃ err, r = .error err ∧ c.exec num now s.db = .error err
  | .publish topic payload _, r, s, s' =>
    r = .ok () ∧ s'.db = s.db ∧ s'.last = Function.update s.last topic (some payload)
  | .underTtl _ e, some r, s, s' => e.Performed num r s s'
  | .underTtl _ e, none, s, s' => s' = s ∨ ∃ r, e.Performed num r s s'
  | .afterTtl e, r, s, s' => e.Performed num r s s'
  | _, _, s, s' => s' = s

/-- The reaction of the stage to an exchange. -/
abbrev performs (num : Numerals) : Reaction Stage Eff.Answer :=
  fun s x s' ↦ x.1.Performed num x.2 s s'

/-- `get_last_seen` finds a finite number. -/
def Stage.Readable (num : Numerals) (s : Stage) (node : String) : Prop :=
  ∃ q, s.db.syncGetLastSeen num (.str node) = .ok (some (.fin q))

/-- The state summary of the node says when it was last seen. -/
def Stage.Current (num : Numerals) (s : Stage) (node : String) : Prop :=
  ∃ payload q, s.last (Topics.nodeStateTopic node) = some payload ∧
    s.db.syncGetLastSeen num (.str node) = .ok (some (.fin q)) ∧
    payload.lookup "last_seen" = some (.float (.fin q))

def Stage.CurrentBut (num : Numerals) (node : String) (s : Stage) : Prop :=
  ∀ n, n ≠ node → (s.db.nodes.find? n).isSome → s.Current num n

def Stage.AllCurrent (num : Numerals) (s : Stage) : Prop :=
  ∀ n, (s.db.nodes.find? n).isSome → s.Current num n

/-! ## Topics -/

theorem nodeStateTopic_inj {n n' : String}
    (h : Topics.nodeStateTopic n = Topics.nodeStateTopic n') : n = n' := by
  have hlist := congrArg String.toList h
  exact String.toList_inj.mp (by simpa [Topics.nodeStateTopic] using hlist)

/-- A topic of a node that is no state topic. -/
def NotState (topic : String) : Prop := ∀ n, topic ≠ Topics.nodeStateTopic n

/-- A topic that ends in another character than the state topics do is none of them. -/
theorem notState_of_last {before name : String} {c : Char} (hlast : name.toList.getLast? = some c)
    (hc : c ≠ 'e') : NotState (before ++ name) := by
  intro n hn
  have hlist := congrArg (fun topic : String ↦ topic.toList.getLast?) hn
  simp only [Topics.nodeStateTopic, String.toList_append, List.getLast?_append, hlast] at hlist
  exact hc (by simpa using hlist)

theorem notState_location (n : String) : NotState (Topics.nodeLocationTopic n) :=
  notState_of_last rfl (by decide)

theorem notState_battery (n : String) : NotState (Topics.nodeBatteryTopic n) :=
  notState_of_last rfl (by decide)

/-! ## What the effects do to the stage -/

section Effects

variable {num : Numerals} {s s' : Stage}

theorem Stage.ext_fields {s s' : Stage} (hdb : s'.db = s.db) (hlast : s'.last = s.last) :
    s' = s := by
  cases s
  cases s'
  cases hdb
  cases hlast
  rfl

theorem performed_read {c : StoreCall} {r : Except PyExc c.Answer} (hc : c.reads = true)
    (h : performs num s ⟨.store c, r⟩ s') :
    s' = s ∧ ∃ now, r = (c.exec num now s.db).map Prod.snd := by
  obtain ⟨hlast, now, ⟨a, rfl, hexec⟩ | ⟨_, hdb, err, rfl, hexec⟩⟩ := h
  · have hdb := StoreCall.exec_reads hc hexec
    refine ⟨Stage.ext_fields hdb hlast, now, ?_⟩
    rw [hexec]
    rfl
  · refine ⟨Stage.ext_fields hdb hlast, now, ?_⟩
    rw [hexec]
    rfl

theorem map_snd_mk {α : Type} (db : Db) (x : Except PyExc α) :
    (x.map (Prod.mk db)).map Prod.snd = x := by
  cases x <;> rfl

theorem performed_getLastSeen {nodeId : PyVal} {r : Except PyExc (Option PyFloat)}
    (h : performs num s ⟨.store (.getLastSeen nodeId), r⟩ s') :
    s' = s ∧ r = s.db.syncGetLastSeen num nodeId := by
  obtain ⟨hs, now, hr⟩ := performed_read rfl h
  exact ⟨hs, hr.trans (map_snd_mk _ _)⟩

theorem performed_getNodeLocation {node : String}
    {r : Except PyExc (Option (List (String × PyVal)))}
    (h : performs num s ⟨.store (.getNodeLocation (.str node)), r⟩ s') :
    s' = s ∧ ∃ loc, r = .ok loc := by
  obtain ⟨hs, now, hr⟩ := performed_read rfl h
  exact ⟨hs, _, (hr.trans (map_snd_mk _ _)).trans (Db.syncGetNodeLocation_str node)⟩

theorem performed_getNodeBattery {node : String}
    {r : Except PyExc (Option (List (String × PyVal)))}
    (h : performs num s ⟨.store (.getNodeBattery (.str node)), r⟩ s') :
    s' = s ∧ ∃ bat, r = .ok bat := by
  obtain ⟨hs, now, hr⟩ := performed_read rfl h
  exact ⟨hs, _, (hr.trans (map_snd_mk _ _)).trans (Db.syncGetNodeBattery_str node)⟩

theorem performed_reads {e : Eff} {r : e.Answer} (he : e.Reads) (h : performs num s ⟨e, r⟩ s') :
    s' = s := by
  cases e with
  | store c => exact (performed_read he h).1
  | time | getGatewaySnapshot | getRadio => exact h
  | _ => exact he.elim

/-- A write that is not to `nodes` leaves the registry and the topics. -/
theorem performed_other {c : StoreCall} {r : Except PyExc c.Answer}
    (hc : c.touches .nodes = false) (h : performs num s ⟨.store c, r⟩ s') :
    s'.db.nodes = s.db.nodes ∧ s'.last = s.last := by
  obtain ⟨hlast, now, ⟨a, _, hexec⟩ | ⟨_, hdb, _⟩⟩ := h
  · exact ⟨(StoreCall.exec_same hexec).nodes hc, hlast⟩
  · exact ⟨congrArg Db.nodes hdb, hlast⟩

theorem Stage.Current.congr {n : String} (h : s.Current num n)
    (hrow : s'.db.nodes.find? n = s.db.nodes.find? n)
    (hlast : s'.last (Topics.nodeStateTopic n) = s.last (Topics.nodeStateTopic n)) :
    s'.Current num n := by
  obtain ⟨payload, q, hpayload, hseen, hlookup⟩ := h
  refine ⟨payload, q, hlast.trans hpayload, ?_, hlookup⟩
  rw [Db.syncGetLastSeen_str, hrow, ← Db.syncGetLastSeen_str, hseen]

/-- The registry and the state topics are as they were. -/
def Stage.SameSummary (s s' : Stage) : Prop :=
  s'.db.nodes = s.db.nodes ∧
    ∀ n, s'.last (Topics.nodeStateTopic n) = s.last (Topics.nodeStateTopic n)

theorem Stage.SameSummary.refl (s : Stage) : s.SameSummary s := ⟨rfl, fun _ ↦ rfl⟩

theorem Stage.SameSummary.currentBut {node : String} (h : s.SameSummary s')
    (hbut : s.CurrentBut num node) : s'.CurrentBut num node := by
  intro n hn hrow
  rw [h.1] at hrow
  exact (hbut n hn hrow).congr (by rw [h.1]) (h.2 n)

theorem Stage.SameSummary.allCurrent (h : s.SameSummary s') (hall : s.AllCurrent num) :
    s'.AllCurrent num := by
  intro n hrow
  rw [h.1] at hrow
  exact (hall n hrow).congr (by rw [h.1]) (h.2 n)

theorem Stage.AllCurrent.currentBut (h : s.AllCurrent num) (node : String) :
    s.CurrentBut num node := fun n _ hrow ↦ h n hrow

/-- Writes to the other tables and publications on other topics, and all effects
that are neither, leave the summaries. -/
theorem performed_sameSummary {e : Eff} {r : e.Answer}
    (hstore : ∀ c, e = .store c → c.touches .nodes = false)
    (htopic : ∀ topic payload retain, e = .publish topic payload retain → NotState topic)
    (houter : e.outer = true) (h : performs num s ⟨e, r⟩ s') :
    s.SameSummary s' := by
  cases e with
  | store c =>
      obtain ⟨hnodes, hlast⟩ := performed_other (hstore c rfl) h
      exact ⟨hnodes, fun n ↦ congrFun hlast _⟩
  | publish topic payload retain =>
      obtain ⟨_, hdb, hlast⟩ := h
      refine ⟨congrArg Db.nodes hdb, fun n ↦ ?_⟩
      rw [hlast]
      exact Function.update_of_ne (Ne.symm (htopic _ _ _ rfl n)) ..
  | underTtl => cases houter
  | afterTtl => cases houter
  | _ =>
      cases h
      exact .refl _

theorem performed_write {c : StoreCall} {r : Except PyExc c.Answer}
    (hc : c.touches .nodes = false) (hreads : c.reads = false)
    (h : performs num s ⟨.store c, r⟩ s') : (∃ a, r = .ok a) ∧ s.SameSummary s' := by
  obtain ⟨hnodes, hlast⟩ := performed_other hc h
  refine ⟨?_, hnodes, fun n ↦ congrFun hlast _⟩
  obtain ⟨_, now, ⟨a, hr, _⟩ | ⟨hread, _⟩⟩ := h
  · exact ⟨a, hr⟩
  · rw [hreads] at hread
    cases hread

/-- The node has been marked with the time, and no other one. -/
def Stage.Marked (num : Numerals) (s s' : Stage) (node : String) (ts : PyVal) : Prop :=
  ∃ seen, bindReal num ts = .ok seen ∧ seen ≠ .null ∧ ∀ k, s'.db.nodes.find? k =
    if k = node then some (.marked node seen (s.db.nodes.find? node)) else s.db.nodes.find? k

theorem performed_mark {node : String} {ts : PyVal} {r : Except PyExc Unit}
    (h : performs num s ⟨.store (.markNodeSeen (.str node) ts), r⟩ s') :
    r = .ok () ∧ s.Marked num s' node ts ∧ s'.last = s.last := by
  obtain ⟨hlast, now, ⟨a, rfl, hexec⟩ | ⟨hread, _⟩⟩ := h
  · obtain ⟨key, seen, hkey, hseen, hne, hrows⟩ := StoreCall.exec_markNodeSeen hexec
    cases hkey
    refine ⟨rfl, ⟨seen, hseen, hne, fun k ↦ ?_⟩, hlast⟩
    rw [hrows]
    by_cases hk : k = node
    · subst hk
      simp
    · simp [hk, Ne.symm hk]
  · cases hread

theorem Stage.Marked.isSome {node : String} {ts : PyVal} (h : s.Marked num s' node ts) :
    (s'.db.nodes.find? node).isSome := by
  obtain ⟨seen, _, _, hrows⟩ := h
  rw [hrows, if_pos rfl]
  rfl

theorem Stage.Marked.currentBut {node : String} {ts : PyVal} (h : s.Marked num s' node ts)
    (hlast : s'.last = s.last) (hbut : s.CurrentBut num node) : s'.CurrentBut num node := by
  obtain ⟨seen, _, _, hrows⟩ := h
  intro n hn hrow
  rw [hrows, if_neg hn] at hrow
  exact (hbut n hn hrow).congr (by rw [hrows, if_neg hn]) (by rw [hlast])

/-- Whatever leaves the registry can come before and after a mark. -/
theorem Stage.Marked.within {node : String} {ts : PyVal} {s₁ s₂ : Stage}
    (h : s₁.Marked num s₂ node ts) (hbefore : s₁.db.nodes = s.db.nodes)
    (hafter : s'.db.nodes = s₂.db.nodes) : s.Marked num s' node ts := by
  obtain ⟨seen, hseen, hne, hrows⟩ := h
  exact ⟨seen, hseen, hne, by rwa [hafter, ← hbefore]⟩

/-- A finite time leaves a readable `last_seen` readable. -/
theorem Stage.Marked.readable {node : String} {q : ℚ}
    (h : s.Marked num s' node (.float (.fin q)))
    (hold : (s.db.nodes.find? node).isSome → s.Readable num node) : s'.Readable num node := by
  obtain ⟨seen, hseen, _, hrows⟩ := h
  obtain rfl : seen = .real q := (Except.ok.inj hseen).symm
  have hnew : (SqlValue.toPython (.real q)).toFloat num = .ok (.fin q) := rfl
  rw [Stage.Readable, Db.syncGetLastSeen_str, hrows, if_pos rfl, Option.elim_some]
  cases hfind : s.db.nodes.find? node with
  | none => exact ⟨q, by rw [NodeRow.marked, Option.elim_none]; rfl⟩
  | some row =>
      obtain ⟨q', hq'⟩ := hold (by rw [hfind]; rfl)
      rw [Db.syncGetLastSeen_str, hfind, Option.elim_some] at hq'
      have hne : SqlValue.real q ≠ .null := by simp
      rcases SqlValue.max_eq_or (a := row.lastSeen) hne with hmax | hmax
      · exact ⟨q', by rw [NodeRow.marked, Option.elim_some, hmax, hq']⟩
      · exact ⟨q, by rw [NodeRow.marked, Option.elim_some, hmax]; rfl⟩

end Effects

/-! ## Publishing the state -/

/-- The reaction to exchanges of which `P` is known. -/
abbrev performsWhere (num : Numerals) (P : Exchange Eff.Answer → Prop) :
    Reaction Stage Eff.Answer :=
  fun s x s' ↦ performs num s x s' ∧ P x

namespace StateAggregator

variable {num : Numerals} {P : Exchange Eff.Answer → Prop} {I : Stage → Prop} {s : Stage}
  {node : String}

/-- The state of a known node is computed just when its `last_seen` is a finite
number, and repeats it. -/
theorem getNodeState_spec (hI : I s) (hnode : (s.db.nodes.find? node).isSome) :
    (getNodeState (.str node)).alone (performsWhere num P) I s fun o s' ↦ s' = s ∧
      ((∃ q rest, s.db.syncGetLastSeen num (.str node) = .ok (some (.fin q)) ∧
          o = .ok (some (("id", .str node) :: ("last_seen", .float (.fin q)) :: rest))) ∨
        ¬ s.Readable num node ∧ ∃ err, o = .error err) := by
  obtain ⟨row, hrow⟩ := Option.isSome_iff_exists.mp hnode
  simp only [getNodeState, getNodeLocation, getNodeBattery, Prog.getRadio, Prog.time, alone_bind,
    Prog.store, alone_await, alone_ofOutcome]
  refine ⟨hI, fun r s₁ hW ↦ ?_⟩
  obtain ⟨rfl, hr⟩ := performed_getLastSeen hW.1
  have hsync := hr
  rw [Db.syncGetLastSeen_str, hrow, Option.elim_some] at hsync
  cases hfloat : row.lastSeen.toPython.toFloat num with
  | error err =>
      rw [hfloat] at hsync
      cases hsync
      refine ⟨rfl, .inr ⟨?_, err, rfl⟩⟩
      rintro ⟨q, hq⟩
      rw [hq] at hr
      cases hr
  | ok lastSeen =>
      rw [hfloat] at hsync
      cases hsync
      refine ⟨hI, fun loc s₂ hW ↦ ?_⟩
      obtain ⟨rfl, loc, rfl⟩ := performed_getNodeLocation hW.1
      refine ⟨hI, fun bat s₃ hW ↦ ?_⟩
      obtain ⟨rfl, bat, rfl⟩ := performed_getNodeBattery hW.1
      refine ⟨hI, fun radio s₄ hW ↦ ?_⟩
      cases hW.1
      refine ⟨hI, fun now s₅ hW ↦ ?_⟩
      cases hW.1
      cases lastSeen with
      | fin q => exact ⟨rfl, .inl ⟨q, _, hr.symm, rfl⟩⟩
      | nan =>
          refine ⟨rfl, .inr ⟨?_, _, rfl⟩⟩
          rintro ⟨q, hq⟩
          rw [hq] at hr
          cases hr
      | inf negative =>
          refine ⟨rfl, .inr ⟨?_, _, rfl⟩⟩
          rintro ⟨q, hq⟩
          rw [hq] at hr
          cases hr

/-- Publishing the state of a known node makes it current, unless its `last_seen`
cannot be read. -/
theorem republishState_spec (hI : I s) (hnode : (s.db.nodes.find? node).isSome)
    (hbut : s.CurrentBut num node) :
    (republishState num (.str node)).alone (performsWhere num P) I s fun o s' ↦
      (s.Readable num node ∧ o = .ok () ∧ s'.db = s.db ∧ s'.AllCurrent num) ∨
        ¬ s.Readable num node ∧ s' = s ∧ o ≠ .ok () := by
  rw [republishState, alone_bind]
  refine alone_mono (getNodeState_spec hI hnode) (fun _ h ↦ h) ?_
  rintro o s₁ ⟨rfl, ⟨q, rest, hseen, rfl⟩ | ⟨hnot, err, rfl⟩⟩
  · simp only [Prog.publish, alone_await, alone_ofOutcome]
    refine ⟨hI, fun r s' hW ↦ .inl ?_⟩
    obtain ⟨hr, hdb, hlast⟩ := hW.1
    refine ⟨⟨q, hseen⟩, hr, hdb, fun n hn ↦ ?_⟩
    by_cases hnode' : n = node
    · subst hnode'
      refine ⟨compactJson (("id", .str n) :: ("last_seen", .float (.fin q)) :: rest), q, ?_, ?_,
        rfl⟩
      · rw [hlast]
        exact Function.update_self ..
      · rw [hdb, hseen]
    · rw [hdb] at hn
      refine (hbut n hnode' hn).congr (by rw [hdb]) ?_
      rw [hlast]
      exact Function.update_of_ne (fun heq ↦ hnode' (nodeStateTopic_inj heq)) ..
  · exact .inr ⟨hnot, rfl, by simp⟩

/-- How an `apply_*` that marks the node leaves the stage. -/
def Applied (num : Numerals) (node : String) (ts : PyVal) (s : Stage) (o : Except PyExc Unit)
    (s' : Stage) : Prop :=
  s.Marked num s' node ts ∧
    (o = .ok () ∧ s'.AllCurrent num ∨ o ≠ .ok () ∧ ¬ s'.Readable num node)

/-- Between the mark and the publication of the state. -/
theorem applied_of_republish {ts : PyVal} {s₀ : Stage} (hmarked : s₀.Marked num s node ts)
    (hbut : s.CurrentBut num node) :
    (republishState num (.str node)).alone (performsWhere num P) (fun _ ↦ True) s
      (Applied num node ts s₀) := by
  refine alone_mono (republishState_spec trivial hmarked.isSome hbut) (fun _ h ↦ h) ?_
  rintro o s' (⟨_, ho, hdb, hall⟩ | ⟨hnot, rfl, ho⟩)
  · obtain ⟨seen, hseen, hne, hrows⟩ := hmarked
    exact ⟨⟨seen, hseen, hne, by rwa [hdb]⟩, .inl ⟨ho, hall⟩⟩
  · exact ⟨hmarked, .inr ⟨ho, hnot⟩⟩

theorem alone_noteRadio {ts : PyVal} {rssi : Option ℤ} {snr : Option PyFloat}
    {Q : Except PyExc Unit → Stage → Prop} (hI : I s) (h : Q (.ok ()) s) :
    (noteRadio (.str node) ts rssi snr).alone (performsWhere num P) I s Q := by
  unfold noteRadio
  split
  · refine ⟨hI, fun r s' hW ↦ ?_⟩
    cases hW.1
    exact h
  · exact h

theorem applySeen_spec {ts : PyVal} {rssi : Option ℤ} {snr : Option PyFloat}
    (hall : s.AllCurrent num) :
    (applySeen num (.str node) ts rssi snr).alone (performsWhere num P) (fun _ ↦ True) s
      (Applied num node ts s) := by
  simp only [applySeen, alone_bind, Prog.store, alone_await, alone_ofOutcome]
  refine ⟨trivial, fun r s₁ hW ↦ ?_⟩
  obtain ⟨rfl, hmarked, hlast⟩ := performed_mark hW.1
  refine alone_noteRadio trivial ?_
  exact applied_of_republish hmarked (hmarked.currentBut hlast (hall.currentBut node))

theorem performed_publish {topic : String} {payload : List (String × PyVal)} {retain : Bool}
    {r : Except PyExc Unit} {s' : Stage} (htopic : NotState topic)
    (h : performs num s ⟨.publish topic payload retain, r⟩ s') :
    r = .ok () ∧ s.SameSummary s' := by
  refine ⟨h.1, @performed_sameSummary _ _ _ (.publish topic payload retain) r (fun c heq ↦ ?_)
    (fun topic' payload' retain' heq ↦ ?_) rfl h⟩
  · cases heq
  · cases heq
    exact htopic

theorem applyLocation_spec {fix : LocationFix} {source : String} {rssi : Option ℤ}
    {snr : Option PyFloat} (hbut : s.CurrentBut num node) :
    (applyLocation num (.str node) fix source rssi snr).alone (performsWhere num P)
      (fun _ ↦ True) s (Applied num node (.float fix.ts) s) := by
  simp only [applyLocation, alone_bind, Prog.store, alone_await, alone_ofOutcome]
  refine ⟨trivial, fun r s₁ hW ↦ ?_⟩
  obtain ⟨⟨_, rfl⟩, hsame⟩ := performed_write rfl rfl hW.1
  refine ⟨trivial, fun r s₂ hW ↦ ?_⟩
  obtain ⟨rfl, hmarked, hlast⟩ := performed_mark hW.1
  have hbut₂ := hmarked.currentBut hlast (hsame.currentBut hbut)
  refine alone_noteRadio trivial ?_
  simp only [Prog.publish, alone_await, alone_ofOutcome]
  refine ⟨trivial, fun r s₃ hW ↦ ?_⟩
  obtain ⟨rfl, hsame'⟩ := performed_publish (notState_location _) hW.1
  exact applied_of_republish (hmarked.within hsame.1 hsame'.1) (hsame'.currentBut hbut₂)

theorem applyBattery_spec {ts pct voltage : PyVal} {source : String}
    (hbut : s.CurrentBut num node) :
    (applyBattery num (.str node) ts pct voltage source).alone (performsWhere num P)
      (fun _ ↦ True) s (Applied num node ts s) := by
  simp only [applyBattery, alone_bind, Prog.store, alone_await, alone_ofOutcome]
  refine ⟨trivial, fun r s₁ hW ↦ ?_⟩
  obtain ⟨⟨_, rfl⟩, hsame⟩ := performed_write rfl rfl hW.1
  refine ⟨trivial, fun r s₂ hW ↦ ?_⟩
  obtain ⟨rfl, hmarked, hlast⟩ := performed_mark hW.1
  have hbut₂ := hmarked.currentBut hlast (hsame.currentBut hbut)
  simp only [Prog.publish, alone_await, alone_ofOutcome]
  refine ⟨trivial, fun r s₃ hW ↦ ?_⟩
  obtain ⟨rfl, hsame'⟩ := performed_publish (notState_battery _) hW.1
  exact applied_of_republish (hmarked.within hsame.1 hsame'.1) (hsame'.currentBut hbut₂)

end StateAggregator

/-! ## Under a TTL -/

section WaitFor

variable {σ α : Type} {W W' : Reaction σ Eff.Answer} {I : σ → Prop} {s : σ} {x : Prog α} {ttlS : ℤ}

/-- `wait_for`, when the timeout can only come where `I` holds. -/
theorem alone_waitFor {Q : Except PyExc α → σ → Prop}
    (h : x.alone (fun s y s' ↦ W s ⟨.underTtl ttlS y.1, some y.2⟩ s') I s Q)
    (hnever : ttlS ≤ 0 → Q (.error .timeoutError) s)
    (htimeout : ∀ e s s', I s → W s ⟨.underTtl ttlS e, none⟩ s' → Q (.error .timeoutError) s') :
    (waitFor ttlS x letThrough).alone W I s Q := by
  unfold waitFor
  split
  case isTrue httl => exact hnever httl
  clear hnever
  induction x generalizing s with
  | ret a => exact h
  | raise err => exact h
  | await e next ih =>
      rw [guarded]
      refine ⟨h.1, fun r s' hW ↦ ?_⟩
      cases r with
      | none => exact htimeout e s s' h.1 hW
      | some r => exact ih r (h.2 r s' hW)

/-- A timeout can come wherever a coroutine has got to. -/
theorem alone_stopped {Q : Except PyExc α → σ → Prop} (h : x.alone W' I s Q)
    (hwaiting : ∀ s, I s → Q (.error .timeoutError) s)
    (hdone : ∀ o s, Q o s → Q (.error .timeoutError) s) : Q (.error .timeoutError) s := by
  cases x with
  | ret a => exact hdone _ _ h
  | raise err => exact hdone _ _ h
  | await e next => exact hwaiting _ h.1

/-- `wait_for`, when what a timeout cancels has either been done or not. -/
theorem alone_waitFor_cut {Q : Except PyExc α → σ → Prop} (h : x.alone W' I s Q)
    (hanswered : ∀ e r s s', W s ⟨.underTtl ttlS e, some r⟩ s' → W' s ⟨e, r⟩ s')
    (hcancelled : ∀ e s s', W s ⟨.underTtl ttlS e, none⟩ s' → s' = s ∨ ∃ r, W' s ⟨e, r⟩ s')
    (hwaiting : ∀ s, I s → Q (.error .timeoutError) s)
    (hdone : ∀ o s, Q o s → Q (.error .timeoutError) s) :
    (waitFor ttlS x letThrough).alone W I s Q := by
  refine waitFor_cases (C := fun y ↦ y.alone W I s Q) (alone_stopped h hwaiting hdone) ?_
  induction x generalizing s with
  | ret a => exact h
  | raise err => exact h
  | await e next ih =>
      rw [guarded]
      refine ⟨h.1, fun r s' hW ↦ ?_⟩
      cases r with
      | some r => exact ih r (h.2 r s' (hanswered e r s s' hW))
      | none =>
          obtain rfl | ⟨r, hW'⟩ := hcancelled e s s' hW
          · exact hwaiting _ h.1
          · exact alone_stopped (h.2 r s' hW') hwaiting hdone

theorem alone_waitFor_keeps (h : x.alone W' I s fun _ s' ↦ I s')
    (hanswered : ∀ e r s s', W s ⟨.underTtl ttlS e, some r⟩ s' → W' s ⟨e, r⟩ s')
    (hcancelled : ∀ e s s', W s ⟨.underTtl ttlS e, none⟩ s' → s' = s ∨ ∃ r, W' s ⟨e, r⟩ s') :
    (waitFor ttlS x letThrough).alone W I s fun _ s' ↦ I s' :=
  alone_waitFor_cut h hanswered hcancelled (fun _ hI ↦ hI) fun _ _ hI ↦ hI

end WaitFor

section Pipeline

variable {num : Numerals} {P : Exchange Eff.Answer → Prop} {s : Stage}

theorem alone_waitFor_reads {α : Type} {x : Prog α} {ttlS : ℤ} (hx : x.Only Eff.Reads) :
    (waitFor ttlS x letThrough).alone (performsWhere num P) (fun s' ↦ s' = s) s
      fun _ s' ↦ s' = s := by
  have hstill : (waitFor ttlS x letThrough).Only fun e ↦
      ∀ r s₁ s₂, performs num s₁ ⟨e, r⟩ s₂ → s₂ = s₁ := by
    refine only_waitFor (hx.mono fun e he r s₁ s₂ hW ↦ ?_) fun _ _ ↦ trivial
    cases r with
    | none =>
        obtain hstill | ⟨r, hperformed⟩ := hW
        · exact hstill
        · exact performed_reads he hperformed
    | some r => exact performed_reads he hW
  exact alone_of_only hstill (fun e r s₁ s₂ he hs hW ↦ (he r s₁ s₂ hW.1).trans hs) rfl

theorem publishAndFinalize_only (request : Request) (response : Response) (finalState : FinalState)
    (errorCode : Option String) :
    (publishAndFinalize request response finalState errorCode).Only fun e ↦
      (∀ c, e = .store c → c.touches .nodes = false) ∧
        (∀ topic payload retain, e ≠ .publish topic payload retain) ∧ e.outer = true := by
  refine .bind (.tryCatch (.bind (Prog.only_emit.mpr ⟨?_, ?_, rfl⟩) fun _ ↦
    Prog.only_store.mpr ⟨?_, ?_, rfl⟩) fun _ ↦ True.intro) fun _ ↦
      Prog.only_store.mpr ⟨?_, ?_, rfl⟩
  · exact fun c heq ↦ by cases heq
  · simp
  · rintro c ⟨⟩
    rfl
  · simp
  · rintro c ⟨⟩
    rfl
  · simp

theorem publishAndFinalize_alone {Inv : Stage → Prop}
    (hInv : ∀ s s', s.SameSummary s' → Inv s → Inv s') (hs : Inv s) (request : Request)
    (response : Response) (finalState : FinalState) (errorCode : Option String) :
    (publishAndFinalize request response finalState errorCode).alone (performsWhere num P)
      (fun _ ↦ True) s fun _ s' ↦ Inv s' := by
  refine alone_mono (alone_of_only (publishAndFinalize_only request response finalState errorCode)
    (fun e r s₁ s₂ he hinv hW ↦ ?_) hs) (fun _ _ ↦ trivial) fun _ _ h ↦ h
  obtain ⟨hstore, hpublish, houter⟩ := he
  refine hInv _ _ (performed_sameSummary hstore (fun topic payload retain heq ↦ ?_) houter hW.1)
    hinv
  exact absurd heq (hpublish topic payload retain)

theorem alone_runWithTimeout {α : Type} {x : Prog α} {unwind : Unwinding α} {ttlS : ℤ}
    {Q : Except PyExc α → Stage → Prop}
    (h : (waitFor ttlS x unwind).alone (performsWhere num P) (fun _ ↦ True) s Q) :
    (runWithTimeout x unwind ttlS).alone (performsWhere num P) (fun _ ↦ True) s Q := by
  rw [runWithTimeout, alone_bind]
  refine ⟨trivial, fun _ s₁ hW ↦ ?_⟩
  cases hW.1
  change ((waitFor ttlS x unwind).attempt >>= _).alone _ _ _ _
  rw [alone_bind, alone_attempt]
  refine alone_mono h (fun _ h ↦ h) fun outcome s₂ hQ ↦ ?_
  change (Prog.dec >>= _).alone _ _ _ _
  rw [alone_bind]
  refine ⟨trivial, fun _ s₃ hW ↦ ?_⟩
  cases hW.1
  exact alone_ofOutcome.mpr hQ

/-- What a call leaves, from what the mark of a fresh request leaves and what its
handler makes of that. -/
theorem processRequest_alone {Inv B : Stage → Prop} {policy : TimeoutPolicy} {router : Router}
    {request : Request} (hInv : ∀ s s', s.SameSummary s' → Inv s → Inv s')
    (hB : ∀ s s', s.SameSummary s' → B s → B s') (hs : Inv s)
    (hmark : s.db.requests.find? request.key = none → ∀ s₁ t s₂, Inv s₁ →
      s₁.db.nodes = s.db.nodes → P ⟨.time, t⟩ →
      performs num s₁ ⟨.store (.markNodeSeen (.str request.from_) (.float (.fin t))),
        Except.ok ()⟩ s₂ → B s₂)
    (hnone : ∀ s₂, B s₂ → router.resolve request.type = none → Inv s₂)
    (hhandler : ∀ s₂ handler, B s₂ → router.resolve request.type = some handler →
      (handler.timed request (policy.resolve request.type request.ttl)).alone
        (performsWhere num P) (fun _ ↦ True) s₂ fun _ s₃ ↦ Inv s₃) :
    (processRequest policy router request).alone (performsWhere num P) (fun _ ↦ True) s
      fun _ s' ↦ Inv s' := by
  have hfinal {s : Stage} (hs : Inv s) (response : Response) (finalState : FinalState)
      (errorCode : Option String) :
      (publishAndFinalize request response finalState errorCode).alone (performsWhere num P)
        (fun _ ↦ True) s fun _ s' ↦ Inv s' :=
    publishAndFinalize_alone hInv hs ..
  simp only [processRequest, recordEvent, alone_bind, alone_attempt, Prog.store, alone_await,
    alone_ofOutcome]
  refine ⟨trivial, fun received s₁ hW ↦ ?_⟩
  obtain ⟨⟨fresh, rfl⟩, hsame⟩ := performed_write rfl rfl hW.1
  have hs₁ := hInv _ _ hsame hs
  cases fresh with
  | false =>
      refine ⟨trivial, fun logged s₂ hW ↦ ?_⟩
      obtain ⟨⟨_, rfl⟩, hsame⟩ := performed_write rfl rfl hW.1
      exact hfinal (hInv _ _ hsame hs₁) ..
  | true =>
      have hfree : s.db.requests.find? request.key = none := by
        obtain ⟨_, now, ⟨a, ha, hexec⟩ | ⟨hread, _⟩⟩ := hW.1
        · cases ha
          rcases StoreCall.exec_recordReceived hexec with ⟨_, hfree, _⟩ | ⟨hne, _⟩
          · exact hfree
          · cases hne
        · cases hread
      refine ⟨trivial, fun validated s₂ hW ↦ ?_⟩
      obtain ⟨⟨_, rfl⟩, hsame₂⟩ := performed_write rfl rfl hW.1
      refine ⟨trivial, fun t s₃ hW ↦ ?_⟩
      obtain ⟨hclock, hP⟩ := hW
      cases hclock
      refine ⟨trivial, fun marked s₄ hW ↦ ?_⟩
      obtain ⟨rfl, _⟩ := performed_mark hW.1
      have hb := hmark hfree s₂ t s₄ (hInv _ _ hsame₂ hs₁) (hsame₂.1.trans hsame.1) hP hW.1
      cases hrouter : router.resolve request.type with
      | none =>
          refine ⟨trivial, fun rejected s₅ hW ↦ ?_⟩
          obtain ⟨⟨_, rfl⟩, hsame⟩ := performed_write rfl rfl hW.1
          exact hfinal (hInv _ _ hsame (hnone _ hb hrouter)) ..
      | some handler =>
          refine ⟨trivial, fun started s₅ hW ↦ ?_⟩
          obtain ⟨⟨_, rfl⟩, hsame⟩ := performed_write rfl rfl hW.1
          change ((runWithTimeout _ _ _).attempt >>= _).alone _ _ _ _
          rw [alone_bind, alone_attempt]
          refine alone_runWithTimeout ?_
          refine alone_mono (hhandler _ handler (hB _ _ hsame hb) hrouter) (fun _ h ↦ h) ?_
          intro outcome s₇ hs₇
          cases outcome with
          | ok response => exact hfinal hs₇ ..
          | error err =>
              cases err with
              | rpcError code message => exact hfinal hs₇ ..
              | other typeName => exact hfinal hs₇ ..
              | timeoutError =>
                  refine ⟨trivial, fun logged s₉ hW ↦ ?_⟩
                  obtain ⟨⟨_, rfl⟩, hsame⟩ := performed_write rfl rfl hW.1
                  exact hfinal (hInv _ _ hsame hs₇) ..

end Pipeline

end MeshcoreRpc
