import MeshcoreRpc.Nodes.Retained

/-!
# The stored and the retained views

A location, a battery reading and the base location each have a row in the
database and a retained topic, and an `apply_*` that writes the one and then
publishes the other.  Calls of one view run concurrently; of each of its two
copies the last to write it decides.
-/

namespace MeshcoreRpc

open Tables Coroutine Coro Interleaving

structure LocationReport where
  fix : LocationFix
  source : String
  rssi : Option ℤ
  snr : Option PyFloat

structure BatteryReport where
  ts : PyVal
  pct : PyVal
  voltage : PyVal
  source : String

structure BaseReport where
  fix : LocationFix
  source : String

/-- What is stored in a row and retained on a topic. -/
inductive View where
  | location (node : String)
  | battery (node : String)
  | base

/-- What a column makes of a value it can take. -/
def asReal (num : Numerals) (v : PyVal) : PyVal :=
  (bindReal num v).toOption.elim .none SqlValue.toPython

def asInteger (num : Numerals) (v : PyVal) : PyVal :=
  (bindInteger num v).toOption.elim .none SqlValue.toPython

def asText (num : Numerals) (v : PyVal) : PyVal :=
  (bindText num v).toOption.elim .none SqlValue.toPython

namespace View

abbrev Report : View → Type
  | location _ => LocationReport
  | battery _ => BatteryReport
  | base => BaseReport

variable (num : Numerals)

/-- The call that takes a report. -/
def prog : (v : View) → v.Report → Prog Unit
  | location node, r =>
    StateAggregator.applyLocation num (.str node) r.fix r.source r.rssi r.snr
  | battery node, r =>
    StateAggregator.applyBattery num (.str node) r.ts r.pct r.voltage r.source
  | base, r => StateAggregator.applyBaseLocation r.fix r.source

/-- Its write. -/
def write : (v : View) → v.Report → StoreCall
  | location node, r => .upsertNodeLocation (.str node) r.fix (some r.source) r.rssi r.snr
  | battery node, r => .upsertNodeBattery (.str node) r.ts r.pct r.voltage (.str r.source)
  | base, r => .upsertBaseState "location" (StateAggregator.baseBody r.fix r.source)

def table : View → TableName
  | location _ => .nodeLocations
  | battery _ => .nodeBattery
  | base => .baseState

def topic : View → String
  | location node => Topics.nodeLocationTopic node
  | battery node => Topics.nodeBatteryTopic node
  | base => Topics.baseLocation

/-- What it publishes, before the `None`s are dropped. -/
def body : (v : View) → v.Report → List (String × PyVal)
  | location node, r =>
    [("id", .str node), ("lat", .float r.fix.lat), ("lon", .float r.fix.lon),
      ("alt", optReal r.fix.alt), ("acc", optReal r.fix.acc), ("fix", optInteger r.fix.fix),
      ("spd", optReal r.fix.spd), ("hdg", optReal r.fix.hdg), ("ts", .float r.fix.ts),
      ("source", .str r.source), ("rssi", optInteger r.rssi), ("snr", optReal r.snr)]
  | battery node, r =>
    [("id", .str node), ("pct", r.pct), ("v", r.voltage), ("ts", r.ts), ("source", .str r.source)]
  | base, r => StateAggregator.baseBody r.fix r.source

/-- What is stored, `None`s dropped. -/
def stored (db : Db) : View → Option (List (String × PyVal))
  | location node => (db.nodeLocations.find? node).map fun row ↦ compactJson
    [("id", .str row.nodeId), ("lat", row.lat.toPython), ("lon", row.lon.toPython),
      ("alt", row.alt.toPython), ("acc", row.acc.toPython), ("fix", row.fix.toPython),
      ("spd", row.spd.toPython), ("hdg", row.hdg.toPython), ("ts", row.ts.toPython),
      ("source", row.source.toPython), ("rssi", row.rssi.toPython), ("snr", row.snr.toPython)]
  | battery node => (db.nodeBattery.find? node).map fun row ↦ compactJson
    [("id", .str row.nodeId), ("pct", row.pct.toPython), ("v", row.voltage.toPython),
      ("ts", row.ts.toPython), ("source", row.source.toPython)]
  | base => (db.baseState.find? "location").map fun row ↦ compactJson row.valueJson

/-- What the columns make of a report. -/
def kept : (v : View) → v.Report → List (String × PyVal)
  | location node, r => compactJson
    [("id", .str node), ("lat", asReal num (.float r.fix.lat)),
      ("lon", asReal num (.float r.fix.lon)), ("alt", asReal num (optReal r.fix.alt)),
      ("acc", asReal num (optReal r.fix.acc)), ("fix", asInteger num (optInteger r.fix.fix)),
      ("spd", asReal num (optReal r.fix.spd)), ("hdg", asReal num (optReal r.fix.hdg)),
      ("ts", asReal num (.float r.fix.ts)), ("source", asText num (.str r.source)),
      ("rssi", asInteger num (optInteger r.rssi)), ("snr", asReal num (optReal r.snr))]
  | battery node, r => compactJson
    [("id", .str node), ("pct", asInteger num r.pct), ("v", asReal num r.voltage),
      ("ts", asReal num r.ts), ("source", asText num (.str r.source))]
  | base, r => compactJson (StateAggregator.baseBody r.fix r.source)

variable {num} {now : ℚ} {db db' : Db}

/-! ## One write -/

theorem reads_touches {c : StoreCall} (hc : c.reads = true) (t : TableName) :
    c.touches t = false := by
  cases c with
  | countByFinalState | countPending | getLastSeen | getNodeLocation | getNodeBattery
  | getBaseState => rfl
  | _ => cases hc

theorem stored_same {v : View} {c : StoreCall} {a : c.Answer} (hc : c.touches v.table = false)
    (h : c.exec num now db = .ok (db', a)) : v.stored db' = v.stored db := by
  have hsame := StoreCall.exec_same h
  cases v with
  | location node => simp only [stored, hsame.nodeLocations hc]
  | battery node => simp only [stored, hsame.nodeBattery hc]
  | base => simp only [stored, hsame.baseState hc]

theorem find?_upsertUnder {ρ : Type} {key : ρ → String} {t : Table key} {node : String}
    {row : String → ρ} (hkey : ∀ s, key (row s) = s) :
    (upsertUnder t (some node) row (fun old ↦ row (key old)) fun _ ↦ hkey _).find? node =
      some (row node) := by
  simp only [upsertUnder, Table.find?_upsert, hkey, if_pos]
  cases hfind : t.find? node with
  | none => rfl
  | some old => rw [Option.elim_some, show key old = node from Table.key_of_find? hfind]

theorem notNull_bind {x : Except PyExc SqlValue} {v : SqlValue} (h : x >>= notNull = .ok v) :
    x = .ok v := by
  obtain ⟨w, hw, hv⟩ := except_bind_ok h
  obtain ⟨rfl, _⟩ := notNull_ok hv
  exact hw

theorem exec_write {v : View} {r : v.Report} {a : (v.write r).Answer}
    (h : (v.write r).exec num now db = .ok (db', a)) : v.stored db' = some (v.kept num r) := by
  cases v with
  | base =>
      have hrow := StoreCall.exec_upsertBaseState h
      simp only [stored, hrow]
      rfl
  | location node =>
      obtain ⟨n, hn⟩ := StoreCall.atomically_execute h
      obtain ⟨key, hkey, hn⟩ := except_bind_ok hn
      cases hkey
      obtain ⟨lat, hlat, hn⟩ := except_bind_ok hn
      obtain ⟨lon, hlon, hn⟩ := except_bind_ok hn
      obtain ⟨alt, halt, hn⟩ := except_bind_ok hn
      obtain ⟨acc, hacc, hn⟩ := except_bind_ok hn
      obtain ⟨fix, hfix, hn⟩ := except_bind_ok hn
      obtain ⟨spd, hspd, hn⟩ := except_bind_ok hn
      obtain ⟨hdg, hhdg, hn⟩ := except_bind_ok hn
      obtain ⟨ts, hts, hn⟩ := except_bind_ok hn
      obtain ⟨source, hsource, hn⟩ := except_bind_ok hn
      obtain ⟨rssi, hrssi, hn⟩ := except_bind_ok hn
      obtain ⟨snr, hsnr, hn⟩ := except_bind_ok hn
      cases hn
      have hsource : bindText num (.str r.source) = .ok source := hsource
      simp only [stored]
      rw [find?_upsertUnder fun _ ↦ rfl]
      simp only [kept, asReal, asInteger, asText, notNull_bind hlat, notNull_bind hlon, halt, hacc,
        hfix, hspd, hhdg, notNull_bind hts, hsource, hrssi, hsnr, Option.map_some, Except.toOption,
        Option.elim_some]
  | battery node =>
      obtain ⟨n, hn⟩ := StoreCall.atomically_execute h
      obtain ⟨key, hkey, hn⟩ := except_bind_ok hn
      cases hkey
      obtain ⟨pct, hpct, hn⟩ := except_bind_ok hn
      obtain ⟨voltage, hvoltage, hn⟩ := except_bind_ok hn
      obtain ⟨ts, hts, hn⟩ := except_bind_ok hn
      obtain ⟨source, hsource, hn⟩ := except_bind_ok hn
      cases hn
      simp only [stored]
      rw [find?_upsertUnder fun _ ↦ rfl]
      simp only [kept, asReal, asInteger, asText, hpct, hvoltage, notNull_bind hts, hsource,
        Option.map_some, Except.toOption, Option.elim_some]

/-! ## One call -/

/-- An effect of a call: of all it does only its write is to the table of the view,
and only its body is published on the topic. -/
def Fits (v : View) (r : v.Report) : Eff → Prop
  | .store c => c.touches v.table = true → c = v.write r
  | .publish topic payload _ => topic = v.topic → payload = compactJson (v.body r)
  | .underTtl .. => False
  | .afterTtl _ => False
  | _ => True

theorem fits_write (v : View) (r : v.Report) : v.Fits r (.store (v.write r)) := fun _ ↦ rfl

theorem fits_other {v : View} {r : v.Report} {c : StoreCall} (h : c.touches v.table = false) :
    v.Fits r (.store c) := by
  intro htouches
  rw [h] at htouches
  cases htouches

theorem fits_reads {v : View} {r : v.Report} {e : Eff} (he : e.Reads) : v.Fits r e := by
  cases e with
  | store c => exact fits_other (reads_touches he _)
  | time | getGatewaySnapshot | getRadio => exact trivial
  | _ => exact he.elim

theorem fits_noteRadio {v : View} {r : v.Report} {nodeId ts : PyVal} {rssi : Option ℤ}
    {snr : Option PyFloat} : (StateAggregator.noteRadio nodeId ts rssi snr).Only (v.Fits r) := by
  unfold StateAggregator.noteRadio
  split
  · exact Prog.only_setRadio.mpr trivial
  · exact True.intro

theorem fits_republishState {v : View} {r : v.Report} {nodeId : PyVal}
    (htopic : NotState v.topic) :
    (StateAggregator.republishState num nodeId).Only (v.Fits r) := by
  refine .bind (StateAggregator.reads_getNodeState.mono fun _ he ↦ fits_reads he) fun st ↦ ?_
  cases st with
  | none => exact True.intro
  | some st => exact Prog.only_publish.mpr fun heq ↦ absurd heq.symm (htopic _)

theorem only_prog (v : View) (r : v.Report) : (v.prog num r).Only (v.Fits r) := by
  cases v with
  | location node =>
      refine .bind (Prog.only_store.mpr (fits_write _ r)) fun _ ↦
        .bind (Prog.only_store.mpr (fits_other rfl)) fun _ ↦ .bind fits_noteRadio fun _ ↦
        .bind (Prog.only_publish.mpr fun _ ↦ rfl) fun _ ↦
        fits_republishState (notState_location node)
  | battery node =>
      refine .bind (Prog.only_store.mpr (fits_write _ r)) fun _ ↦
        .bind (Prog.only_store.mpr (fits_other rfl)) fun _ ↦
        .bind (Prog.only_publish.mpr fun _ ↦ rfl) fun _ ↦
          fits_republishState (notState_battery node)
  | base =>
      exact .bind (Prog.only_store.mpr (fits_write _ r)) fun _ ↦ Prog.only_publish.mpr fun _ ↦ rfl

/-- Writing the row is what the exchange does. -/
def Writes (v : View) : Exchange Eff.Answer → Prop
  | ⟨.store c, _⟩ => c.touches v.table = true
  | _ => False

def Publishes (v : View) : Exchange Eff.Answer → Prop
  | ⟨.publish topic _ _, _⟩ => topic = v.topic
  | _ => False

def Succeeds : Exchange Eff.Answer → Prop
  | ⟨.store c, r⟩ => c.reads = false → r.isOk = true
  | ⟨.publish .., r⟩ => r.isOk = true
  | _ => True

def Makes {α : Type} (x : Prog α) (P : Exchange Eff.Answer → Prop) : Prop :=
  x.wp fun tr _ ↦ (∀ y ∈ tr, Succeeds y) → ∃ y ∈ tr, P y

def Comes {α : Type} (x : Prog α) : Prop :=
  x.wp fun tr o ↦ (∀ y ∈ tr, Succeeds y) → ∃ a, o = .ok a

section Rules

variable {α β : Type} {P : Exchange Eff.Answer → Prop}

theorem Makes.left {x : Prog α} {f : α → Prog β} (hx : Makes x P) : Makes (x >>= f) P := by
  rw [Makes, wp_bind]
  refine wp_mono hx fun tr o hP ↦ ?_
  cases o with
  | error err => exact hP
  | ok a =>
      refine wp_iff.mpr fun tr' o' _ hok ↦ ?_
      obtain ⟨y, hy, hPy⟩ := hP fun y hy ↦ hok y (List.mem_append_left _ hy)
      exact ⟨y, List.mem_append_left _ hy, hPy⟩

theorem Makes.right {x : Prog α} {f : α → Prog β} (hx : Comes x) (hf : ∀ a, Makes (f a) P) :
    Makes (x >>= f) P := by
  rw [Makes, wp_bind]
  refine wp_mono hx fun tr o hcomes ↦ ?_
  cases o with
  | error err =>
      intro hok
      obtain ⟨a, ha⟩ := hcomes hok
      cases ha
  | ok a =>
      refine wp_mono (hf a) fun tr' o' hP hok ↦ ?_
      obtain ⟨y, hy, hPy⟩ := hP fun y hy ↦ hok y (List.mem_append_right _ hy)
      exact ⟨y, List.mem_append_right _ hy, hPy⟩

theorem Makes.store {c : StoreCall} (h : ∀ r, P ⟨.store c, r⟩) : Makes (Prog.store c) P := by
  intro r
  rw [wp_ofOutcome]
  exact fun _ ↦ ⟨_, List.mem_cons_self, h r⟩

theorem Makes.publish {topic : String} {payload : List (String × PyVal)} {retain : Bool}
    (h : ∀ r, P ⟨.publish topic payload retain, r⟩) :
    Makes (Prog.publish topic payload retain) P := by
  rw [Makes, Prog.wp_publish]
  exact fun r _ ↦ ⟨_, List.mem_cons_self, h r⟩

theorem Comes.store {c : StoreCall} (hc : c.reads = false) : Comes (Prog.store c) := by
  intro r
  rw [wp_ofOutcome]
  intro hok
  have hr := hok _ List.mem_cons_self hc
  cases r with
  | ok a => exact ⟨a, rfl⟩
  | error err => cases hr

theorem Comes.noteRadio {nodeId ts : PyVal} {rssi : Option ℤ} {snr : Option PyFloat} :
    Comes (StateAggregator.noteRadio nodeId ts rssi snr) := by
  unfold StateAggregator.noteRadio
  split
  · exact fun _ _ ↦ ⟨(), rfl⟩
  · exact fun _ ↦ ⟨(), rfl⟩

end Rules

theorem writes_prog (v : View) (r : v.Report) : Makes (v.prog num r) v.Writes := by
  cases v with
  | location | battery | base => exact .left (.store fun _ ↦ rfl)

theorem publishes_prog (v : View) (r : v.Report) : Makes (v.prog num r) v.Publishes := by
  cases v with
  | location node =>
      refine .right (.store rfl) fun _ ↦ .right (.store rfl) fun _ ↦ .right .noteRadio fun _ ↦ ?_
      exact .left (.publish fun _ ↦ rfl)
  | battery node =>
      refine .right (.store rfl) fun _ ↦ .right (.store rfl) fun _ ↦ ?_
      exact .left (.publish fun _ ↦ rfl)
  | base => exact .right (.store rfl) fun _ ↦ .publish fun _ ↦ rfl

end View

/-! ## Any interleaving of calls -/

/-- The stage under concurrent calls and nothing else. -/
def Undisturbed (num : Numerals) (ι : Type) : World Stage ι Eff.Answer ℚ Empty
  | s, .task _ _ x, s' => performs num s x s'
  | _, .env _ a, _ => a.elim

section Interleaved

variable {ι : Type}

def writers (v : View) (tr : List (Event ι Eff.Answer ℚ Empty)) : List ι :=
  tr.filterMap fun
    | .task i _ ⟨.store c, _⟩ => if c.touches v.table then some i else none
    | _ => none

def publishers (v : View) (tr : List (Event ι Eff.Answer ℚ Empty)) : List ι :=
  tr.filterMap fun
    | .task i _ ⟨.publish topic _ _, _⟩ => if topic = v.topic then some i else none
    | _ => none

/-- Both copies are what the calls of `tr` have made of those in `s₀`. -/
def View.Follows (num : Numerals) (v : View) (report : ι → v.Report) (s₀ : Stage)
    (tr : List (Event ι Eff.Answer ℚ Empty)) (s : Stage) : Prop :=
  v.stored s.db =
      (writers v tr).getLast?.elim (v.stored s₀.db) (fun w ↦ some (v.kept num (report w))) ∧
    s.last v.topic =
      (publishers v tr).getLast?.elim (s₀.last v.topic)
        (fun p ↦ some (compactJson (v.body (report p))))

variable {num : Numerals} {v : View} {report : ι → v.Report} {s₀ s s' : Stage}
  {tr : List (Event ι Eff.Answer ℚ Empty)} {i : ι} {now : ℚ}

theorem getLast?_append_elim {γ δ : Type} (l l' : List γ) (a : δ) (f : γ → δ) :
    (l ++ l').getLast?.elim a f = l'.getLast?.elim (l.getLast?.elim a f) f := by
  rw [List.getLast?_append]
  cases l'.getLast? <;> rfl

theorem View.Follows.trans {tr' : List (Event ι Eff.Answer ℚ Empty)}
    (h : v.Follows num report s₀ tr s) (h' : v.Follows num report s tr' s') :
    v.Follows num report s₀ (tr ++ tr') s' := by
  obtain ⟨hstored, hlast⟩ := h
  obtain ⟨hstored', hlast'⟩ := h'
  rw [hstored] at hstored'
  rw [hlast] at hlast'
  simp only [writers, publishers] at hstored' hlast'
  constructor
  · simp only [writers, List.filterMap_append]
    rw [getLast?_append_elim]
    exact hstored'
  · simp only [publishers, List.filterMap_append]
    rw [getLast?_append_elim]
    exact hlast'

theorem writers_store {c : StoreCall} {r : (Eff.store c).Answer}
    (h : c.touches v.table = true) : writers v [.task i now ⟨.store c, r⟩] = [i] :=
  List.filterMap_cons_some (if_pos h)

theorem writers_store_other {c : StoreCall} {r : (Eff.store c).Answer}
    (h : ¬ c.touches v.table = true) : writers v [.task i now ⟨.store c, r⟩] = [] :=
  List.filterMap_cons_none (if_neg h)

theorem publishers_publish {topic : String} {payload : List (String × PyVal)} {retain : Bool}
    {r : (Eff.publish topic payload retain).Answer} (h : topic = v.topic) :
    publishers v [.task i now ⟨.publish topic payload retain, r⟩] = [i] :=
  List.filterMap_cons_some (if_pos h)

theorem publishers_publish_other {topic : String} {payload : List (String × PyVal)} {retain : Bool}
    {r : (Eff.publish topic payload retain).Answer} (h : topic ≠ v.topic) :
    publishers v [.task i now ⟨.publish topic payload retain, r⟩] = [] :=
  List.filterMap_cons_none (if_neg h)

/-- What one exchange of a call does to the view. -/
theorem follows_exchange {e : Eff} {r : e.Answer} (hfits : v.Fits (report i) e)
    (hperformed : performs num s ⟨e, r⟩ s') :
    v.Follows num report s [.task i now ⟨e, r⟩] s' := by
  cases e with
  | store c =>
      obtain ⟨htopics, now', hdone⟩ := hperformed
      refine ⟨?_, congrFun htopics _⟩
      by_cases hc : c.touches v.table = true
      · obtain rfl := hfits hc
        rw [writers_store hc]
        obtain ⟨a, rfl, hexec⟩ | ⟨hread, _⟩ := hdone
        · exact View.exec_write hexec
        · rw [View.reads_touches hread] at hc
          cases hc
      · rw [writers_store_other hc]
        obtain ⟨a, _, hexec⟩ | ⟨_, hdb, _⟩ := hdone
        · exact View.stored_same (by simpa using hc) hexec
        · exact congrArg v.stored hdb
  | publish topic payload retain =>
      obtain ⟨_, hdb, hlast⟩ := hperformed
      refine ⟨congrArg v.stored hdb, ?_⟩
      rw [hlast]
      by_cases htopic : topic = v.topic
      · rw [publishers_publish htopic, hfits htopic, htopic]
        exact Function.update_self ..
      · rw [publishers_publish_other htopic]
        exact Function.update_of_ne (Ne.symm htopic) ..
  | underTtl ttlS e => exact hfits.elim
  | afterTtl e => exact hfits.elim
  | _ =>
      cases hperformed
      exact ⟨rfl, rfl⟩

variable [DecidableEq ι] {p : ι → Prog Unit}

/-- In any interleaving, each copy is that of the last call to write it. -/
theorem follows_run (h : Run (Undisturbed num ι) (fun i ↦ v.prog num (report i)) s₀ tr p s) :
    v.Follows num report s₀ tr s := by
  induction h with
  | start => exact ⟨rfl, rfl⟩
  | task i now e next r past waiting answered ih =>
      have hsteps := past.steps i
      rw [waiting] at hsteps
      have hfits := ((View.only_prog v (report i)).steps hsteps).2.1
      exact ih.trans (follows_exchange hfits answered)
  | env now a past acted ih => exact a.elim

theorem performs_succeeds {x : Exchange Eff.Answer} (h : performs num s x s') :
    View.Succeeds x := by
  obtain ⟨e, r⟩ := x
  cases e with
  | store c =>
      obtain ⟨_, _, ⟨a, hr, _⟩ | ⟨hread, _⟩⟩ := h
      · cases hr
        exact fun _ ↦ rfl
      · intro hc
        rw [hread] at hc
        cases hc
  | publish topic payload retain =>
      have hr : r = .ok () := h.1
      subst hr
      exact rfl
  | _ => exact trivial

theorem mem_of_finished (h : Run (Undisturbed num ι) (fun i ↦ v.prog num (report i)) s₀ tr p s)
    {o : Except PyExc Unit} (hdone : p i = ofOutcome o) :
    i ∈ writers v tr ∧ i ∈ publishers v tr := by
  have hsteps := h.steps i
  rw [hdone] at hsteps
  have hok : ∀ y ∈ exchangesOf i tr, View.Succeeds y := by
    intro y hy
    obtain ⟨now, hmem⟩ := mem_exchangesOf.mp hy
    obtain ⟨m, m', hacted⟩ := h.evolves.acted hmem
    exact performs_succeeds hacted
  obtain ⟨x, hx, hwrites⟩ := wp_iff.mp (View.writes_prog v (report i)) _ _ hsteps hok
  obtain ⟨y, hy, hpublishes⟩ := wp_iff.mp (View.publishes_prog v (report i)) _ _ hsteps hok
  obtain ⟨now, hx⟩ := mem_exchangesOf.mp hx
  obtain ⟨now', hy⟩ := mem_exchangesOf.mp hy
  refine ⟨List.mem_filterMap.mpr ⟨_, hx, ?_⟩, List.mem_filterMap.mpr ⟨_, hy, ?_⟩⟩
  · obtain ⟨e, r⟩ := x
    cases e with
    | store c =>
        have hc : c.touches v.table = true := hwrites
        simp [hc]
    | _ => exact hwrites.elim
  · obtain ⟨e, r⟩ := y
    cases e with
    | publish topic payload retain =>
        have htopic : topic = v.topic := hpublishes
        simp [htopic]
    | _ => exact hpublishes.elim

end Interleaved

end MeshcoreRpc
