import MeshcoreRpc.Transport.Wire
import MeshcoreRpc.Tak.Silence

/-!
# The aggregator and the bridge with texts between them

The broker carries bytes: `_compact_json` writes them and the bridge decodes and
parses them.  A run with bytes on the wire is a run with values on the wire.
-/

namespace MeshcoreRpc.Tak

open Tables Coroutine Interleaving Transport

section Texts

variable (ft : FloatText) (limit : ℕ)

/-- `json.dumps(d, separators=(",", ":")).encode("utf-8")` -/
def payloadBytes (payload : List (String × PyVal)) : List UInt8 :=
  encode (dumps ft .compact (.dict payload))

/-- A message as the broker has it. -/
structure Mail where
  topic : String
  bytes : List UInt8

/-- `json.loads(msg.payload.decode("utf-8"))` -/
def Mail.receive (m : Mail) : MqttMessage :=
  ⟨m.topic, decodeStrict m.bytes >>= loads ft limit⟩

theorem receive_payloadBytes (topic : String) {payload : List (String × PyVal)}
    (h : Dumpable ft limit (.dict payload)) :
    Mail.receive ft limit ⟨topic, payloadBytes ft payload⟩ = ⟨topic, .ok (.dict payload)⟩ := by
  have hread : decodeStrict (payloadBytes ft payload) >>= loads ft limit = .ok (.dict payload) := by
    rw [payloadBytes, decodeStrict_encode]
    exact loads_dumps h
  rw [Mail.receive, hread]

abbrev CarriedMail := {m : Mail // Subscribed m.topic}

def CarriedMail.stimulus (clock : Clock) (m : CarriedMail) : Stimulus :=
  .message clock (m.1.receive ft limit) m.2

/-- The database, what the broker retains, the messages on their way, and the bridge. -/
structure TextNet where
  db : Db
  last : String → Option (List UInt8) := fun _ ↦ none
  queue : List CarriedMail := []
  session : Session := {}

inductive TextCarry where
  | base (payload : List (String × PyVal))
  | deliver (utc : DateTime) (m : CarriedMail)
  | beat (utc : DateTime)

namespace TextNet

/-- The broker takes a message. -/
structure Posts (s s' : TextNet) (m : Mail) (retain : Bool) : Prop where
  last : s'.last = if retain then Function.update s.last m.topic (some m.bytes) else s.last
  queue : ∀ h : Subscribed m.topic, s'.queue = s.queue ++ [⟨m, h⟩]
  ignored : ¬ Subscribed m.topic → s'.queue = s.queue

/-- What the broker gets from a task. -/
def Takes (s s' : TextNet) : Option (String × List (String × PyVal) × Bool) → Prop
  | none => s'.last = s.last ∧ s'.queue = s.queue
  | some (topic, payload, retain) => s.Posts s' ⟨topic, payloadBytes ft payload⟩ retain

end TextNet

variable (num : Numerals) (cfg : TakBridgeConfig) {ι : Type} [DecidableEq ι]

omit [DecidableEq ι] in
/-- The tasks of the aggregator and the bridge at its broker. -/
def TextLinked : World TextNet ι Eff.Answer ℚ TextCarry
  | s, .task _ now x, s' =>
    x.1.Serves num now x.2 s.db s'.db ∧ s'.session = s.session ∧
      ∃ sent, x.1.Sends x.2 sent ∧ s.Takes ft s' sent
  | s, .env _ (.base payload), s' =>
    s'.db = s.db ∧ s'.session = s.session ∧
      s.Posts s' ⟨Topics.baseLocation, payloadBytes ft payload⟩ true
  | s, .env now (.deliver utc m), s' =>
    ∃ rest, s.queue = m :: rest ∧
      s' = { s with
        queue := rest, session := s.session.step cfg (m.stimulus ft limit ⟨now, utc⟩) }
  | s, .env now (.beat utc), s' =>
    s' = { s with session := s.session.step cfg (.heartbeat ⟨now, utc⟩) }

/-- What an event publishes is what JSON can carry. -/
def Publishable : Event ι Eff.Answer ℚ TextCarry → Prop
  | .task _ _ x => ∀ topic payload retain, x.1.Sends x.2 (some (topic, payload, retain)) →
      Dumpable ft limit (.dict payload)
  | .env _ (.base payload) => Dumpable ft limit (.dict payload)
  | .env _ _ => True

/-- The broker of the one has the texts of what the broker of the other has. -/
structure Spells (s : TextNet) (v : Net ι) : Prop where
  db : s.db = v.db
  session : s.session = v.session
  last : ∀ topic, s.last topic = (v.last topic).map fun m ↦ payloadBytes ft m.payload
  queue : s.queue.map Subtype.val = v.queue.map fun m ↦ ⟨m.1.topic, payloadBytes ft m.1.payload⟩
  dumpable : ∀ m ∈ v.queue, Dumpable ft limit (.dict m.1.payload)
  kept : ∀ topic m, v.last topic = some m → Dumpable ft limit (.dict m.payload)

variable {ft limit num cfg} {s t : TextNet} {v : Net ι}

omit [DecidableEq ι] in
/-- Both brokers take the message. -/
theorem Spells.posts (h : Spells ft limit s v) {topic : String} {payload : List (String × PyVal)}
    {g : Glance} {retain : Bool} {w : Net ι} (hdump : Dumpable ft limit (.dict payload))
    (hdb : t.db = w.db) (hsession : t.session = w.session)
    (hposts : s.Posts t ⟨topic, payloadBytes ft payload⟩ retain)
    (hposts' : v.Posts w ⟨topic, payload, g⟩ retain) : Spells ft limit t w := by
  refine ⟨hdb, hsession, fun topic' ↦ ?_, ?_, ?_, fun topic' m hm ↦ ?_⟩
  · rw [hposts.last, hposts'.last]
    cases retain with
    | false => exact h.last topic'
    | true =>
        by_cases htopic : topic' = topic
        · simp [htopic]
        · simpa [Function.update_of_ne htopic] using h.last topic'
  · by_cases hsub : Subscribed topic
    · rw [hposts.queue hsub, hposts'.queue hsub, List.map_append, List.map_append, h.queue]
      rfl
    · rw [hposts.ignored hsub, hposts'.ignored hsub, h.queue]
  · intro m hm
    by_cases hsub : Subscribed topic
    · rw [hposts'.queue hsub, List.mem_append, List.mem_singleton] at hm
      rcases hm with hm | rfl
      · exact h.dumpable m hm
      · exact hdump
    · rw [hposts'.ignored hsub] at hm
      exact h.dumpable m hm
  · rw [hposts'.last] at hm
    cases retain with
    | false => exact h.kept topic' m hm
    | true =>
        by_cases htopic : topic' = topic
        · obtain rfl : (⟨topic, payload, g⟩ : Published) = m := by simpa [htopic] using hm
          exact hdump
        · exact h.kept topic' m (by simpa [Function.update_of_ne htopic] using hm)

omit [DecidableEq ι] in
theorem Spells.takes (h : Spells ft limit s v)
    {sent : Option (String × List (String × PyVal) × Bool)} {g : Glance} {w : Net ι}
    (hdump : ∀ topic payload retain, sent = some (topic, payload, retain) →
      Dumpable ft limit (.dict payload))
    (hdb : t.db = w.db) (hsession : t.session = w.session) (htakes : s.Takes ft t sent)
    (htakes' : v.Takes w g sent) : Spells ft limit t w := by
  cases sent with
  | none =>
      obtain ⟨hlast, hqueue⟩ := htakes
      obtain ⟨hlast', hqueue'⟩ := htakes'
      refine ⟨hdb, hsession, fun topic ↦ ?_, ?_, ?_, ?_⟩
      · rw [hlast, hlast', h.last]
      · rw [hqueue, hqueue', h.queue]
      · rw [hqueue']
        exact h.dumpable
      · rw [hlast']
        exact h.kept
  | some sent =>
      obtain ⟨topic, payload, retain⟩ := sent
      exact h.posts (hdump topic payload retain rfl) hdb hsession htakes htakes'

omit [DecidableEq ι] in
/-- The bridge reads from the text what was published. -/
theorem Spells.deliver (h : Spells ft limit s v) {m : CarriedMail} {rest : List CarriedMail}
    (hqueue : s.queue = m :: rest) :
    ∃ m' rest', v.queue = m' :: rest' ∧
      (∀ clock, m.stimulus ft limit clock = m'.stimulus clock) ∧
      rest.map Subtype.val = rest'.map fun m ↦ ⟨m.1.topic, payloadBytes ft m.1.payload⟩ := by
  have hmap := h.queue
  rw [hqueue, List.map_cons] at hmap
  cases hv : v.queue with
  | nil =>
      rw [hv] at hmap
      cases hmap
  | cons m' rest' =>
      rw [hv, List.map_cons] at hmap
      obtain ⟨hm, hrest⟩ := List.cons.inj hmap
      refine ⟨m', rest', rfl, fun clock ↦ ?_, hrest⟩
      have hdump := h.dumpable m' (by simp [hv])
      have hread := receive_payloadBytes ft limit m'.1.topic hdump
      obtain ⟨m, hsub⟩ := m
      obtain rfl : m = ⟨m'.1.topic, payloadBytes ft m'.1.payload⟩ := hm
      simp only [CarriedMail.stimulus, Carried.stimulus, hread]

/-- Every step with texts is a step with values. -/
theorem Spells.step (h : Spells ft limit s v) {ev : Event ι Eff.Answer ℚ TextCarry}
    (hgood : Publishable ft limit ev) (hW : TextLinked ft limit num cfg s ev t) :
    ∃ ev' w, Linked num cfg v ev' w ∧ Spells ft limit t w ∧ ev'.visible = ev.visible := by
  cases ev with
  | task i now x =>
      obtain ⟨hserves, hsession, sent, hsends, htakes⟩ := hW
      have hput := Net.put_takes (v.glance i) v sent
      refine ⟨.task i now x,
        { v.put (v.glance i) sent with
          db := t.db, glance := Function.update v.glance i ((v.glance i).after x.1 x.2) },
        ⟨h.db ▸ hserves, rfl, Net.put_rest _ _ _, sent, hsends, hput.congr rfl rfl⟩, ?_, rfl⟩
      refine h.takes (fun topic payload retain hsent ↦ hgood topic payload retain (hsent ▸ hsends))
        rfl ?_ htakes (hput.congr rfl rfl)
      rw [hsession, h.session]
      exact (Net.put_rest _ _ _).symm
  | env now a =>
      cases a with
      | base payload =>
          obtain ⟨hdb, hsession, hposts⟩ := hW
          have hput := Net.put_takes {} v (some (Topics.baseLocation, payload, true))
          refine ⟨.env now (.base payload), v.put {} (some (Topics.baseLocation, payload, true)),
            ⟨rfl, rfl, rfl, hput⟩, ?_, rfl⟩
          exact h.posts hgood (hdb.trans h.db) (hsession.trans h.session) hposts hput
      | deliver utc m =>
          obtain ⟨rest, hqueue, rfl⟩ := hW
          obtain ⟨m', rest', hqueue', hstimulus, hrest⟩ := h.deliver hqueue
          refine ⟨.env now (.deliver utc m'), _, ⟨rest', hqueue', rfl⟩, ?_, rfl⟩
          refine ⟨h.db, ?_, h.last, hrest, fun n hn ↦ h.dumpable n ?_, h.kept⟩
          · rw [← h.session, hstimulus]
          · rw [hqueue']
            exact List.mem_cons_of_mem _ hn
      | beat utc =>
          obtain rfl := hW
          refine ⟨.env now (.beat utc), _, rfl, ⟨h.db, ?_, h.last, h.queue, h.dumpable, h.kept⟩,
            rfl⟩
          rw [← h.session]

/-- A run with bytes on the wire is, task for task and instant for instant, a run with values
on the wire: the same database, the same bridge and the same events sent, and every retained
text reads as the value that was published. -/
theorem textLinked_refines (ft : FloatText) (limit : ℕ) (num : Numerals) (cfg : TakBridgeConfig)
    (p₀ : ι → Prog Unit) (db : Db) {tr : List (Event ι Eff.Answer ℚ TextCarry)}
    {p : ι → Prog Unit} {s : TextNet}
    (h : Run (TextLinked ft limit num cfg) p₀ { db := db } tr p s)
    (hgood : ∀ ev ∈ tr, Publishable ft limit ev) :
    ∃ tr' v, Run (Linked num cfg) p₀ { db := db } tr' p v ∧
      tr'.map Event.visible = tr.map Event.visible ∧ s.db = v.db ∧ s.session = v.session ∧
      ∀ topic, (s.last topic).map (fun bytes ↦ (Mail.receive ft limit ⟨topic, bytes⟩).payload) =
        (v.last topic).map fun m ↦ .ok (.dict m.payload) := by
  have hstart : Spells ft limit ({ db := db } : TextNet) ({ db := db } : Net ι) :=
    ⟨rfl, rfl, fun _ ↦ rfl, rfl, by simp, by simp⟩
  obtain ⟨tr', v, hrun, hspells, hsame⟩ := h.simulates (Spells ft limit) (Publishable ft limit)
    (fun _ _ _ _ hrel hev hW ↦ hrel.step hev hW) hstart hgood
  refine ⟨tr', v, hrun, hsame, hspells.db, hspells.session, fun topic ↦ ?_⟩
  rw [hspells.last topic]
  cases hlast : v.last topic with
  | none => rfl
  | some m =>
      have hread := receive_payloadBytes ft limit topic (hspells.kept topic m hlast)
      simp [hread]

/-- A base at rest, as `_init_static_base` publishes it. -/
def restingBase : List (String × PyVal) :=
  [("lat", .float (.fin 48)), ("lon", .float (.fin 11)), ("ts", .int 1700000000),
    ("source", .str "static")]

theorem dumpable_restingBase : Dumpable wholeFloats 1 (.dict restingBase) := by
  refine ⟨by decide, ?_⟩
  intro kv hkv
  simp only [restingBase, List.mem_cons, List.not_mem_nil, or_false] at hkv
  rcases hkv with rfl | rfl | rfl | rfl
  · exact wholeFloats_exact 48
  · exact wholeFloats_exact 11
  · show (Nat.toDigits 10 1700000000).length ≤ 4300
    decide
  · trivial

def baseMail : CarriedMail := ⟨⟨Topics.baseLocation, payloadBytes wholeFloats restingBase⟩, .base⟩

/-- The broker has taken the position of the base. -/
def basePosted : TextNet where
  db := Db.empty
  last := Function.update (fun _ ↦ none) Topics.baseLocation (some baseMail.1.bytes)
  queue := [baseMail]

/-- The bridge has got it. -/
def baseDelivered : TextNet :=
  { basePosted with
    queue := []
    session := Session.step {} {} (baseMail.stimulus wholeFloats 1 ⟨1, Clock.epoch.utc⟩) }

def noTask : Unit → Prog Unit := fun _ ↦ .ret ()

/-- The base publishes its position and the bridge gets it, in texts and in values. -/
theorem textLinked_base : ∃ tr' v,
    Run (Linked .plain {}) noTask { db := Db.empty } tr' noTask v ∧
      tr'.map Event.visible = [(0, none), (1, none)] ∧ v.session = baseDelivered.session := by
  have hposted : Run (TextLinked wholeFloats 1 .plain {}) noTask { db := Db.empty }
      ([] ++ [.env 0 (.base restingBase)]) noTask basePosted :=
    .env 0 _ .start ⟨rfl, rfl, rfl, fun _ ↦ rfl, fun h ↦ absurd .base h⟩
  have hrun : Run (TextLinked wholeFloats 1 .plain {}) noTask { db := Db.empty }
      (([] ++ [.env 0 (.base restingBase)]) ++ [.env 1 (.deliver Clock.epoch.utc baseMail)]) noTask
      baseDelivered := .env 1 _ hposted ⟨[], rfl, rfl⟩
  obtain ⟨tr', v, hlinked, hsame, -, hsession, -⟩ :=
    textLinked_refines wholeFloats 1 .plain {} _ _ hrun fun ev hev ↦ by
      simp only [List.nil_append, List.singleton_append, List.mem_cons, List.not_mem_nil,
        or_false] at hev
      rcases hev with rfl | rfl
      · exact dumpable_restingBase
      · trivial
  exact ⟨tr', v, hlinked, hsame, hsession.symm⟩

end Texts

end MeshcoreRpc.Tak
