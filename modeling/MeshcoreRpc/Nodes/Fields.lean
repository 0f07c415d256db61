import MeshcoreRpc.Nodes.Coherence
import MeshcoreRpc.Nodes.Stamps

/-!
# Fields with a fallback

`data.get(k) or fallback` gives way to the fallback where the field is null or
absent, and where it is false as a condition: a zero is.  What is used is made a
float on its way to a time or a coordinate, which an integer beyond 53 bits need not
survive.
-/

namespace MeshcoreRpc

open Tables Coroutine Coro

namespace PyVal

/-- A field is used as `own` says, and as `alt` says only where it is null or absent. -/
structure UsedAs (own alt : PyVal → Prop) (v w : PyVal) : Prop where
  present : v.isNone = false → own w
  absent : v.isNone = true → alt w

def NullOrKept (v : PyVal) : Prop := v.isNone = true ∨ v.truthy = true

/-- An `int` is one that a float represents. -/
def Representable (v : PyVal) : Prop := ∀ n, v = .int n → Binary64.round n = n

def IsFloatOf (num : Numerals) (v w : PyVal) : Prop := ∃ f, v.toFloat num = .ok f ∧ w = .float f

variable {num : Numerals} {v w : PyVal}

theorem Alike.refl (v : PyVal) : v.Alike v := .inl rfl

theorem Alike.number {q : ℚ} (h : v.Alike w) (hv : v.number? = some q) : w.number? = some q := by
  obtain rfl | ⟨q', hq', hw⟩ := h
  · exact hv
  · rw [← hv, hq', hw]

theorem truthy_of_isNone (h : v.isNone = true) : v.truthy = false := by
  cases v with
  | none => rfl
  | _ => cases h

theorem falsy_of_not (h : ¬ v.NullOrKept) : v.truthy = false := by
  cases htruthy : v.truthy with
  | false => rfl
  | true => exact absurd (.inr htruthy) h

theorem number_of_falsy {q : ℚ} (hv : v.truthy = false) (hq : v.number? = some q) : q = 0 := by
  cases v with
  | bool b =>
      cases b with
      | false => simpa [number?, eq_comm] using hq
      | true => cases hv
  | int n =>
      have hn : n = 0 := by simpa [truthy] using hv
      simpa [number?, hn, eq_comm] using hq
  | float f =>
      cases f with
      | fin q' =>
          have hq' : q' = 0 := by simpa [truthy] using hv
          simpa [number?, hq', eq_comm] using hq
      | _ => cases hq
  | _ => cases hq

theorem not_alike_of_falsy {q : ℚ} (hv : v.truthy = false) (hq : q ≠ 0) :
    ¬ v.Alike (.float (.fin q)) := by
  rintro (rfl | ⟨q', hv', hq'⟩)
  · simp [truthy, hq] at hv
  · cases hq'
    exact hq (number_of_falsy hv hv')

/-- `v or w` is the field as it should be just when `or` keeps it, it is null, or
the two are one value. -/
theorem usedAs_or_iff : v.UsedAs v.Alike (· = w) (v.or w) ↔ v.NullOrKept ∨ v.Alike w := by
  by_cases htruthy : v.truthy = true
  · rw [or, if_pos htruthy]
    refine ⟨fun _ ↦ .inl (.inr htruthy), fun _ ↦ ⟨fun _ ↦ .refl v, fun hnone ↦ ?_⟩⟩
    rw [truthy_of_isNone hnone] at htruthy
    cases htruthy
  · rw [or, if_neg htruthy]
    constructor
    · intro h
      cases hnone : v.isNone with
      | true => exact .inl (.inl hnone)
      | false => exact .inr (h.present hnone)
    · rintro ((hnone | hkept) | halike)
      · refine ⟨fun hsome ↦ ?_, fun _ ↦ rfl⟩
        rw [hnone] at hsome
        cases hsome
      · exact absurd hkept htruthy
      · exact ⟨fun _ ↦ halike, fun _ ↦ rfl⟩

theorem representable_int {n : ℤ} : (PyVal.int n).Representable ↔ Binary64.round n = n :=
  ⟨fun h ↦ h n rfl, fun h _ hn ↦ PyVal.int.inj hn ▸ h⟩

theorem representable_of_ne (h : ∀ n, v ≠ .int n) : v.Representable := fun n hn ↦ absurd hn (h n)

theorem representable_of_falsy (h : v.truthy = false) : v.Representable := by
  rintro n rfl
  have hn : n = 0 := by simpa [truthy] using h
  simp [hn]

theorem toFloat_of_finite {q : ℚ} (hv : v.floatable = true) (hq : v.number? = some q) :
    ∃ t, v.toFloat num = .ok (.fin t) ∧ (t = q ↔ v.Representable) := by
  cases v with
  | bool b =>
      cases hq
      exact ⟨_, rfl, iff_of_true rfl (representable_of_ne (by simp))⟩
  | int n =>
      have hlimit : |n| < floatIntLimit := by simpa [PyVal.floatable] using hv
      have hfloat : (PyVal.int n).toFloat num = floatOfInt n := rfl
      cases hq
      refine ⟨Binary64.round n, ?_, representable_int.symm⟩
      rw [hfloat, floatOfInt, if_neg (not_le.mpr hlimit)]
  | float f =>
      cases f with
      | fin q' =>
          cases hq
          exact ⟨_, rfl, iff_of_true rfl (representable_of_ne (by simp))⟩
      | _ => cases hq
  | _ => cases hq

theorem floatable_of_toFloat {f : PyFloat} (h : v.toFloat num = .ok f) : v.floatable = true := by
  cases v with
  | int n =>
      have h : floatOfInt n = .ok f := h
      rw [floatOfInt] at h
      split at h
      · cases h
      · next hlimit => simp [floatable, not_le.mp hlimit]
  | _ => rfl

theorem toFloat_number {f : PyFloat} {q : ℚ} (h : v.toFloat num = .ok f)
    (hv : v.number? = some q) : ∃ t, f = .fin t ∧ (t = q ↔ v.Representable) := by
  obtain ⟨t, ht, hkept⟩ := @toFloat_of_finite num _ _ (floatable_of_toFloat h) hv
  rw [h] at ht
  exact ⟨t, Except.ok.inj ht, hkept⟩

theorem IsFloatOf.number {q : ℚ} (h : v.IsFloatOf num w) (hv : v.number? = some q) :
    ∃ t, w = .float (.fin t) ∧ (t = q ↔ v.Representable) := by
  obtain ⟨f, hf, rfl⟩ := h
  obtain ⟨t, rfl, hkept⟩ := toFloat_number hf hv
  exact ⟨t, rfl, hkept⟩

end PyVal

/-! ## The columns keep numbers -/

section Columns

variable {num : Numerals} {v : PyVal} {q : ℚ} {x : SqlValue}

theorem SqlValue.ofNumber_number (q : ℚ) : (SqlValue.ofNumber q).toPython.number? = some q := by
  unfold SqlValue.ofNumber
  split
  · next h => exact congrArg some (Rat.coe_int_num_of_den_eq_one h.1)
  · rfl

theorem bindReal_number (hv : v.number? = some q) (hx : bindReal num v = .ok x) :
    x.toPython.number? = some q ↔ v.Representable := by
  cases v with
  | bool b =>
      cases hx
      cases hv
      refine iff_of_true ?_ (PyVal.representable_of_ne (by simp))
      cases b <;> simp [SqlValue.toReal, SqlValue.toPython, PyVal.number?]
  | int n =>
      have hx : (SqlValue.bind (.int n)).map (SqlValue.toReal num) = .ok x := hx
      rw [SqlValue.bind] at hx
      split at hx
      · cases hx
        cases hv
        rw [PyVal.representable_int]
        exact Option.some_inj
      · cases hx
  | float f =>
      cases f with
      | fin q' =>
          cases hx
          cases hv
          exact iff_of_true rfl (PyVal.representable_of_ne (by simp))
      | _ => cases hv
  | _ => cases hv

theorem bindInteger_number (hv : v.number? = some q) (hx : bindInteger num v = .ok x) :
    x.toPython.number? = some q := by
  cases v with
  | bool b =>
      cases hx
      cases hv
      cases b <;> rfl
  | int n =>
      have hx : (SqlValue.bind (.int n)).map (SqlValue.toInteger num) = .ok x := hx
      rw [SqlValue.bind] at hx
      split at hx
      · cases hx
        cases hv
        rfl
      · cases hx
  | float f =>
      cases f with
      | fin q' =>
          cases hx
          cases hv
          exact SqlValue.ofNumber_number q
      | _ => cases hv
  | _ => cases hv

variable {now : ℚ} {db db' : Db} {nodeId : PyVal} {s : String}

theorem StoreCall.exec_upsertNodeBattery {ts pct voltage source : PyVal} {a : Unit}
    (h : (StoreCall.upsertNodeBattery nodeId ts pct voltage source).exec num now db = .ok (db', a))
    (hnode : nodeKey num nodeId = .ok (some s)) :
    ∃ row, db'.nodeBattery.find? s = some row ∧ bindInteger num pct = .ok row.pct ∧
      bindReal num voltage = .ok row.voltage ∧ bindReal num ts = .ok row.ts := by
  obtain ⟨n, hn⟩ := StoreCall.atomically_execute h
  obtain ⟨key, hkey, hn⟩ := except_bind_ok hn
  obtain ⟨pct', hpct, hn⟩ := except_bind_ok hn
  obtain ⟨voltage', hvoltage, hn⟩ := except_bind_ok hn
  obtain ⟨ts', hts, hn⟩ := except_bind_ok hn
  obtain ⟨source', _, hn⟩ := except_bind_ok hn
  rw [hnode] at hkey
  cases hkey
  cases hn
  exact ⟨_, View.find?_upsertUnder fun _ ↦ rfl, hpct, hvoltage, View.notNull_bind hts⟩

theorem StoreCall.upsertNodeBattery_exec {ts pct voltage : PyVal} {source : String}
    {p v t : SqlValue} (hnode : nodeKey num nodeId = .ok (some s))
    (hpct : bindInteger num pct = .ok p) (hvoltage : bindReal num voltage = .ok v)
    (hts : bindReal num ts = .ok t) (hnull : t ≠ .null) :
    ∃ db', (StoreCall.upsertNodeBattery nodeId ts pct voltage (.str source)).exec num now db =
      .ok (db', ()) := by
  have hsource : bindText num (.str source) = .ok (.text source) := rfl
  have hvalue : notNull t = .ok t := if_neg hnull
  obtain ⟨db', happly⟩ : ∃ db',
      Stmt.apply num (.upsertBattery nodeId ts pct voltage (.str source)) db = .ok (db', 1) := by
    rw [Stmt.apply, hnode, hpct, hvoltage, hts, hsource]
    change ∃ db', (notNull t >>= _) = _
    rw [hvalue]
    exact ⟨_, rfl⟩
  exact ⟨db', StoreCall.atomically_of_apply happly⟩

theorem StoreCall.exec_upsertNodeLocation {fix : LocationFix} {source : Option String}
    {rssi : Option ℤ} {snr : Option PyFloat} {a : Unit}
    (h : (StoreCall.upsertNodeLocation nodeId fix source rssi snr).exec num now db = .ok (db', a))
    (hnode : nodeKey num nodeId = .ok (some s)) :
    ∃ row, db'.nodeLocations.find? s = some row ∧ bindReal num (.float fix.ts) = .ok row.ts := by
  obtain ⟨n, hn⟩ := StoreCall.atomically_execute h
  obtain ⟨key, hkey, hn⟩ := except_bind_ok hn
  iterate 7 obtain ⟨_, _, hn⟩ := except_bind_ok hn
  obtain ⟨ts', hts, hn⟩ := except_bind_ok hn
  iterate 3 obtain ⟨_, _, hn⟩ := except_bind_ok hn
  rw [hnode] at hkey
  cases hkey
  cases hn
  exact ⟨_, View.find?_upsertUnder fun _ ↦ rfl, View.notNull_bind hts⟩

end Columns

/-! ## What a field is used for -/

/-- The time a write records. -/
def Eff.time? : Eff → Option PyVal
  | .store (.markNodeSeen _ ts) => some ts
  | .store (.upsertNodeLocation _ fix ..) => some (.float fix.ts)
  | .store (.upsertNodeBattery _ ts ..) => some ts
  | .underTtl _ e => e.time?
  | .afterTtl e => e.time?
  | _ => none

theorem Eff.Reads.time {e : Eff} (he : e.Reads) : e.time? = none := by
  cases e with
  | store c =>
      cases c with
      | countByFinalState | countPending | getLastSeen | getNodeLocation | getNodeBattery
      | getBaseState => rfl
      | _ => cases he
  | time | getGatewaySnapshot | getRadio => rfl
  | _ => exact he.elim

/-- A reading of the clock in the trace. -/
def ReadIn (tr : Trace) (w : PyVal) : Prop := ∃ t : ℚ, ⟨.time, t⟩ ∈ tr ∧ w = .float (.fin t)

/-- The writes record nothing but this time. -/
def Eff.TimedBy (R : PyVal → Prop) (e : Eff) : Prop := ∀ w, e.time? = some w → R w

section OrTime

variable {num : Numerals} {α : Type} {v : PyVal} {f : PyVal → Prog α} {tr : Trace} {y : Prog α}

theorem Eff.TimedBy.free {R : PyVal → Prop} {e : Eff} (h : e.time? = none) : e.TimedBy R := by
  intro w hw
  rw [h] at hw
  cases hw

theorem Eff.TimedBy.of_eq {R : PyVal → Prop} {e : Eff} {w : PyVal} (h : e.time? = some w)
    (hw : R w) : e.TimedBy R := by
  intro w' hw'
  rw [h] at hw'
  cases hw'
  exact hw

theorem Prog.store_steps (c : StoreCall) (g : c.Answer → Prog α) (r : Except PyExc c.Answer) :
    ∃ y, Steps (Prog.store c >>= g) [⟨.store c, r⟩] y := by
  refine ⟨(Coro.ofOutcome r : Prog c.Answer) >>= g, ?_⟩
  exact Steps.answer (R := Eff.Answer) (.store c) (fun r ↦ (Coro.ofOutcome r : Prog c.Answer) >>= g)
    r (.refl _)

theorem steps_orTime (h : Steps (orTime v >>= f) tr y) :
    (v.truthy = true ∧ Steps (f v) tr y) ∨ v.truthy = false ∧
      (tr = [] ∨ ∃ (t : ℚ) (rest : Trace), tr = ⟨.time, t⟩ :: rest ∧
        Steps (f (.float (.fin t))) rest y) := by
  unfold orTime at h
  by_cases hv : v.truthy = true
  · rw [if_pos hv] at h
    exact .inl ⟨hv, h⟩
  · rw [if_neg hv] at h
    refine .inr ⟨Bool.not_eq_true _ ▸ hv, ?_⟩
    cases tr with
    | nil => exact .inl rfl
    | cons x rest =>
        obtain ⟨t, rfl, hrest⟩ := Steps.await_cons_iff.mp h
        exact .inr ⟨t, rest, rfl, hrest⟩

theorem orTime_steps_of_truthy (hv : v.truthy = true) (h : Steps (f v) tr y) :
    Steps (orTime v >>= f) tr y := by
  unfold orTime
  rw [if_pos hv]
  exact h

theorem orTime_steps_of_falsy (hv : v.truthy = false) (t : ℚ)
    (h : Steps (f (.float (.fin t))) tr y) : Steps (orTime v >>= f) (⟨.time, t⟩ :: tr) y := by
  unfold orTime
  rw [if_neg (by simp [hv])]
  exact .answer .time (fun t ↦ f (.float (.fin t))) t h

/-- Where the writes record what `R` makes of the time, a field that is null or kept is
used as it should be. -/
theorem usedAs_orTime {R : PyVal → PyVal → Prop} (hf : ∀ ts, (f ts).Only (Eff.TimedBy (R ts)))
    (hR : ∀ t w, R (.float (.fin t)) w → w = .float (.fin t)) (hv : v.NullOrKept)
    (h : Steps (orTime v >>= f) tr y) :
    ∀ x ∈ tr, x.1.TimedBy (v.UsedAs (R v) (ReadIn tr)) := by
  obtain ⟨htruthy, hsteps⟩ | ⟨hfalsy, rfl | ⟨t, rest, rfl, hsteps⟩⟩ := steps_orTime h
  · have hsome : ¬ v.isNone = true := fun hnone ↦ by
      rw [PyVal.truthy_of_isNone hnone] at htruthy
      cases htruthy
    intro x hx w hw
    exact ⟨fun _ ↦ ((hf v).steps hsteps).1 x hx w hw, fun hnone ↦ absurd hnone hsome⟩
  · exact fun x hx ↦ absurd hx (List.not_mem_nil)
  · have hnone : v.isNone = true := hv.resolve_right (by simp [hfalsy])
    intro x hx w hw
    obtain rfl | hx := List.mem_cons.mp hx
    · cases hw
    · have hclock := hR t w (((hf _).steps hsteps).1 x hx w hw)
      refine ⟨fun hsome ↦ ?_, fun _ ↦ ⟨t, List.mem_cons_self, hclock⟩⟩
      rw [hnone] at hsome
      cases hsome

/-- A field used as it should be in every course is null or kept, when any time
reaches a write and some reading of the clock is not the field's own. -/
theorem nullOrKept_of_used {own : PyVal → Prop}
    (hreach : ∀ t, ∃ tr y x, Steps (f (.float (.fin t))) tr y ∧ x ∈ tr ∧
      x.1.time? = some (.float (.fin t)))
    (hown : v.truthy = false → ∃ t, ¬ own (.float (.fin t)))
    (h : ∀ tr y, Steps (orTime v >>= f) tr y →
      ∀ x ∈ tr, x.1.TimedBy (v.UsedAs own (ReadIn tr))) : v.NullOrKept := by
  by_contra hnot
  have hfalsy := PyVal.falsy_of_not hnot
  have hsome : v.isNone = false := by
    cases hnone : v.isNone with
    | false => rfl
    | true => exact absurd (.inl hnone) hnot
  obtain ⟨t, ht⟩ := hown hfalsy
  obtain ⟨tr, y, x, hsteps, hx, htime⟩ := hreach t
  have hused := h _ y (orTime_steps_of_falsy hfalsy t hsteps) x (List.mem_cons_of_mem _ hx)
  exact ht ((hused _ htime).present hsome)

end OrTime

/-! ## The events -/

namespace Transport

/-- The percentage and the voltage a write records. -/
def battery? : Eff → Option (PyVal × PyVal)
  | .store (.upsertNodeBattery _ _ pct voltage _) => some (pct, voltage)
  | _ => none

/-- The fields of a battery event in all that came of it. -/
structure BatteryTaken (num : Numerals) (kvs : List (String × PyVal)) (tr : Trace) : Prop where
  ts : ∀ x ∈ tr, x.1.TimedBy ((getKey kvs "ts").UsedAs (getKey kvs "ts").Alike (ReadIn tr))
  pct : ∀ x ∈ tr, ∀ pct voltage, battery? x.1 = some (pct, voltage) →
    (getKey kvs "pct").UsedAs (getKey kvs "pct").Alike (· = getKey kvs "battery_pct") pct ∧
      voltage = getKey kvs "voltage"
  stored : ∀ nodeId ts pct voltage source r,
    ⟨.store (.upsertNodeBattery nodeId ts pct voltage source), r⟩ ∈ tr → ∀ now db db' a s,
      (StoreCall.upsertNodeBattery nodeId ts pct voltage source).exec num now db = .ok (db', a) →
        nodeKey num nodeId = .ok (some s) → ∃ row, db'.nodeBattery.find? s = some row ∧
          (∀ q, (getKey kvs "pct").number? = some q → row.pct.toPython.number? = some q) ∧
            ∀ q, (getKey kvs "ts").number? = some q → row.ts.toPython.number? = some q

/-- The database takes the values of a battery event. -/
def BatteryFits (num : Numerals) (kvs : List (String × PyVal)) : Prop :=
  (∃ s, nodeKey num (eventNode kvs) = .ok (some s)) ∧
    (∃ pct, bindInteger num ((getKey kvs "pct").or (getKey kvs "battery_pct")) = .ok pct) ∧
      (∃ voltage, bindReal num (getKey kvs "voltage") = .ok voltage) ∧
        ∃ ts, bindReal num (getKey kvs "ts") = .ok ts

/-- A battery event that names a node, from its time on. -/
def chargeAt (num : Numerals) (kvs : List (String × PyVal)) (ts : PyVal) : Prog Unit :=
  StateAggregator.applyBattery num (eventNode kvs) ts
    ((getKey kvs "pct").or (getKey kvs "battery_pct")) (getKey kvs "voltage") "telemetry"

/-- The time of a telemetry event in all that came of it. -/
def TelemetryTaken (kvs : List (String × PyVal)) (tr : Trace) : Prop :=
  ∀ x ∈ tr, x.1.TimedBy ((getKey kvs "ts").UsedAs (getKey kvs "ts").Alike (ReadIn tr))

section Events

variable {num : Numerals} {kvs : List (String × PyVal)} {tr : Trace}

theorem isNone_of_number {v : PyVal} {q : ℚ} (h : v.number? = some q) : v.isNone = false := by
  cases v with
  | none => cases h
  | _ => rfl

theorem handleBatteryEvent_dict (hnode : (eventNode kvs).truthy = true) :
    handleBatteryEvent num (.dict kvs) = orTime (getKey kvs "ts") >>= chargeAt num kvs := by
  change (if (eventNode kvs).truthy then _ else _) = _
  rw [if_pos hnode]
  rfl

theorem handleTelemetryEvent_dict (hnode : (eventNode kvs).truthy = true) :
    handleTelemetryEvent num (.dict kvs) = orTime (getKey kvs "ts") >>= fun ts ↦
      StateAggregator.applySeen num (eventNode kvs) ts none none := by
  change (if (eventNode kvs).truthy then _ else _) = _
  rw [if_pos hnode]
  rfl

theorem handleBatteryEvent_silent (hnode : (eventNode kvs).truthy = false) {y : Prog Unit}
    (h : Steps (handleBatteryEvent num (.dict kvs)) tr y) : tr = [] := by
  have h : Steps (if (eventNode kvs).truthy then _ else pure ()) tr y := h
  rw [if_neg (by simp [hnode])] at h
  exact (Steps.ret_iff.mp h).1

theorem handleTelemetryEvent_silent (hnode : (eventNode kvs).truthy = false) {y : Prog Unit}
    (h : Steps (handleTelemetryEvent num (.dict kvs)) tr y) : tr = [] := by
  have h : Steps (if (eventNode kvs).truthy then _ else pure ()) tr y := h
  rw [if_neg (by simp [hnode])] at h
  exact (Steps.ret_iff.mp h).1

theorem times_republishState {R : PyVal → Prop} {nodeId : PyVal} :
    (StateAggregator.republishState num nodeId).Only (Eff.TimedBy R) := by
  refine .bind (StateAggregator.reads_getNodeState.mono fun _ he ↦ .free he.time) fun st ↦ ?_
  cases st with
  | none => exact True.intro
  | some st => exact Prog.only_publish.mpr (.free rfl)

theorem times_applyBattery {nodeId ts pct voltage : PyVal} {source : String} :
    (StateAggregator.applyBattery num nodeId ts pct voltage source).Only
      (Eff.TimedBy (· = ts)) :=
  .bind (Prog.only_store.mpr (.of_eq rfl rfl)) fun _ ↦
    .bind (Prog.only_store.mpr (.of_eq rfl rfl)) fun _ ↦
      .bind (Prog.only_publish.mpr (.free rfl)) fun _ ↦ times_republishState

theorem times_noteRadio {R : PyVal → Prop} {nodeId ts : PyVal} {rssi : Option ℤ}
    {snr : Option PyFloat} :
    (StateAggregator.noteRadio nodeId ts rssi snr).Only (Eff.TimedBy R) := by
  unfold StateAggregator.noteRadio
  split
  · exact Prog.only_setRadio.mpr (.free rfl)
  · exact True.intro

theorem times_applySeen {nodeId ts : PyVal} {rssi : Option ℤ} {snr : Option PyFloat} :
    (StateAggregator.applySeen num nodeId ts rssi snr).Only (Eff.TimedBy (· = ts)) :=
  .bind (Prog.only_store.mpr (.of_eq rfl rfl)) fun _ ↦ .bind times_noteRadio fun _ ↦
    times_republishState

/-- A write of a battery is one of this node, percentage and voltage. -/
def Charges (nodeId pct voltage : PyVal) (e : Eff) : Prop :=
  ∀ nodeId' ts' pct' voltage' source',
    e = .store (.upsertNodeBattery nodeId' ts' pct' voltage' source') →
      nodeId' = nodeId ∧ pct' = pct ∧ voltage' = voltage

theorem battery_eq_some {e : Eff} {b : PyVal × PyVal} (h : battery? e = some b) :
    ∃ nodeId ts source, e = .store (.upsertNodeBattery nodeId ts b.1 b.2 source) := by
  cases e with
  | store c =>
      cases c with
      | upsertNodeBattery nodeId ts pct voltage source =>
          cases h
          exact ⟨nodeId, ts, source, rfl⟩
      | _ => cases h
  | _ => cases h

theorem Charges.battery {nodeId pct voltage : PyVal} {e : Eff} {b : PyVal × PyVal}
    (h : Charges nodeId pct voltage e) (hb : battery? e = some b) : b = (pct, voltage) := by
  obtain ⟨nodeId', ts, source, he⟩ := battery_eq_some hb
  obtain ⟨_, hpct, hvoltage⟩ := h _ _ _ _ _ he
  exact Prod.ext hpct hvoltage

theorem charges_reads {nodeId pct voltage : PyVal} {e : Eff} (he : e.Reads) :
    Charges nodeId pct voltage e := by
  rintro nodeId' ts' pct' voltage' source' rfl
  cases he

theorem charges_applyBattery {nodeId ts pct voltage : PyVal} {source : String} :
    (StateAggregator.applyBattery num nodeId ts pct voltage source).Only
      (Charges nodeId pct voltage) := by
  refine .bind (Prog.only_store.mpr ?_) fun _ ↦ .bind (Prog.only_store.mpr (by simp [Charges]))
    fun _ ↦ .bind (Prog.only_publish.mpr (by simp [Charges])) fun _ ↦
      .bind (StateAggregator.reads_getNodeState.mono fun _ he ↦ charges_reads he) fun st ↦ ?_
  · rintro nodeId' ts' pct' voltage' source' ⟨⟩
    exact ⟨rfl, rfl, rfl⟩
  · cases st with
    | none => exact True.intro
    | some st => exact Prog.only_publish.mpr (by simp [Charges])

theorem charges_orTime {nodeId pct voltage v : PyVal} {f : PyVal → Prog Unit}
    (hf : ∀ ts, (f ts).Only (Charges nodeId pct voltage)) :
    (orTime v >>= f).Only (Charges nodeId pct voltage) := by
  refine .bind ?_ hf
  unfold orTime
  split
  · exact True.intro
  · exact .bind (Prog.only_time.mpr (by simp [Charges])) fun _ ↦ True.intro

/-- A row of a battery event holds its percentage, and its time if that is a float's. -/
theorem battery_stored {ts source : PyVal} {now : ℚ} {db db' : Db} {a : Unit} {s : String}
    (hexec : (StoreCall.upsertNodeBattery (eventNode kvs) ts
      ((getKey kvs "pct").or (getKey kvs "battery_pct")) (getKey kvs "voltage") source).exec num
        now db = .ok (db', a)) (hnode : nodeKey num (eventNode kvs) = .ok (some s))
    (hpct : (getKey kvs "pct").UsedAs (getKey kvs "pct").Alike (· = getKey kvs "battery_pct")
      ((getKey kvs "pct").or (getKey kvs "battery_pct")))
    (hts : (getKey kvs "ts").isNone = false → ts = getKey kvs "ts")
    (hkept : BatteryFits num kvs → (getKey kvs "ts").Representable) :
    ∃ row, db'.nodeBattery.find? s = some row ∧
      (∀ q, (getKey kvs "pct").number? = some q → row.pct.toPython.number? = some q) ∧
        ∀ q, (getKey kvs "ts").number? = some q → row.ts.toPython.number? = some q := by
  obtain ⟨row, hrow, hrowPct, hrowVoltage, hrowTs⟩ := StoreCall.exec_upsertNodeBattery hexec hnode
  refine ⟨row, hrow, fun q hq ↦ ?_, fun q hq ↦ ?_⟩
  · have halike := hpct.present (isNone_of_number hq)
    exact bindInteger_number (halike.number hq) hrowPct
  · obtain rfl := hts (isNone_of_number hq)
    exact (bindReal_number hq hrowTs).mpr
      (hkept ⟨⟨_, hnode⟩, ⟨_, hrowPct⟩, ⟨_, hrowVoltage⟩, _, hrowTs⟩)

theorem batteryTaken_of {y : Prog Unit} (hts : (getKey kvs "ts").NullOrKept)
    (hpct : (getKey kvs "pct").NullOrKept ∨ (getKey kvs "pct").Alike (getKey kvs "battery_pct"))
    (hkept : BatteryFits num kvs → (getKey kvs "ts").Representable)
    (hnode : (eventNode kvs).truthy = true)
    (h : Steps (handleBatteryEvent num (.dict kvs)) tr y) : BatteryTaken num kvs tr := by
  rw [handleBatteryEvent_dict hnode] at h
  have htimes := usedAs_orTime (R := fun ts w ↦ w = ts) (fun ts ↦ times_applyBattery)
    (fun _ _ hw ↦ hw) hts h
  have hcharges := ((charges_orTime fun ts ↦ charges_applyBattery).steps h).1
  have hused := PyVal.usedAs_or_iff.mpr hpct
  refine ⟨fun x hx w hw ↦ ?_, fun x hx pct voltage hb ↦ ?_, ?_⟩
  · have htime := htimes x hx w hw
    exact ⟨fun hsome ↦ .inl (htime.present hsome).symm, htime.absent⟩
  · cases (hcharges x hx).battery hb
    exact ⟨hused, rfl⟩
  · intro nodeId ts pct voltage source r hx now db db' a s hexec hs
    obtain ⟨rfl, rfl, rfl⟩ := hcharges _ hx _ _ _ _ _ rfl
    exact battery_stored hexec hs hused (htimes _ hx _ rfl).present hkept

theorem chargeAt_steps (num : Numerals) (kvs : List (String × PyVal)) (ts : PyVal) :
    ∃ y, Steps (chargeAt num kvs ts) [⟨.store (.upsertNodeBattery (eventNode kvs) ts
      ((getKey kvs "pct").or (getKey kvs "battery_pct")) (getKey kvs "voltage")
        (.str "telemetry")), Except.ok ()⟩] y := by
  rw [chargeAt, StateAggregator.applyBattery]
  exact Prog.store_steps (.upsertNodeBattery (eventNode kvs) ts
    ((getKey kvs "pct").or (getKey kvs "battery_pct")) (getKey kvs "voltage")
      (.str "telemetry")) _ (.ok ())

theorem applySeen_steps (nodeId ts : PyVal) :
    ∃ y, Steps (StateAggregator.applySeen num nodeId ts none none)
      [⟨.store (.markNodeSeen nodeId ts), Except.ok ()⟩] y := by
  rw [StateAggregator.applySeen]
  exact Prog.store_steps (.markNodeSeen nodeId ts) _ (.ok ())

theorem exists_not_alike {v : PyVal} (hv : v.truthy = false) : ∃ t, ¬ v.Alike (.float (.fin t)) :=
  ⟨1, PyVal.not_alike_of_falsy hv one_ne_zero⟩

/-- A row that holds the time of its event tells that the time is a float's. -/
theorem representable_of_taken (hfits : BatteryFits num kvs)
    (h : ∀ tr y, Steps (orTime (getKey kvs "ts") >>= chargeAt num kvs) tr y →
      BatteryTaken num kvs tr) : (getKey kvs "ts").Representable := by
  cases htruthy : (getKey kvs "ts").truthy with
  | false => exact PyVal.representable_of_falsy htruthy
  | true =>
      intro n hn
      obtain ⟨⟨s, hnode⟩, ⟨pct, hpct⟩, ⟨voltage, hvoltage⟩, ts, hts⟩ := hfits
      have hq : (getKey kvs "ts").number? = some (n : ℚ) := by rw [hn]; rfl
      have hnull : ts ≠ .null := by
        rintro rfl
        rw [hn, bindReal, SqlValue.bind] at hts
        split at hts <;> cases hts
      obtain ⟨y, hy⟩ := chargeAt_steps num kvs (getKey kvs "ts")
      obtain ⟨db', hexec⟩ := @StoreCall.upsertNodeBattery_exec num 0 Db.empty (eventNode kvs) s
        (getKey kvs "ts") _ _ "telemetry" _ _ _ hnode hpct hvoltage hts hnull
      have htaken := h _ y (orTime_steps_of_truthy htruthy hy)
      obtain ⟨row, hrow, _, hrowTs⟩ :=
        htaken.stored _ _ _ _ _ _ List.mem_cons_self _ _ _ _ _ hexec hnode
      obtain ⟨row', hrow', _, _, hbound⟩ := StoreCall.exec_upsertNodeBattery hexec hnode
      obtain rfl := Option.some.inj (hrow.symm.trans hrow')
      exact (bindReal_number hq hbound).mp (hrowTs _ hq) n hn

/-- A battery event is taken as it should be just when it is dropped for want of a node,
or no fallback replaces a field that has a value and no time is rounded. -/
theorem batteryTaken_iff : (∀ tr y, Steps (handleBatteryEvent num (.dict kvs)) tr y →
      BatteryTaken num kvs tr) ↔
    ((eventNode kvs).truthy = true → (getKey kvs "ts").NullOrKept ∧
      ((getKey kvs "pct").NullOrKept ∨
        (getKey kvs "pct").Alike (getKey kvs "battery_pct")) ∧
      (BatteryFits num kvs → (getKey kvs "ts").Representable)) := by
  constructor
  · intro h hnode
    rw [handleBatteryEvent_dict hnode] at h
    refine ⟨?_, ?_, fun hfits ↦ representable_of_taken hfits h⟩
    · refine nullOrKept_of_used (fun t ↦ ?_) exists_not_alike fun tr y hsteps ↦ (h tr y hsteps).ts
      obtain ⟨y, hy⟩ := chargeAt_steps num kvs (.float (.fin t))
      exact ⟨_, y, _, hy, List.mem_cons_self, rfl⟩
    · have hpct {tr : Trace} {y : Prog Unit} {ts : PyVal}
          (hsteps : Steps (orTime (getKey kvs "ts") >>= chargeAt num kvs) tr y)
          (hx : ⟨.store (.upsertNodeBattery (eventNode kvs) ts
            ((getKey kvs "pct").or (getKey kvs "battery_pct")) (getKey kvs "voltage")
              (.str "telemetry")), Except.ok ()⟩ ∈ tr) :
          (getKey kvs "pct").NullOrKept ∨
            (getKey kvs "pct").Alike (getKey kvs "battery_pct") :=
        PyVal.usedAs_or_iff.mp ((h tr y hsteps).pct _ hx _ _ rfl).1
      cases htruthy : (getKey kvs "ts").truthy with
      | true =>
          obtain ⟨y, hy⟩ := chargeAt_steps num kvs (getKey kvs "ts")
          exact hpct (orTime_steps_of_truthy htruthy hy) List.mem_cons_self
      | false =>
          obtain ⟨y, hy⟩ := chargeAt_steps num kvs (.float (.fin 0))
          exact hpct (orTime_steps_of_falsy htruthy 0 hy)
            (List.mem_cons_of_mem _ List.mem_cons_self)
  · intro h tr y hsteps
    cases hnode : (eventNode kvs).truthy with
    | true =>
        obtain ⟨hts, hpct, hkept⟩ := h hnode
        exact batteryTaken_of hts hpct hkept hnode hsteps
    | false =>
        rw [handleBatteryEvent_silent hnode hsteps]
        exact ⟨by simp, by simp, by simp⟩

theorem telemetryTaken_iff : (∀ tr y, Steps (handleTelemetryEvent num (.dict kvs)) tr y →
      TelemetryTaken kvs tr) ↔
    ((eventNode kvs).truthy = true → (getKey kvs "ts").NullOrKept) := by
  constructor
  · intro h hnode
    rw [handleTelemetryEvent_dict hnode] at h
    refine nullOrKept_of_used (fun t ↦ ?_) exists_not_alike h
    obtain ⟨y, hy⟩ := @applySeen_steps num (eventNode kvs) (.float (.fin t))
    exact ⟨_, y, _, hy, List.mem_cons_self, rfl⟩
  · intro h tr y hsteps
    cases hnode : (eventNode kvs).truthy with
    | true =>
        rw [handleTelemetryEvent_dict hnode] at hsteps
        have htimes := usedAs_orTime (R := fun ts w ↦ w = ts) (fun ts ↦ times_applySeen)
          (fun _ _ hw ↦ hw) (h hnode) hsteps
        intro x hx w hw
        have hused := htimes x hx w hw
        exact ⟨fun hsome ↦ .inl (hused.present hsome).symm, hused.absent⟩
    | false =>
        rw [handleTelemetryEvent_silent hnode hsteps]
        exact fun x hx ↦ absurd hx List.not_mem_nil

end Events

end Transport

/-! ## The location report -/

namespace Handlers

/-- The coordinates are numbers in range. -/
def Placed (request : Request) : Prop :=
  ((arg request "lat").isNumber = true ∧ (arg request "lon").isNumber = true) ∧
    (arg request "lat").between (-90) 90 = true ∧ (arg request "lon").between (-180) 180 = true

/-- The conversions of a report with coordinates succeed: no optional field is an `int`
beyond the floats, and a time of its own is a number or reads as one. -/
structure Converts (num : Numerals) (request : Request) : Prop where
  optional : ∀ k ∈ ["alt", "acc", "spd", "hdg"], (arg request k).floatable = true
  ts : (arg request "ts").truthy = true → ∃ f, (arg request "ts").toFloat num = .ok f

/-- A report whose coordinates are accepted, from its time on. -/
def reportAt (num : Numerals) (request : Request) (ts : PyVal) : Prog Response := do
  let fix ← .ofOutcome (reportedFix num request ts)
  StateAggregator.applyLocation num (.str request.from_) fix "report" none none
  return Response.ok request [("ack", .bool true), ("ts", .float fix.ts)]

section Report

variable {num : Numerals} {request : Request}

theorem nodeLocationReport_placed (h : Placed request) :
    nodeLocationReport num request = orTime (arg request "ts") >>= reportAt num request := by
  obtain ⟨hnumbers, hrange⟩ := h
  rw [nodeLocationReport, require, require, if_pos hnumbers, if_pos hrange]
  rfl

theorem nodeLocationReport_refused (h : ¬ Placed request) :
    ∃ message, nodeLocationReport num request = throw (.rpcError Errors.badRequest message) := by
  rw [nodeLocationReport]
  by_cases hnumbers : (arg request "lat").isNumber = true ∧ (arg request "lon").isNumber = true
  · have hrange : ¬ ((arg request "lat").between (-90) 90 = true ∧
        (arg request "lon").between (-180) 180 = true) := fun hrange ↦ h ⟨hnumbers, hrange⟩
    rw [require, require, if_pos hnumbers, if_neg hrange]
    exact ⟨_, rfl⟩
  · rw [require, if_neg hnumbers]
    exact ⟨_, rfl⟩

theorem floatIntLimit_large : (180 : ℤ) < floatIntLimit := by
  decide +kernel

theorem toFloat_of_between {v : PyVal} {b : ℤ} (hb : b ≤ 180) (h : v.between (-b) b = true) :
    ∃ q, v.number? = some q ∧ ∃ t, v.toFloat num = .ok (.fin t) := by
  cases v with
  | bool b' => exact ⟨_, rfl, _, rfl⟩
  | int n =>
      have hn : (-b : ℚ) ≤ n ∧ (n : ℚ) ≤ b := by simpa [PyVal.between] using h
      have hlow : -b ≤ n := by exact_mod_cast hn.1
      have hhigh : n ≤ b := by exact_mod_cast hn.2
      have hsmall : ¬ floatIntLimit ≤ |n| := by
        have habs : |n| ≤ 180 := abs_le.mpr ⟨by omega, by omega⟩
        have hlarge := floatIntLimit_large
        omega
      have hlimit : (PyVal.int n).floatable = true := by
        simp [PyVal.floatable, not_le.mp hsmall]
      obtain ⟨t, ht, _⟩ := @PyVal.toFloat_of_finite num _ _ hlimit rfl
      exact ⟨n, rfl, t, ht⟩
  | float f =>
      cases f with
      | fin q => exact ⟨q, rfl, q, rfl⟩
      | _ => cases h
  | _ => cases h

theorem representable_of_between {v : PyVal} {b : ℤ} (hb : b ≤ 180)
    (h : v.between (-b) b = true) : v.Representable := by
  rintro n rfl
  have hn : (-b : ℚ) ≤ n ∧ (n : ℚ) ≤ b := by simpa [PyVal.between] using h
  have hlow : -b ≤ n := by exact_mod_cast hn.1
  have hhigh : n ≤ b := by exact_mod_cast hn.2
  exact Binary64.round_intCast (abs_le.mpr ⟨by omega, by omega⟩)

theorem optFloat_floatable {v : PyVal} : (∃ o, optFloat v = .ok o) ↔ v.floatable = true := by
  rw [optFloat_ok_iff]
  refine ⟨fun h ↦ ?_, fun h _ ↦ h⟩
  cases v with
  | int n => exact h rfl
  | _ => rfl

theorem optFloat_number {v : PyVal} {o : Option PyFloat} {q : ℚ} (h : optFloat v = .ok o)
    (hv : v.number? = some q) : ∃ t, o = some (.fin t) ∧ (t = q ↔ v.Representable) := by
  have hread : (v.toFloat .plain).map some = .ok o := by
    cases v with
    | bool b => exact h
    | int n => exact h
    | float f => exact h
    | _ => cases hv
  cases hfloat : v.toFloat .plain with
  | error err =>
      rw [hfloat] at hread
      cases hread
  | ok f =>
      rw [hfloat] at hread
      obtain ⟨t, rfl, hkept⟩ := PyVal.toFloat_number hfloat hv
      cases hread
      exact ⟨t, rfl, hkept⟩

/-- An optional field is kept just where a float represents it. -/
theorem optFloat_keeps_iff {v : PyVal} {o : Option PyFloat} (h : optFloat v = .ok o) :
    (∀ q, v.number? = some q → o = some (.fin q)) ↔ v.Representable := by
  constructor
  · rintro hkept n rfl
    obtain ⟨t, rfl, hexact⟩ := optFloat_number h rfl
    exact hexact.mp (PyFloat.fin.inj (Option.some.inj (hkept _ rfl))) n rfl
  · intro hkept q hq
    obtain ⟨t, rfl, hexact⟩ := optFloat_number h hq
    rw [hexact.mpr hkept]

theorem Placed.ranges (h : Placed request) :
    (arg request "lat").between (-((90 : ℤ) : ℚ)) ((90 : ℤ) : ℚ) = true ∧
      (arg request "lon").between (-((180 : ℤ) : ℚ)) ((180 : ℤ) : ℚ) = true := by
  exact_mod_cast h.2

theorem reportedFix_ok {ts : PyVal} {fix : LocationFix} (h : reportedFix num request ts = .ok fix) :
    (arg request "lat").toFloat num = .ok fix.lat ∧
      (arg request "lon").toFloat num = .ok fix.lon ∧ ts.toFloat num = .ok fix.ts ∧
        optFloat (arg request "alt") = .ok fix.alt ∧ optFloat (arg request "acc") = .ok fix.acc ∧
          optFloat (arg request "spd") = .ok fix.spd ∧
            optFloat (arg request "hdg") = .ok fix.hdg ∧ fix.fix = optInt (arg request "fix") := by
  obtain ⟨lat, hlat, h⟩ := except_bind_ok h
  obtain ⟨lon, hlon, h⟩ := except_bind_ok h
  obtain ⟨ts', hts, h⟩ := except_bind_ok h
  obtain ⟨alt, halt, h⟩ := except_bind_ok h
  obtain ⟨acc, hacc, h⟩ := except_bind_ok h
  obtain ⟨spd, hspd, h⟩ := except_bind_ok h
  obtain ⟨hdg, hhdg, h⟩ := except_bind_ok h
  cases h
  exact ⟨hlat, hlon, hts, halt, hacc, hspd, hhdg, rfl⟩

/-- With coordinates in range, the time and the optional fields decide. -/
theorem reportedFix_ok_iff (hplaced : Placed request) {ts : PyVal} :
    (∃ fix, reportedFix num request ts = .ok fix) ↔ (∃ f, ts.toFloat num = .ok f) ∧
      ∀ k ∈ ["alt", "acc", "spd", "hdg"], (arg request k).floatable = true := by
  constructor
  · rintro ⟨fix, h⟩
    obtain ⟨_, _, hts, halt, hacc, hspd, hhdg, _⟩ := reportedFix_ok h
    refine ⟨⟨_, hts⟩, ?_⟩
    simp only [List.forall_mem_cons, List.not_mem_nil, false_implies, implies_true, and_true]
    exact ⟨optFloat_floatable.mp ⟨_, halt⟩, optFloat_floatable.mp ⟨_, hacc⟩,
      optFloat_floatable.mp ⟨_, hspd⟩, optFloat_floatable.mp ⟨_, hhdg⟩⟩
  · rintro ⟨⟨f, hts⟩, hoptional⟩
    simp only [List.forall_mem_cons, List.not_mem_nil, false_implies, implies_true, and_true]
      at hoptional
    obtain ⟨halt, hacc, hspd, hhdg⟩ := hoptional
    obtain ⟨alt, halt⟩ := optFloat_floatable.mpr halt
    obtain ⟨acc, hacc⟩ := optFloat_floatable.mpr hacc
    obtain ⟨spd, hspd⟩ := optFloat_floatable.mpr hspd
    obtain ⟨hdg, hhdg⟩ := optFloat_floatable.mpr hhdg
    obtain ⟨hlatRange, hlonRange⟩ := hplaced.ranges
    obtain ⟨_, _, lat, hlat⟩ := @toFloat_of_between num _ _ (by norm_num) hlatRange
    obtain ⟨_, _, lon, hlon⟩ := @toFloat_of_between num _ _ le_rfl hlonRange
    rw [reportedFix, hlat, hlon, hts, halt, hacc, hspd, hhdg]
    exact ⟨_, rfl⟩

theorem reportAt_ok {ts : PyVal} {fix : LocationFix} (h : reportedFix num request ts = .ok fix) :
    reportAt num request ts = (do
      StateAggregator.applyLocation num (.str request.from_) fix "report" none none
      return Response.ok request [("ack", .bool true), ("ts", .float fix.ts)]) := by
  rw [reportAt, h]
  rfl

theorem reportAt_error {ts : PyVal} {err : PyExc} (h : reportedFix num request ts = .error err) :
    reportAt num request ts = throw err := by
  rw [reportAt, h]
  rfl

/-! ## The fields of a report -/

/-- A field of the body of a response. -/
def echoed (response : Response) (k : String) : Option PyVal :=
  response.body.bind fun body ↦ body.lookup k

/-- The time of a report in all that came of it, its acknowledgement included. -/
structure ReportTimed (num : Numerals) (request : Request) (tr : Trace) (y : Prog Response) :
    Prop where
  ts : ∀ x ∈ tr, x.1.TimedBy
    ((arg request "ts").UsedAs ((arg request "ts").IsFloatOf num) (ReadIn tr))
  ack : ∀ response, y = .ret response → ∃ w, Handlers.echoed response "ts" = some w ∧
    (arg request "ts").UsedAs ((arg request "ts").IsFloatOf num) (ReadIn tr) w
  stored : ∀ nodeId fix source rssi snr r,
    ⟨.store (.upsertNodeLocation nodeId fix source rssi snr), r⟩ ∈ tr → ∀ now db db' a s,
      (StoreCall.upsertNodeLocation nodeId fix source rssi snr).exec num now db = .ok (db', a) →
        nodeKey num nodeId = .ok (some s) → ∃ row, db'.nodeLocations.find? s = some row ∧
          ∀ q, (arg request "ts").number? = some q → row.ts.toPython.number? = some q
  echoed : ∀ q, (arg request "ts").number? = some q → ∀ response, y = .ret response →
    Handlers.echoed response "ts" = some (.float (.fin q))

/-- The fields without a fallback in a fix. -/
structure FixTaken (request : Request) (fix : LocationFix) : Prop where
  lat : ∀ q, (arg request "lat").number? = some q → fix.lat = .fin q
  lon : ∀ q, (arg request "lon").number? = some q → fix.lon = .fin q
  optional : ∀ kf ∈ [("alt", fix.alt), ("acc", fix.acc), ("spd", fix.spd), ("hdg", fix.hdg)],
    ∀ q, (arg request kf.1).number? = some q → kf.2 = some (.fin q)
  fix : ∀ q, (arg request "fix").number? = some q → ∃ n : ℤ, fix.fix = some n ∧ (n : ℚ) = q

/-- The fix a write records. -/
def fix? : Eff → Option LocationFix
  | .store (.upsertNodeLocation _ fix ..) => some fix
  | _ => none

def FixesTaken (request : Request) (tr : Trace) : Prop :=
  ∀ x ∈ tr, ∀ fix, fix? x.1 = some fix → FixTaken request fix

/-- The `fix` is no float, and an optional field is no `int` that a float rounds. -/
structure FixTyped (request : Request) : Prop where
  fix : ∀ q, arg request "fix" ≠ .float (.fin q)
  optional : ∀ k ∈ ["alt", "acc", "spd", "hdg"], (arg request k).Representable

theorem times_applyLocation {nodeId : PyVal} {fix : LocationFix} {source : String}
    {rssi : Option ℤ} {snr : Option PyFloat} :
    (StateAggregator.applyLocation num nodeId fix source rssi snr).Only
      (Eff.TimedBy (· = .float fix.ts)) :=
  .bind (Prog.only_store.mpr (.of_eq rfl rfl)) fun _ ↦
    .bind (Prog.only_store.mpr (.of_eq rfl rfl)) fun _ ↦
      .bind Transport.times_noteRadio fun _ ↦ .bind (Prog.only_publish.mpr (.free rfl)) fun _ ↦
        Transport.times_republishState

theorem times_reportAt (ts : PyVal) :
    (reportAt num request ts).Only (Eff.TimedBy (ts.IsFloatOf num)) := by
  cases hfix : reportedFix num request ts with
  | error err =>
      rw [reportAt_error hfix]
      exact True.intro
  | ok fix =>
      rw [reportAt_ok hfix]
      refine .bind (times_applyLocation.mono fun e he w hw ↦ ?_) fun _ ↦ True.intro
      exact ⟨fix.ts, (reportedFix_ok hfix).2.2.1, he w hw⟩

theorem acks_reportAt (ts : PyVal) : (reportAt num request ts).Returns fun response ↦
    ∃ w, echoed response "ts" = some w ∧ ts.IsFloatOf num w := by
  cases hfix : reportedFix num request ts with
  | error err =>
      rw [reportAt_error hfix]
      exact True.intro
  | ok fix =>
      rw [reportAt_ok hfix]
      exact .bind fun _ ↦ ⟨_, rfl, fix.ts, (reportedFix_ok hfix).2.2.1, rfl⟩

theorem ack_orTime {v : PyVal} {f : PyVal → Prog Response} {R : PyVal → PyVal → Prop}
    {tr : Trace} {response : Response}
    (hf : ∀ ts, (f ts).Returns fun response ↦ ∃ w, echoed response "ts" = some w ∧ R ts w)
    (hR : ∀ t w, R (.float (.fin t)) w → w = .float (.fin t)) (hv : v.NullOrKept)
    (h : Steps (orTime v >>= f) tr (.ret response)) :
    ∃ w, echoed response "ts" = some w ∧ v.UsedAs (R v) (ReadIn tr) w := by
  obtain ⟨htruthy, hsteps⟩ | ⟨hfalsy, rfl | ⟨t, rest, rfl, hsteps⟩⟩ := steps_orTime h
  · obtain ⟨w, hw, hRw⟩ := Returns.steps (hf v) hsteps
    refine ⟨w, hw, fun _ ↦ hRw, fun hnone ↦ ?_⟩
    rw [PyVal.truthy_of_isNone hnone] at htruthy
    cases htruthy
  · have hret := Steps.nil_iff.mp h
    unfold orTime at hret
    rw [if_neg (by simp [hfalsy])] at hret
    cases hret
  · have hnone : v.isNone = true := hv.resolve_right (by simp [hfalsy])
    obtain ⟨w, hw, hRw⟩ := Returns.steps (hf _) hsteps
    refine ⟨w, hw, fun hsome ↦ ?_, fun _ ↦ ⟨t, List.mem_cons_self, hR t w hRw⟩⟩
    rw [hnone] at hsome
    cases hsome

theorem floatOf_reading (t : ℚ) (w : PyVal)
    (h : (PyVal.float (.fin t)).IsFloatOf num w) : w = .float (.fin t) := by
  obtain ⟨s, rfl, hs⟩ := h.number rfl
  rw [hs.mpr (PyVal.representable_of_ne (by simp))]

theorem reportTimed_of {tr : Trace} {y : Prog Response} (hplaced : Placed request)
    (hts : (arg request "ts").NullOrKept) (hkept : (arg request "ts").Representable)
    (h : Steps (nodeLocationReport num request) tr y) :
    ReportTimed num request tr y := by
  rw [nodeLocationReport_placed hplaced] at h
  have htimes := usedAs_orTime (R := fun ts w ↦ ts.IsFloatOf num w) times_reportAt
    floatOf_reading hts h
  have hack (response : Response) (hy : y = .ret response) :
      ∃ w, echoed response "ts" = some w ∧
        (arg request "ts").UsedAs ((arg request "ts").IsFloatOf num) (ReadIn tr) w := by
    rw [hy] at h
    exact ack_orTime (R := fun ts w ↦ ts.IsFloatOf num w) acks_reportAt floatOf_reading hts h
  refine ⟨htimes, hack, ?_, ?_⟩
  · intro nodeId fix source rssi snr r hx now db db' a s hexec hs
    obtain ⟨row, hrow, hrowTs⟩ := StoreCall.exec_upsertNodeLocation hexec hs
    refine ⟨row, hrow, fun q hq ↦ ?_⟩
    have hown := (htimes _ hx _ rfl).present (Transport.isNone_of_number hq)
    obtain ⟨t, ht, hexact⟩ := hown.number hq
    obtain rfl := hexact.mpr hkept
    rw [ht] at hrowTs
    exact (bindReal_number rfl hrowTs).mpr (PyVal.representable_of_ne (by simp))
  · intro q hq response hy
    obtain ⟨w, hw, hused⟩ := hack response hy
    obtain ⟨t, ht, hexact⟩ := (hused.present (Transport.isNone_of_number hq)).number hq
    rw [hw, ht, hexact.mpr hkept]

theorem reportAt_steps {ts : PyVal} {fix : LocationFix} (h : reportedFix num request ts = .ok fix) :
    ∃ y, Steps (reportAt num request ts)
      [⟨.store (.upsertNodeLocation (.str request.from_) fix (some "report") none none),
        Except.ok ()⟩] y := by
  rw [reportAt_ok h]
  obtain ⟨y, hy⟩ : ∃ y, Steps
      (StateAggregator.applyLocation num (.str request.from_) fix "report" none none)
      [⟨.store (.upsertNodeLocation (.str request.from_) fix (some "report") none none),
        Except.ok ()⟩] y := by
    rw [StateAggregator.applyLocation]
    exact Prog.store_steps (.upsertNodeLocation (.str request.from_) fix (some "report") none none)
      _ (.ok ())
  exact ⟨_, hy.bind _⟩

/-- A report that converts can be acknowledged. -/
theorem reportAt_returns {ts : PyVal} {fix : LocationFix}
    (h : reportedFix num request ts = .ok fix) :
    ∃ done, Steps (reportAt num request ts) done
      (.ret (Response.ok request [("ack", .bool true), ("ts", .float fix.ts)])) := by
  rw [reportAt_ok h]
  apply Steps.exists_answer (R := Eff.Answer) (e := .store (.upsertNodeLocation ..)) (.ok ())
  apply Steps.exists_answer (R := Eff.Answer) (e := .store (.markNodeSeen ..)) (.ok ())
  apply Steps.exists_answer (R := Eff.Answer) (e := .publish ..) (.ok ())
  apply Steps.exists_answer (R := Eff.Answer) (e := .store (.getLastSeen _)) (.ok none)
  exact ⟨[], .refl _⟩

theorem exists_not_floatOf (v : PyVal) : ∃ t, ¬ v.IsFloatOf num (.float (.fin t)) := by
  by_cases h : v.IsFloatOf num (.float (.fin 0))
  · refine ⟨1, ?_⟩
    rintro ⟨f, hf, hone⟩
    obtain ⟨f', hf', hzero⟩ := h
    rw [hf] at hf'
    cases hf'
    rw [← hzero] at hone
    simp at hone
  · exact ⟨0, h⟩

theorem reportTimed_of_failed {tr : Trace} {y : Prog Response} (htr : ∀ x ∈ tr, x.1 = .time)
    (hy : ∀ response, y ≠ .ret response) : ReportTimed num request tr y := by
  refine ⟨fun x hx ↦ ?_, fun response h ↦ absurd h (hy response), ?_,
    fun _ _ response h ↦ absurd h (hy response)⟩
  · rw [htr x hx]
    exact .free rfl
  · intro nodeId fix source rssi snr r hx
    cases htr _ hx

theorem steps_of_unconverted {tr : Trace} {y : Prog Response} (hplaced : Placed request)
    (hconverts : ¬ Converts num request) (h : Steps (nodeLocationReport num request) tr y) :
    (∀ x ∈ tr, x.1 = .time) ∧ ∀ response, y ≠ .ret response := by
  have hraises (ts : PyVal) (hts : (arg request "ts").truthy = true → ts = arg request "ts") :
      ∃ err, reportAt num request ts = .raise err := by
    cases hfix : reportedFix num request ts with
    | ok fix =>
        obtain ⟨hfloat, hoptional⟩ := (reportedFix_ok_iff hplaced).mp ⟨fix, hfix⟩
        exact absurd ⟨hoptional, fun htruthy ↦ hts htruthy ▸ hfloat⟩ hconverts
    | error err => exact ⟨err, reportAt_error hfix⟩
  rw [nodeLocationReport_placed hplaced] at h
  obtain ⟨_, hsteps⟩ | ⟨hfalsy, rfl | ⟨t, rest, rfl, hsteps⟩⟩ := steps_orTime h
  · obtain ⟨err, heq⟩ := hraises (arg request "ts") fun _ ↦ rfl
    rw [heq] at hsteps
    obtain ⟨rfl, rfl⟩ := Steps.raise_iff.mp hsteps
    exact ⟨fun x hx ↦ absurd hx List.not_mem_nil, fun response h ↦ by cases h⟩
  · refine ⟨fun x hx ↦ absurd hx List.not_mem_nil, fun response hy ↦ ?_⟩
    have hret := Steps.nil_iff.mp h
    unfold orTime at hret
    rw [if_neg (by simp [hfalsy]), hy] at hret
    cases hret
  · obtain ⟨err, heq⟩ := hraises (.float (.fin t)) fun htruthy ↦ by simp [hfalsy] at htruthy
    rw [heq] at hsteps
    obtain ⟨rfl, rfl⟩ := Steps.raise_iff.mp hsteps
    refine ⟨fun x hx ↦ ?_, fun response h ↦ by cases h⟩
    rw [List.mem_singleton.mp hx]

theorem steps_of_refused {tr : Trace} {y : Prog Response} (hplaced : ¬ Placed request)
    (h : Steps (nodeLocationReport num request) tr y) :
    tr = [] ∧ ∀ response, y ≠ .ret response := by
  obtain ⟨message, heq⟩ := @nodeLocationReport_refused num _ hplaced
  rw [heq] at h
  obtain ⟨rfl, rfl⟩ := Steps.raise_iff.mp h
  exact ⟨rfl, fun response h ↦ by cases h⟩

/-- An acknowledgement with the time of its report tells that the time is a float's. -/
theorem representable_of_timed (hconverts : Converts num request)
    (hfix : ∀ ts, (∃ f, ts.toFloat num = .ok f) → ∃ fix, reportedFix num request ts = .ok fix)
    (h : ∀ tr y, Steps (orTime (arg request "ts") >>= reportAt num request) tr y →
      ReportTimed num request tr y) : (arg request "ts").Representable := by
  cases htruthy : (arg request "ts").truthy with
  | false => exact PyVal.representable_of_falsy htruthy
  | true =>
      intro n hn
      have hq : (arg request "ts").number? = some (n : ℚ) := by rw [hn]; rfl
      obtain ⟨fix, hfix⟩ := hfix _ (hconverts.ts htruthy)
      obtain ⟨done, hsteps⟩ := reportAt_returns hfix
      obtain ⟨t, ht, hexact⟩ := PyVal.toFloat_number (reportedFix_ok hfix).2.2.1 hq
      have hecho := (h _ _ (orTime_steps_of_truthy htruthy hsteps)).echoed _ hq _ rfl
      have hown : echoed (Response.ok request [("ack", .bool true), ("ts", .float fix.ts)]) "ts" =
          some (.float fix.ts) := rfl
      rw [hown, ht] at hecho
      exact hexact.mp (PyFloat.fin.inj (PyVal.float.inj (Option.some.inj hecho))) n hn

/-- The time of a report is taken as it should be just when the report is refused or
its time neither gives way to a fallback nor is rounded. -/
theorem reportTimed_iff : (∀ tr y, Steps (nodeLocationReport num request) tr y →
      ReportTimed num request tr y) ↔
    (Placed request → Converts num request →
      (arg request "ts").NullOrKept ∧ (arg request "ts").Representable) := by
  constructor
  · intro h hplaced hconverts
    rw [nodeLocationReport_placed hplaced] at h
    refine ⟨?_, representable_of_timed hconverts
      (fun ts hts ↦ (reportedFix_ok_iff hplaced).mpr ⟨hts, hconverts.optional⟩) h⟩
    refine nullOrKept_of_used (f := reportAt num request) (v := arg request "ts")
      (fun t ↦ ?_) (fun _ ↦ exists_not_floatOf _) fun tr y hsteps ↦ (h tr y hsteps).ts
    have hclock : (PyVal.float (.fin t)).toFloat num = .ok (.fin t) := rfl
    obtain ⟨fix, hfix⟩ := (reportedFix_ok_iff hplaced).mpr ⟨⟨_, hclock⟩, hconverts.optional⟩
    obtain ⟨y, hy⟩ := reportAt_steps hfix
    have hts := (reportedFix_ok hfix).2.2.1
    rw [hclock] at hts
    refine ⟨_, y, _, hy, List.mem_cons_self, ?_⟩
    rw [Except.ok.inj hts]
    rfl
  · intro h tr y hsteps
    by_cases hplaced : Placed request
    · by_cases hconverts : Converts num request
      · obtain ⟨hts, hkept⟩ := h hplaced hconverts
        exact reportTimed_of hplaced hts hkept hsteps
      · obtain ⟨htr, hy⟩ := steps_of_unconverted hplaced hconverts hsteps
        exact reportTimed_of_failed htr hy
    · obtain ⟨rfl, hy⟩ := steps_of_refused hplaced hsteps
      exact reportTimed_of_failed (fun x hx ↦ absurd hx List.not_mem_nil) hy

/-! ## The fields without a fallback -/

theorem fixTaken_of {ts : PyVal} {fix : LocationFix} (hplaced : Placed request)
    (h : reportedFix num request ts = .ok fix) (htyped : FixTyped request) :
    FixTaken request fix := by
  obtain ⟨hlatRange, hlonRange⟩ := hplaced.ranges
  have hlatKept := representable_of_between (by norm_num) hlatRange
  have hlonKept := representable_of_between le_rfl hlonRange
  obtain ⟨hlat, hlon, _, halt, hacc, hspd, hhdg, hfix⟩ := reportedFix_ok h
  have hfloat {v : PyVal} {f : PyFloat} (hf : v.toFloat num = .ok f) (hkept : v.Representable)
      (q : ℚ) (hq : v.number? = some q) : f = .fin q := by
    obtain ⟨t, rfl, hexact⟩ := PyVal.toFloat_number hf hq
    rw [hexact.mpr hkept]
  have hkept := htyped.optional
  simp only [List.forall_mem_cons, List.not_mem_nil, false_implies, implies_true, and_true]
    at hkept
  obtain ⟨haltKept, haccKept, hspdKept, hhdgKept⟩ := hkept
  refine ⟨hfloat hlat hlatKept, hfloat hlon hlonKept, ?_, fun q hq ↦ ?_⟩
  · simp only [List.forall_mem_cons, List.not_mem_nil, false_implies, implies_true, and_true]
    exact ⟨(optFloat_keeps_iff halt).mpr haltKept, (optFloat_keeps_iff hacc).mpr haccKept,
      (optFloat_keeps_iff hspd).mpr hspdKept, (optFloat_keeps_iff hhdg).mpr hhdgKept⟩
  · rw [hfix]
    cases harg : arg request "fix" with
    | bool b =>
        rw [harg] at hq
        cases hq
        cases b <;> exact ⟨_, rfl, by norm_num⟩
    | int n =>
        rw [harg] at hq
        cases hq
        exact ⟨n, rfl, rfl⟩
    | float f =>
        rw [harg] at hq
        cases f with
        | fin q' => exact absurd harg (htyped.fix q')
        | _ => cases hq
    | _ =>
        rw [harg] at hq
        cases hq

theorem fixes_reportAt (ts : PyVal) : (reportAt num request ts).Only fun e ↦
    ∀ fix, fix? e = some fix → reportedFix num request ts = .ok fix := by
  have hfree {e : Eff} (h : fix? e = none) (fix : LocationFix) (hfix : fix? e = some fix) :
      reportedFix num request ts = .ok fix := by
    rw [h] at hfix
    cases hfix
  have hreads {e : Eff} (he : e.Reads) : fix? e = none := by
    cases e with
    | store c =>
        cases c with
        | upsertNodeLocation => cases he
        | _ => rfl
    | _ => rfl
  cases hreported : reportedFix num request ts with
  | error err =>
      rw [reportAt_error hreported]
      exact True.intro
  | ok fix =>
      rw [reportAt_ok hreported]
      rw [hreported] at hfree
      refine .bind ?_ fun _ ↦ True.intro
      refine .bind (Prog.only_store.mpr fun fix' h ↦ congrArg _ (Option.some_injective _ h))
        fun _ ↦ .bind (Prog.only_store.mpr (hfree rfl)) fun _ ↦ .bind True.intro fun _ ↦
          .bind (Prog.only_publish.mpr (hfree rfl)) fun _ ↦
            .bind (StateAggregator.reads_getNodeState.mono fun _ he ↦ hfree (hreads he)) fun st ↦ ?_
      cases st with
      | none => exact True.intro
      | some st => exact Prog.only_publish.mpr (hfree rfl)

/-- A write comes of a report that converts, with the fix made of it. -/
theorem reportedFix_of_steps {tr : Trace} {y : Prog Response} {x : Exchange Eff.Answer}
    {fix : LocationFix} (hplaced : Placed request)
    (h : Steps (nodeLocationReport num request) tr y) (hx : x ∈ tr) (hfix : fix? x.1 = some fix) :
    Converts num request ∧ ∃ ts, reportedFix num request ts = .ok fix := by
  rw [nodeLocationReport_placed hplaced] at h
  have hreported {ts : PyVal} {rest : Trace} (hsteps : Steps (reportAt num request ts) rest y)
      (hx : x ∈ rest) : reportedFix num request ts = .ok fix :=
    ((fixes_reportAt ts).steps hsteps).1 x hx fix hfix
  obtain ⟨_, hsteps⟩ | ⟨hfalsy, rfl | ⟨t, rest, rfl, hsteps⟩⟩ := steps_orTime h
  · have hown := hreported hsteps hx
    have hconverts := (reportedFix_ok_iff hplaced).mp ⟨fix, hown⟩
    exact ⟨⟨hconverts.2, fun _ ↦ hconverts.1⟩, _, hown⟩
  · cases hx
  · obtain rfl | hx := List.mem_cons.mp hx
    · cases hfix
    · have hclock := hreported hsteps hx
      have hconverts := (reportedFix_ok_iff hplaced).mp ⟨fix, hclock⟩
      exact ⟨⟨hconverts.2, fun htruthy ↦ by simp [hfalsy] at htruthy⟩, _, hclock⟩

theorem exists_write (hplaced : Placed request) (hconverts : Converts num request) :
    ∃ ts tr y x fix, Steps (nodeLocationReport num request) tr y ∧ x ∈ tr ∧
      fix? x.1 = some fix ∧ reportedFix num request ts = .ok fix := by
  rw [nodeLocationReport_placed hplaced]
  cases htruthy : (arg request "ts").truthy with
  | true =>
      obtain ⟨fix, hfix⟩ := (reportedFix_ok_iff hplaced).mpr
        ⟨hconverts.ts htruthy, hconverts.optional⟩
      obtain ⟨y, hy⟩ := reportAt_steps hfix
      exact ⟨_, _, y, _, fix, orTime_steps_of_truthy htruthy hy, List.mem_cons_self, rfl, hfix⟩
  | false =>
      obtain ⟨fix, hfix⟩ := (@reportedFix_ok_iff num _ hplaced (.float (.fin 0))).mpr
        ⟨⟨.fin 0, rfl⟩, hconverts.optional⟩
      obtain ⟨y, hy⟩ := reportAt_steps hfix
      exact ⟨_, _, y, _, fix, orTime_steps_of_falsy htruthy 0 hy,
        List.mem_cons_of_mem _ List.mem_cons_self, rfl, hfix⟩

/-- An optional field that is stored as it is, is a float's. -/
theorem representable_of_fixTaken {ts : PyVal} {fix : LocationFix}
    (h : reportedFix num request ts = .ok fix) (htaken : FixTaken request fix) :
    ∀ k ∈ ["alt", "acc", "spd", "hdg"], (arg request k).Representable := by
  obtain ⟨_, _, _, halt, hacc, hspd, hhdg, _⟩ := reportedFix_ok h
  have hfields := htaken.optional
  simp only [List.forall_mem_cons, List.not_mem_nil, false_implies, implies_true, and_true]
    at hfields ⊢
  obtain ⟨haltKept, haccKept, hspdKept, hhdgKept⟩ := hfields
  exact ⟨(optFloat_keeps_iff halt).mp haltKept, (optFloat_keeps_iff hacc).mp haccKept,
    (optFloat_keeps_iff hspd).mp hspdKept, (optFloat_keeps_iff hhdg).mp hhdgKept⟩

/-- The other fields of a report are taken as they are, but a `fix` that is a float and
an integer that is rounded. -/
theorem fixesTaken_iff : (∀ tr y, Steps (nodeLocationReport num request) tr y →
      FixesTaken request tr) ↔ (Placed request → Converts num request → FixTyped request) := by
  constructor
  · intro h hplaced hconverts
    obtain ⟨ts, tr, y, x, fix, hsteps, hx, hwrite, hfix⟩ := exists_write hplaced hconverts
    have htaken := h tr y hsteps x hx fix hwrite
    refine ⟨fun q hq ↦ ?_, representable_of_fixTaken hfix htaken⟩
    obtain ⟨n, hn, _⟩ := htaken.fix q (by rw [hq]; rfl)
    rw [(reportedFix_ok hfix).2.2.2.2.2.2.2, hq] at hn
    cases hn
  · intro h tr y hsteps x hx fix hwrite
    by_cases hplaced : Placed request
    · obtain ⟨hconverts, ts, hfix⟩ := reportedFix_of_steps hplaced hsteps hx hwrite
      exact fixTaken_of hplaced hfix (h hplaced hconverts)
    · obtain ⟨rfl, _⟩ := steps_of_refused hplaced hsteps
      cases hx

end Report

end Handlers

open Transport Handlers in
/-- A present number is used as it is and a fallback only where the field is null or
absent, just when no field with a fallback is false as a condition, no `fix` is a float
and no integer that becomes a float is rounded. -/
theorem fallbacks_iff (num : Numerals) (kvs : List (String × PyVal)) (request : Request) :
    ((∀ tr y, Steps (handleBatteryEvent num (.dict kvs)) tr y → BatteryTaken num kvs tr) ↔
        ((eventNode kvs).truthy = true → (getKey kvs "ts").NullOrKept ∧
          ((getKey kvs "pct").NullOrKept ∨
            (getKey kvs "pct").Alike (getKey kvs "battery_pct")) ∧
          (BatteryFits num kvs → (getKey kvs "ts").Representable))) ∧
      ((∀ tr y, Steps (handleTelemetryEvent num (.dict kvs)) tr y → TelemetryTaken kvs tr) ↔
        ((eventNode kvs).truthy = true → (getKey kvs "ts").NullOrKept)) ∧
      ((∀ tr y, Steps (nodeLocationReport num request) tr y → ReportTimed num request tr y) ↔
        (Placed request → Converts num request →
          (arg request "ts").NullOrKept ∧ (arg request "ts").Representable)) ∧
      ((∀ tr y, Steps (nodeLocationReport num request) tr y → FixesTaken request tr) ↔
        (Placed request → Converts num request → FixTyped request)) :=
  ⟨batteryTaken_iff, telemetryTaken_iff, reportTimed_iff, fixesTaken_iff⟩

/-- A battery at 0 %. -/
def deadBattery : List (String × PyVal) :=
  [("pubkey", .str "node-a"), ("pct", .int 0), ("voltage", .float (.fin 3)), ("ts", .int 5)]

open Transport in
def deadBatteryTrace : Trace :=
  (handleBatteryEvent .plain (.dict deadBattery)).exchanges (Eff.respond .plain 7 fun _ ↦ none)
    Db.empty

open Transport in
/-- A reading of 0 % is stored as none. -/
theorem dead_battery_lost :
    Steps (handleBatteryEvent .plain (.dict deadBattery)) deadBatteryTrace (.ret ()) ∧
      ¬ BatteryTaken .plain deadBattery deadBatteryTrace ∧
        (((handleBatteryEvent .plain (.dict deadBattery)).eval
          (Eff.respond .plain 7 fun _ ↦ none) Db.empty).2.nodeBattery.find? "node-a").map
            NodeBatteryRow.pct = some .null := by
  refine ⟨steps_exchanges _ _, fun h ↦ ?_, by decide +kernel⟩
  have hx : ⟨.store (.upsertNodeBattery (.str "node-a") (.int 5) .none (.float (.fin 3))
      (.str "telemetry")), Except.ok ()⟩ ∈ deadBatteryTrace :=
    List.mem_of_getElem? (i := 0) rfl
  obtain halike | ⟨q, hq, hnone⟩ := (h.pct _ hx _ _ rfl).1.present rfl
  · cases halike
  · cases hnone

end MeshcoreRpc
