import MeshcoreRpc.Nodes.Views
import MeshcoreRpc.Nodes.Refresh

/-!
# The retained copy against the stored one

Once concurrent calls of a view have ended, its row is that of the last to
write and its topic holds what the last to publish said.
-/

namespace MeshcoreRpc

open Tables Coroutine Coro Interleaving

/-- The value of a finite number. -/
def PyVal.number? : PyVal → Option ℚ
  | bool b => some (if b then 1 else 0)
  | int n => some n
  | float (.fin q) => some q
  | _ => Option.none

/-- The same value, or two spellings of one number. -/
def PyVal.Alike (v w : PyVal) : Prop := v = w ∨ ∃ q, v.number? = some q ∧ w.number? = some q

/-- The same fields with the same values. -/
def SameFields (d d' : List (String × PyVal)) : Prop :=
  List.Forall₂ (fun kv kv' ↦ kv.1 = kv'.1 ∧ kv.2.Alike kv'.2) d d'

namespace View

/-- The topic and the row describe the same report. -/
def Coherent (v : View) (s : Stage) : Prop :=
  ∃ told kept, s.last v.topic = some told ∧ v.stored s.db = some kept ∧ SameFields told kept

/-- What the report `p` publishes is what the columns make of the report `w`. -/
def Agree (num : Numerals) (v : View) (w p : v.Report) : Prop :=
  SameFields (compactJson (v.body p)) (v.kept num w)

/-- The columns take the numbers of the report as they are. -/
def Plain : (v : View) → v.Report → Prop
  | location _, r =>
    (r.fix.lat ≠ .nan ∧ r.fix.lon ≠ .nan ∧ r.fix.ts ≠ .nan) ∧
      (∀ f ∈ [r.fix.alt, r.fix.acc, r.fix.spd, r.fix.hdg, r.snr], f ≠ some .nan) ∧
        ∀ n ∈ [r.fix.fix, r.rssi], ∀ m, n = some m → -2 ^ 63 ≤ m ∧ m < 2 ^ 63
  | battery _, r =>
    (∃ t, t ≠ .nan ∧ r.ts = .float t) ∧
      (∃ voltage, voltage ≠ some .nan ∧ r.voltage = optReal voltage) ∧
        ∃ pct, (∀ m, pct = some m → -2 ^ 63 ≤ m ∧ m < 2 ^ 63) ∧ r.pct = optInteger pct
  | base, _ => True

variable {num : Numerals}

theorem asReal_float {f : PyFloat} (hf : f ≠ .nan) : asReal num (.float f) = .float f := by
  cases f with
  | nan => exact absurd rfl hf
  | inf negative => rfl
  | fin q => rfl

theorem asReal_optReal {f : Option PyFloat} (hf : f ≠ some .nan) :
    asReal num (optReal f) = optReal f := by
  cases f with
  | none => rfl
  | some f => exact asReal_float fun hnan ↦ hf (congrArg some hnan)

theorem asInteger_optInteger {n : Option ℤ} (hn : ∀ m, n = some m → -2 ^ 63 ≤ m ∧ m < 2 ^ 63) :
    asInteger num (optInteger n) = optInteger n := by
  cases n with
  | none => rfl
  | some m =>
      have hbind : SqlValue.bind (.int m) = .ok (.integer m) := if_pos (hn m rfl)
      simp only [asInteger, optInteger, bindInteger, hbind]
      rfl

theorem asText_str (s : String) : asText num (.str s) = .str s := rfl

theorem sameFields_refl (d : List (String × PyVal)) : SameFields d d :=
  List.forall₂_same.mpr fun _ _ ↦ ⟨rfl, .inl rfl⟩

/-- The columns keep a report of plain numbers as it is published. -/
theorem kept_eq {v : View} {r : v.Report} (h : v.Plain r) :
    v.kept num r = compactJson (v.body r) := by
  cases v with
  | location node =>
      obtain ⟨⟨hlat, hlon, hts⟩, hreal, hinteger⟩ := h
      simp only [List.forall_mem_cons, List.not_mem_nil, false_implies, implies_true, and_true]
        at hreal hinteger
      obtain ⟨halt, hacc, hspd, hhdg, hsnr⟩ := hreal
      obtain ⟨hfix, hrssi⟩ := hinteger
      simp only [kept, body, asReal_float hlat, asReal_float hlon, asReal_float hts,
        asReal_optReal halt, asReal_optReal hacc, asReal_optReal hspd, asReal_optReal hhdg,
        asReal_optReal hsnr, asInteger_optInteger hfix, asInteger_optInteger hrssi, asText_str]
  | battery node =>
      obtain ⟨⟨t, ht, hts⟩, ⟨voltage, hvoltage, hv⟩, pct, hpct, hp⟩ := h
      simp only [kept, body, hts, hv, hp, asReal_float ht, asReal_optReal hvoltage,
        asInteger_optInteger hpct, asText_str]
  | base => rfl

theorem agree_self {v : View} {r : v.Report} (h : v.Plain r) : v.Agree num r r := by
  rw [Agree, kept_eq h]
  exact sameFields_refl _

end View

section Runs

variable {num : Numerals} {ι : Type} [DecidableEq ι] {v : View} {report : ι → v.Report}
  {s₀ s : Stage} {tr : List (Event ι Eff.Answer ℚ Empty)} {p : ι → Prog Unit}

/-- When all calls have ended, the copies agree just when the last call to write and
the last to publish do. -/
theorem coherent_iff [Nonempty ι]
    (h : Run (Undisturbed num ι) (fun i ↦ v.prog num (report i)) s₀ tr p s)
    (hdone : ∀ i, ∃ o, p i = ofOutcome o) :
    v.Coherent s ↔ ∃ writer publisher, (writers v tr).getLast? = some writer ∧
      (publishers v tr).getLast? = some publisher ∧
        v.Agree num (report writer) (report publisher) := by
  obtain ⟨i⟩ := ‹Nonempty ι›
  obtain ⟨o, ho⟩ := hdone i
  obtain ⟨hwrote, hpublished⟩ := mem_of_finished h ho
  obtain ⟨hstored, hlast⟩ := follows_run h
  have hwriter := List.getLast?_eq_some_getLast (List.ne_nil_of_mem hwrote)
  have hpublisher := List.getLast?_eq_some_getLast (List.ne_nil_of_mem hpublished)
  rw [hwriter, Option.elim_some] at hstored
  rw [hpublisher, Option.elim_some] at hlast
  constructor
  · rintro ⟨told, kept, htold, hkept, hsame⟩
    rw [hlast] at htold
    rw [hstored] at hkept
    cases htold
    cases hkept
    exact ⟨_, _, hwriter, hpublisher, hsame⟩
  · rintro ⟨writer', publisher', hwriter', hpublisher', hagree⟩
    rw [hwriter] at hwriter'
    rw [hpublisher] at hpublisher'
    cases hwriter'
    cases hpublisher'
    exact ⟨_, _, hlast, hstored, hagree⟩

end Runs

/-! ## Two calls for one node -/

/-- What two calls make of the schedule, from nothing stored and nothing published. -/
def twoCalls (report : Bool → LocationReport) (schedule : List (Bool × ℚ)) :
    List (Event Bool Eff.Answer ℚ Empty) × (Bool → Prog Unit) × Stage :=
  play (fun _ _ ↦ Stage.respond) schedule
    (fun i ↦ (View.location "node-a").prog .plain (report i), .blank)

theorem twoCalls_run (report : Bool → LocationReport) (schedule : List (Bool × ℚ))
    (h : goodPlay (fun _ _ ↦ Stage.respond) Stage.succeeds schedule
      (fun i ↦ (View.location "node-a").prog .plain (report i), .blank) = true) :
    Run (Undisturbed .plain Bool) (fun i ↦ (View.location "node-a").prog .plain (report i)) .blank
      (twoCalls report schedule).1 (twoCalls report schedule).2.1 (twoCalls report schedule).2.2 :=
  goodPlay_run (fun _ _ e s hgood ↦ respond_performed e s hgood) h rfl

theorem twoCalls_done (report : Bool → LocationReport) (schedule : List (Bool × ℚ))
    (h : [false, true].all (fun i ↦ ((twoCalls report schedule).2.1 i).outcome?.isSome) = true)
    (i : Bool) : ∃ o, (twoCalls report schedule).2.1 i = ofOutcome o := by
  have hall := List.all_eq_true.mp h i (by cases i <;> simp)
  obtain ⟨o, ho⟩ := Option.isSome_iff_exists.mp hall
  exact ⟨o, eq_ofOutcome ho⟩

def inOrder : List (Bool × ℚ) := List.replicate 9 (false, 0) ++ List.replicate 9 (true, 0)

/-- Two reports a degree of latitude apart. -/
def twoReports (i : Bool) : LocationReport :=
  ⟨{ lat := .fin (if i then 2 else 1), lon := .fin 0, ts := .fin 5 }, "report", none, none⟩

theorem inOrder_coherent : (View.location "node-a").Coherent (twoCalls twoReports inOrder).2.2 := by
  refine (coherent_iff (twoCalls_run twoReports inOrder (by decide +kernel))
    (twoCalls_done twoReports inOrder (by decide +kernel))).mpr
      ⟨true, true, by decide +kernel, by decide +kernel, ?_⟩
  refine View.agree_self ⟨⟨by decide, by decide, by decide⟩, by decide, ?_⟩
  simp [twoReports]

/-- The first call writes, the second runs to its end, the first publishes. -/
def overtaken : List (Bool × ℚ) :=
  (false, 0) :: List.replicate 9 (true, 0) ++ List.replicate 8 (false, 0)

theorem overtaken_diverges : ∃ tr p s,
    Run (Undisturbed .plain Bool) (fun i ↦ (View.location "node-a").prog .plain (twoReports i))
      .blank tr p s ∧ (∀ i, ∃ o, p i = ofOutcome o) ∧ ¬ (View.location "node-a").Coherent s := by
  have hrun := twoCalls_run twoReports overtaken (by decide +kernel)
  refine ⟨_, _, _, hrun, twoCalls_done twoReports overtaken (by decide +kernel), ?_⟩
  rintro ⟨told, kept, htold, hkept, hsame⟩
  obtain ⟨hstored, hlast⟩ := follows_run hrun
  have hwriter : (writers (.location "node-a") (twoCalls twoReports overtaken).1).getLast? =
      some true := by
    decide +kernel
  have hpublisher : (publishers (.location "node-a") (twoCalls twoReports overtaken).1).getLast? =
      some false := by
    decide +kernel
  rw [hwriter, hkept] at hstored
  rw [hpublisher, htold] at hlast
  cases hstored
  cases hlast
  obtain _ | ⟨_, hrest⟩ := hsame
  obtain _ | ⟨⟨_, hlat⟩, _⟩ := hrest
  have hlat : PyVal.Alike (.float (.fin 1)) (.float (.fin 2)) := hlat
  simp [PyVal.Alike, PyVal.number?] at hlat

end MeshcoreRpc
