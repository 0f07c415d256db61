import MeshcoreRpc.Nodes.Coherence
import Mathlib.Data.Set.Finite.Lemmas

/-!
# Late reports

`last_seen` is kept by `MAX`; the rows of locations and batteries are replaced
by every write.  The greatest timestamp stays in such a row just as long as the
writes come in the order of their timestamps.
-/

namespace MeshcoreRpc

open Tables Coroutine Coro Interleaving

/-! ## The last of every prefix -/

section Prefixes

variable {γ κ : Type} [LinearOrder κ] {stamp : γ → κ} {l : List γ}

theorem exists_greatest (hl : l ≠ []) : ∃ g ∈ l, ∀ x ∈ l, stamp x ≤ stamp g := by
  obtain ⟨x, hx⟩ := List.exists_mem_of_ne_nil l hl
  exact Set.exists_max_image {x | x ∈ l} stamp l.finite_toSet ⟨x, hx⟩

theorem greatest_last_iff (hinj : Function.Injective stamp) :
    (∀ l', l' <+: l → ∀ g ∈ l', (∀ x ∈ l', stamp x ≤ stamp g) → l'.getLast? = some g) ↔
      l.Pairwise fun x y ↦ stamp x ≤ stamp y := by
  constructor
  · intro h
    induction l using List.reverseRecOn with
    | nil => exact .nil
    | append_singleton l x ih =>
        refine List.pairwise_append.mpr ⟨?_, List.pairwise_singleton .., fun y hy z hz ↦ ?_⟩
        · exact ih fun l' hl' ↦ h l' (hl'.trans (List.prefix_append l [x]))
        · obtain rfl := List.mem_singleton.mp hz
          obtain ⟨g, hg, hmax⟩ := @exists_greatest _ _ _ stamp (l ++ [z]) (by simp)
          have hlast := h _ List.prefix_rfl g hg hmax
          rw [List.getLast?_append_of_ne_nil _ (by simp), List.getLast?_singleton] at hlast
          cases hlast
          exact hmax y (List.mem_append_left _ hy)
  · rintro h l' ⟨rest, rfl⟩ g hg hmax
    have hprefix := (List.pairwise_append.mp h).1
    induction l' using List.reverseRecOn with
    | nil => cases hg
    | append_singleton l' x _ =>
        rw [List.getLast?_append_of_ne_nil _ (by simp), List.getLast?_singleton]
        rcases List.mem_append.mp hg with hg | hg
        · have hle := (List.pairwise_append.mp hprefix).2.2 g hg x (by simp)
          exact congrArg some (hinj (le_antisymm (hmax x (by simp)) hle))
        · exact congrArg some (List.mem_singleton.mp hg).symm

end Prefixes

/-! ## Timestamps -/

namespace View

def time : (v : View) → v.Report → PyVal
  | location _, r => .float r.fix.ts
  | battery _, r => r.ts
  | base, r => .float r.fix.ts

/-- The place of the stored timestamp in the order of the column. -/
def stamp (num : Numerals) (v : View) (r : v.Report) : SqlRank :=
  ((bindReal num (v.time r)).toOption.getD .null).rank

end View

theorem toPython_injective : Function.Injective SqlValue.toPython := by
  intro a b h
  cases a <;> cases b <;> simp_all [SqlValue.toPython]

theorem asReal_eq (num : Numerals) (v : PyVal) :
    asReal num v = ((bindReal num v).toOption.getD .null).toPython := by
  rw [asReal]
  cases (bindReal num v).toOption <;> rfl

theorem getKey_cons_self (kv : String × PyVal) (d : List (String × PyVal)) :
    getKey (kv :: d) kv.1 = kv.2 := by
  obtain ⟨k, v⟩ := kv
  simp [getKey]

theorem getKey_cons_ne {k : String} {kv : String × PyVal} {d : List (String × PyVal)}
    (hk : k ≠ kv.1) : getKey (kv :: d) k = getKey d k := by
  obtain ⟨k', v⟩ := kv
  simp [getKey, List.lookup_cons, beq_eq_false_iff_ne.mpr hk]

theorem getKey_absent {k : String} {d : List (String × PyVal)} (hk : k ∉ d.map Prod.fst) :
    getKey d k = .none := by
  induction d with
  | nil => rfl
  | cons kv d ih =>
      obtain ⟨hne, hrest⟩ := not_or.mp (List.mem_cons.not.mp hk)
      rw [getKey_cons_ne hne]
      exact ih hrest

theorem getKey_compactJson {k : String} {d : List (String × PyVal)}
    (hkeys : (d.map Prod.fst).Nodup) : getKey (compactJson d) k = getKey d k := by
  induction d with
  | nil => rfl
  | cons kv d ih =>
      obtain ⟨hnew, hkeys⟩ := List.nodup_cons.mp hkeys
      have hrest := ih hkeys
      by_cases hk : k = kv.1
      · subst hk
        have habsent : getKey d kv.1 = .none := getKey_absent hnew
        rw [habsent] at hrest
        cases hnone : kv.2.isNone with
        | true =>
            have hvalue : kv.2 = .none := by
              cases hkv : kv.2 <;> simp_all [PyVal.isNone]
            rw [getKey_cons_self, hvalue, ← hrest]
            simp [compactJson, hnone]
        | false =>
            rw [getKey_cons_self, ← getKey_cons_self kv (compactJson d)]
            simp [compactJson, hnone]
      · rw [getKey_cons_ne hk, ← hrest]
        cases hnone : kv.2.isNone with
        | true => simp [compactJson, hnone]
        | false =>
            rw [← getKey_cons_ne (d := compactJson d) hk]
            simp [compactJson, hnone]

theorem stamp_of_kept {num : Numerals} {v : View} {r r' : v.Report} (hv : v ≠ .base)
    (h : v.kept num r = v.kept num r') : v.stamp num r = v.stamp num r' := by
  have htime : asReal num (v.time r) = asReal num (v.time r') := by
    have hts := congrArg (getKey · "ts") h
    cases v with
    | base => exact absurd rfl hv
    | location node =>
        simp only [View.kept] at hts
        rw [getKey_compactJson (by simp), getKey_compactJson (by simp)] at hts
        exact hts
    | battery node =>
        simp only [View.kept] at hts
        rw [getKey_compactJson (by simp), getKey_compactJson (by simp)] at hts
        exact hts
  rw [asReal_eq, asReal_eq] at htime
  rw [View.stamp, View.stamp, toPython_injective htime]

/-! ## The registry rises -/

/-- No `last_seen` is lost or falls. -/
def Db.Rises (db db' : Db) : Prop :=
  ∀ n row, db.nodes.find? n = some row →
    ∃ row', db'.nodes.find? n = some row' ∧ row.lastSeen.rank ≤ row'.lastSeen.rank

theorem Db.Rises.of_eq {db db' : Db} (h : db'.nodes = db.nodes) : db.Rises db' := by
  intro n row hrow
  exact ⟨row, by rw [h, hrow], le_rfl⟩

theorem Db.Rises.trans {db db' db'' : Db} (h : db.Rises db') (h' : db'.Rises db'') :
    db.Rises db'' := by
  intro n row hrow
  obtain ⟨row', hrow', hle⟩ := h n row hrow
  obtain ⟨row'', hrow'', hle'⟩ := h' n row' hrow'
  exact ⟨row'', hrow'', hle.trans hle'⟩

theorem rises_markNodeSeen {num : Numerals} {now : ℚ} {db db' : Db} {nodeId ts : PyVal} {a : Unit}
    (h : (StoreCall.markNodeSeen nodeId ts).exec num now db = .ok (db', a)) : db.Rises db' := by
  obtain ⟨node, seen, _, _, hne, hrows⟩ := StoreCall.exec_markNodeSeen h
  intro n row hrow
  rw [hrows, hrow]
  by_cases hn : node = some n
  · rw [if_pos hn, NodeRow.marked, Option.elim_some]
    exact ⟨_, rfl, SqlValue.rank_le_max hne⟩
  · rw [if_neg hn]
    exact ⟨row, rfl, le_rfl⟩

theorem rises_exec {num : Numerals} {now : ℚ} {db db' : Db} {c : StoreCall} {a : c.Answer}
    (h : c.exec num now db = .ok (db', a)) : db.Rises db' := by
  cases c with
  | markNodeSeen nodeId ts => exact rises_markNodeSeen h
  | _ => exact .of_eq ((StoreCall.exec_same h).nodes rfl)

theorem performed_rises {num : Numerals} {e : Eff} {r : e.Answer} {s s' : Stage}
    (h : e.Performed num r s s') : s.db.Rises s'.db := by
  induction e with
  | store c =>
      obtain ⟨_, now, ⟨a, _, hexec⟩ | ⟨_, hdb, _⟩⟩ := h
      · exact rises_exec hexec
      · exact .of_eq (by rw [hdb])
  | publish => exact .of_eq (by rw [h.2.1])
  | underTtl ttlS e ih =>
      cases r with
      | some r => exact ih h
      | none =>
          obtain rfl | ⟨r, hr⟩ := h
          · exact .of_eq rfl
          · exact ih hr
  | afterTtl e ih => exact ih h
  | _ =>
      cases h
      exact .of_eq rfl

/-! ## The greatest timestamp -/

section Runs

variable {num : Numerals} {ι : Type} [DecidableEq ι] {v : View} {report : ι → v.Report}
  {s₀ s : Stage} {tr : List (Event ι Eff.Answer ℚ Empty)} {p : ι → Prog Unit}

/-- In every state on the way the row is that of the report with the greatest
timestamp so far. -/
def KeepsNewest (num : Numerals) (v : View) (report : ι → v.Report) (s₀ : Stage)
    (tr : List (Event ι Eff.Answer ℚ Empty)) : Prop :=
  ∀ tr' p s, tr' <+: tr → Run (Undisturbed num ι) (fun i ↦ v.prog num (report i)) s₀ tr' p s →
    ∀ g ∈ writers v tr',
      (∀ i ∈ writers v tr', v.stamp num (report i) ≤ v.stamp num (report g)) →
        v.stored s.db = some (v.kept num (report g))

theorem rises_run (h : Run (Undisturbed num ι) (fun i ↦ v.prog num (report i)) s₀ tr p s) :
    s₀.db.Rises s.db := by
  induction h with
  | start => exact .of_eq rfl
  | task i now e next r past waiting answered ih => exact ih.trans (performed_rises answered)
  | env now a past acted ih => exact a.elim

theorem keepsNewest_iff (hv : v ≠ .base)
    (h : Run (Undisturbed num ι) (fun i ↦ v.prog num (report i)) s₀ tr p s)
    (hdistinct : Function.Injective fun i ↦ v.stamp num (report i)) :
    s₀.db.Rises s.db ∧ (KeepsNewest num v report s₀ tr ↔
      (writers v tr).Pairwise fun i j ↦ v.stamp num (report i) ≤ v.stamp num (report j)) := by
  refine ⟨rises_run h, ?_⟩
  rw [← greatest_last_iff hdistinct]
  constructor
  · rintro hkeeps l' ⟨rest, hrest⟩ g hg hmax
    obtain ⟨tr', after, rfl, rfl, _⟩ := List.filterMap_eq_append_iff.mp hrest.symm
    obtain ⟨p', s', hrun⟩ := h.left
    have hnewest := hkeeps tr' p' s' (List.prefix_append ..) hrun g hg hmax
    have hlast := List.getLast?_eq_some_getLast (List.ne_nil_of_mem hg)
    rw [(follows_run hrun).1] at hnewest
    change (writers v tr').getLast? = _ at hlast
    rw [hlast, Option.elim_some] at hnewest
    have hsame := hdistinct (stamp_of_kept hv (Option.some_injective _ hnewest))
    exact hlast.trans (congrArg some hsame)
  · rintro hascends tr' p' s' ⟨after, rfl⟩ hrun g hg hmax
    have hprefix : writers v tr' <+: writers v (tr' ++ after) :=
      ⟨writers v after, (List.filterMap_append ..).symm⟩
    rw [(follows_run hrun).1, hascends _ hprefix g hg hmax, Option.elim_some]

end Runs

/-! ## Two calls for one node -/

/-- Two reports of one place, with these timestamps. -/
def dated (first second : ℚ) (i : Bool) : LocationReport :=
  ⟨{ lat := .fin 1, lon := .fin 0, ts := .fin (if i then second else first) }, "report", none, none⟩

theorem stamp_dated (first second : ℚ) (i : Bool) :
    (View.location "node-a").stamp .plain (dated first second i) =
      (SqlValue.real (if i then second else first)).rank := rfl

theorem real_le_real {p q : ℚ} : (SqlValue.real p).rank ≤ (SqlValue.real q).rank ↔ p ≤ q := by
  simp [SqlValue.rank]

theorem real_rank_injective {p q : ℚ} (h : (SqlValue.real p).rank = (SqlValue.real q).rank) :
    p = q :=
  le_antisymm (real_le_real.mp h.le) (real_le_real.mp h.ge)

theorem stamp_dated_injective {first second : ℚ} (h : first ≠ second) :
    Function.Injective fun i ↦ (View.location "node-a").stamp .plain (dated first second i) := by
  intro i j hij
  have heq := real_rank_injective hij
  cases i <;> cases j <;> simp_all

theorem ascending_kept : KeepsNewest .plain (.location "node-a") (dated 5 9) .blank
    (twoCalls (dated 5 9) inOrder).1 := by
  refine (keepsNewest_iff (by simp) (twoCalls_run (dated 5 9) inOrder (by decide +kernel))
    (stamp_dated_injective (by norm_num))).2.mpr ?_
  have hwriters : writers (.location "node-a") (twoCalls (dated 5 9) inOrder).1 =
      [false, true] := by
    decide +kernel
  rw [hwriters]
  refine List.pairwise_pair.mpr ?_
  rw [stamp_dated, stamp_dated, real_le_real]
  norm_num

/-- A report that comes late replaces a newer one. -/
theorem late_replaces : ∃ tr p s,
    Run (Undisturbed .plain Bool) (fun i ↦ (View.location "node-a").prog .plain (dated 9 5 i))
      .blank tr p s ∧ ¬ KeepsNewest .plain (.location "node-a") (dated 9 5) .blank tr := by
  have hrun := twoCalls_run (dated 9 5) inOrder (by decide +kernel)
  refine ⟨_, _, _, hrun, fun hkeeps ↦ ?_⟩
  have hwriters : writers (.location "node-a") (twoCalls (dated 9 5) inOrder).1 =
      [false, true] := by
    decide +kernel
  have hnewest := hkeeps _ _ _ List.prefix_rfl hrun false (by rw [hwriters]; simp) fun i _ ↦ by
    rw [stamp_dated, stamp_dated, real_le_real]
    cases i <;> norm_num
  rw [(follows_run hrun).1, hwriters] at hnewest
  have hstamp := stamp_of_kept (by simp) (Option.some_injective _ hnewest)
  rw [stamp_dated, stamp_dated] at hstamp
  have heq := real_rank_injective hstamp
  norm_num at heq

end MeshcoreRpc
