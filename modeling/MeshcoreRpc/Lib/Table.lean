import Mathlib.Data.List.Induction
import Mathlib.Data.List.Nodup
import Mathlib.Data.List.Basic
import Mathlib.Data.Set.Card

/-!
# Tables with a key

A table is a list of rows no two of which have the same key; the row order is
the order of insertion and updates happen in place.  This is a database table
with a primary key, and with pairs for rows it is an insertion-ordered
dictionary.  Every operation is described by what it does to `find?`.
-/

namespace Tables

variable {κ ρ : Type}

structure Table (key : ρ → κ) where
  rows : List ρ
  nodup : (rows.map key).Nodup

namespace Table

variable {key : ρ → κ}

theorem ext_rows {t t' : Table key} (h : t.rows = t'.rows) : t = t' := by
  cases t
  cases t'
  cases h
  rfl

def empty : Table key := ⟨[], List.nodup_nil⟩

variable [DecidableEq κ]

def find? (t : Table key) (k : κ) : Option ρ :=
  t.rows.find? fun r ↦ decide (key r = k)

theorem find?_eq_some {t : Table key} {k : κ} {r : ρ} :
    t.find? k = some r ↔ r ∈ t.rows ∧ key r = k := by
  constructor
  · intro h
    exact ⟨List.mem_of_find?_eq_some h, by simpa using List.find?_some h⟩
  · rintro ⟨hmem, rfl⟩
    obtain ⟨r', hr'⟩ := Option.isSome_iff_exists.mp
      (List.find?_isSome.mpr ⟨r, hmem, by simp⟩ :
        (t.rows.find? fun x ↦ decide (key x = key r)).isSome)
    have hkey : key r' = key r := by simpa using List.find?_some hr'
    have heq : r' = r :=
      List.inj_on_of_nodup_map t.nodup (List.mem_of_find?_eq_some hr') hmem hkey
    exact heq ▸ hr'

theorem find?_eq_none {t : Table key} {k : κ} :
    t.find? k = none ↔ ∀ r ∈ t.rows, key r ≠ k := by
  simp [find?]

theorem key_of_find? {t : Table key} {k : κ} {r : ρ} (h : t.find? k = some r) : key r = k :=
  (find?_eq_some.mp h).2

@[simp] theorem find?_empty (k : κ) : (empty : Table key).find? k = none := rfl

theorem filter_key (rows : List ρ) (h : (rows.map key).Nodup) (k : κ) :
    (rows.filter fun r ↦ decide (key r = k)) =
      (rows.find? fun r ↦ decide (key r = k)).toList := by
  induction rows with
  | nil => rfl
  | cons r rows ih =>
      obtain ⟨hnew, hrest⟩ := List.nodup_cons.mp h
      by_cases hk : key r = k
      · have hnone : rows.filter (fun r ↦ decide (key r = k)) = [] := by
          rw [List.filter_eq_nil_iff]
          intro r' hr' hk'
          exact hnew (List.mem_map.mpr ⟨r', hr', (of_decide_eq_true hk').trans hk.symm⟩)
        simp [hk, hnone]
      · simp [hk, ih hrest]

/-! ## Insertion -/

/-- Append a row whose key is free. -/
def append (t : Table key) (r : ρ) (h : t.find? (key r) = none) : Table key where
  rows := t.rows ++ [r]
  nodup := by
    rw [List.map_append, List.nodup_append]
    refine ⟨t.nodup, by simp, ?_⟩
    intro k hk k' hk' heq
    obtain ⟨r', hr', rfl⟩ := List.mem_map.mp hk
    have hk'r : k' = key r := by simpa using hk'
    exact find?_eq_none.mp h r' hr' (heq.trans hk'r)

theorem find?_append {t : Table key} {r : ρ} (h : t.find? (key r) = none) (k : κ) :
    (t.append r h).find? k = if k = key r then some r else t.find? k := by
  simp only [find?, append, List.find?_append]
  by_cases hk : k = key r
  · subst hk
    have hnone := h
    simp only [find?] at hnone
    simp [hnone]
  · have hne : ¬ key r = k := fun heq ↦ hk heq.symm
    simp [hk, hne]

/-- `INSERT OR IGNORE`: the flag says whether the row went in. -/
def insertOrIgnore (t : Table key) (r : ρ) : Table key × Bool :=
  if h : t.find? (key r) = none then (t.append r h, true) else (t, false)

theorem insertOrIgnore_of_none {t : Table key} {r : ρ} (h : t.find? (key r) = none) :
    t.insertOrIgnore r = (t.append r h, true) := by
  simp [insertOrIgnore, h]

theorem insertOrIgnore_of_some {t : Table key} {r old : ρ} (h : t.find? (key r) = some old) :
    t.insertOrIgnore r = (t, false) := by
  simp [insertOrIgnore, h]

theorem find?_insertOrIgnore {t : Table key} {r : ρ} (k : κ) :
    (t.insertOrIgnore r).1.find? k =
      if k = key r then some ((t.find? k).getD r) else t.find? k := by
  cases h : t.find? (key r) with
  | none =>
      rw [insertOrIgnore_of_none h, find?_append]
      by_cases hk : k = key r
      · subst hk
        simp [h]
      · simp [hk]
  | some old =>
      rw [insertOrIgnore_of_some h]
      by_cases hk : k = key r
      · subst hk
        simp [h]
      · simp [hk]

/-! ## Update in place -/

/-- Replace the row with the key `k` by its image under `f`. -/
def modify (t : Table key) (k : κ) (f : ρ → ρ) (hf : ∀ r, key (f r) = key r) : Table key where
  rows := t.rows.map fun r ↦ if key r = k then f r else r
  nodup := by
    have hkeys : (t.rows.map fun r ↦ if key r = k then f r else r).map key = t.rows.map key := by
      rw [List.map_map]
      apply List.map_congr_left
      intro r _
      by_cases h : key r = k <;> simp [h, hf]
    rw [hkeys]
    exact t.nodup

theorem find?_modify {t : Table key} {k : κ} {f : ρ → ρ} (hf : ∀ r, key (f r) = key r) (k' : κ) :
    (t.modify k f hf).find? k' = if k' = k then (t.find? k').map f else t.find? k' := by
  have hpred : (fun r ↦ decide (key (if key r = k then f r else r) = k')) =
      fun r ↦ decide (key r = k') := by
    funext r
    by_cases h : key r = k <;> simp [h, hf]
  simp only [find?, modify, List.find?_map, Function.comp_def, hpred]
  cases h : t.rows.find? fun r ↦ decide (key r = k') with
  | none => by_cases hk : k' = k <;> simp [hk]
  | some r =>
      have hkey : key r = k' := by simpa using List.find?_some h
      by_cases hk : k' = k <;> simp [hk, hkey]

/-- `INSERT .. ON CONFLICT DO UPDATE`: `merge old` is what replaces a row that
is already there. -/
def upsert (t : Table key) (r : ρ) (merge : ρ → ρ) (hm : ∀ old, key (merge old) = key old) :
    Table key :=
  if h : t.find? (key r) = none then t.append r h else t.modify (key r) merge hm

theorem find?_upsert {t : Table key} {r : ρ} {merge : ρ → ρ}
    (hm : ∀ old, key (merge old) = key old) (k : κ) :
    (t.upsert r merge hm).find? k =
      if k = key r then some ((t.find? k).elim r merge) else t.find? k := by
  cases h : t.find? (key r) with
  | none =>
      have hup : t.upsert r merge hm = t.append r h := by simp [upsert, h]
      rw [hup, find?_append]
      by_cases hk : k = key r
      · subst hk
        simp [h]
      · simp [hk]
  | some old =>
      have hup : t.upsert r merge hm = t.modify (key r) merge hm := by simp [upsert, h]
      rw [hup, find?_modify]
      by_cases hk : k = key r
      · subst hk
        simp [h]
      · simp [hk]

/-! ## Deletion -/

omit [DecidableEq κ] in
def deleteWhere (t : Table key) (p : ρ → Bool) : Table key where
  rows := t.rows.filter fun r ↦ !p r
  nodup := t.nodup.sublist (List.Sublist.map key List.filter_sublist)

theorem find?_deleteWhere {t : Table key} {p : ρ → Bool} (k : κ) :
    (t.deleteWhere p).find? k = (t.find? k).filter fun r ↦ !p r := by
  cases h : t.find? k with
  | none =>
      rw [Option.filter_none, find?_eq_none]
      intro r hr
      exact find?_eq_none.mp h r (List.mem_of_mem_filter hr)
  | some r =>
      obtain ⟨hmem, hkey⟩ := find?_eq_some.mp h
      by_cases hp : p r = true
      · rw [Option.filter_some, if_neg (by simp [hp]), find?_eq_none]
        intro r' hr' hkey'
        have hr'' := List.mem_filter.mp hr'
        have heq : r' = r := List.inj_on_of_nodup_map t.nodup hr''.1 hmem (hkey'.trans hkey.symm)
        simp [heq, hp] at hr''
      · rw [Option.filter_some, if_pos (by simp [hp]), find?_eq_some]
        exact ⟨List.mem_filter.mpr ⟨hmem, by simp [hp]⟩, hkey⟩

/-! ## Counting -/

theorem ncard_find? (t : Table key) (p : ρ → Bool) :
    {k | ∃ r, t.find? k = some r ∧ p r = true}.ncard = t.rows.countP p := by
  have hkeys : {k | ∃ r, t.find? k = some r ∧ p r = true} =
      (((t.rows.filter p).map key).toFinset : Set κ) := by
    ext k
    simp only [Set.mem_ofPred_eq, List.coe_toFinset, List.mem_map, List.mem_filter]
    constructor
    · rintro ⟨r, hr, hp⟩
      obtain ⟨hmem, hk⟩ := find?_eq_some.mp hr
      exact ⟨r, ⟨hmem, hp⟩, hk⟩
    · rintro ⟨r, ⟨hmem, hp⟩, hk⟩
      exact ⟨r, find?_eq_some.mpr ⟨hmem, hk⟩, hp⟩
  have hnodup : ((t.rows.filter p).map key).Nodup :=
    t.nodup.sublist (List.filter_sublist.map key)
  rw [hkeys, Set.ncard_coe_finset, List.toFinset_card_of_nodup hnodup, List.length_map,
    List.countP_eq_length_filter]

end Table

/-! ## Dictionaries -/

section Dictionaries

variable {ν : Type}

/-- An insertion-ordered dictionary. -/
abbrev Dict (κ ν : Type) := Table (Prod.fst : κ × ν → κ)

namespace Dict

variable [DecidableEq κ]

def get? (d : Dict κ ν) (k : κ) : Option ν := (d.find? k).map Prod.snd

/-- `d[k] = v`: in place when the key is there, at the end otherwise. -/
def set (d : Dict κ ν) (k : κ) (v : ν) : Dict κ ν :=
  d.upsert (k, v) (fun old ↦ (old.1, v)) fun _ ↦ rfl

def erase (d : Dict κ ν) (k : κ) : Dict κ ν :=
  d.deleteWhere fun r ↦ decide (r.1 = k)

/-- `d.update(kvs)`: later pairs win. -/
def update (d : Dict κ ν) (kvs : List (κ × ν)) : Dict κ ν :=
  kvs.foldl (fun d kv ↦ d.set kv.1 kv.2) d

def keys (d : Dict κ ν) : List κ := d.rows.map Prod.fst

theorem get?_eq_some {d : Dict κ ν} {k : κ} {v : ν} : d.get? k = some v ↔ (k, v) ∈ d.rows := by
  rw [get?, Option.map_eq_some_iff]
  constructor
  · rintro ⟨⟨k', v'⟩, hfind, rfl⟩
    obtain ⟨hmem, rfl⟩ := Table.find?_eq_some.mp hfind
    exact hmem
  · intro hmem
    exact ⟨(k, v), Table.find?_eq_some.mpr ⟨hmem, rfl⟩, rfl⟩

theorem mem_keys {d : Dict κ ν} {k : κ} : k ∈ d.keys ↔ ∃ v, d.get? k = some v := by
  simp only [keys, List.mem_map, get?_eq_some]
  constructor
  · rintro ⟨⟨k', v⟩, hmem, rfl⟩
    exact ⟨v, hmem⟩
  · rintro ⟨v, hmem⟩
    exact ⟨(k, v), hmem, rfl⟩

@[simp] theorem get?_empty (k : κ) : get? (Table.empty : Dict κ ν) k = none := rfl

theorem get?_set (d : Dict κ ν) (k : κ) (v : ν) (k' : κ) :
    (d.set k v).get? k' = if k' = k then some v else d.get? k' := by
  rw [get?, set, Table.find?_upsert]
  by_cases hk : k' = k
  · subst hk
    cases h : d.find? k' <;> simp
  · simp [hk, get?]

@[simp] theorem get?_set_self (d : Dict κ ν) (k : κ) (v : ν) : (d.set k v).get? k = some v := by
  simp [get?_set]

theorem get?_set_ne (d : Dict κ ν) {k k' : κ} (h : k' ≠ k) (v : ν) :
    (d.set k v).get? k' = d.get? k' := by
  simp [get?_set, h]

theorem get?_erase (d : Dict κ ν) (k k' : κ) :
    (d.erase k).get? k' = if k' = k then none else d.get? k' := by
  rw [get?, erase, Table.find?_deleteWhere]
  cases h : d.find? k' with
  | none => simp [get?, h]
  | some r =>
      have hkey : r.1 = k' := Table.key_of_find? h
      by_cases hk : k' = k <;> simp [get?, h, hk, hkey, Option.filter_some]

theorem get?_update (d : Dict κ ν) (kvs : List (κ × ν)) (k : κ) :
    (d.update kvs).get? k =
      (((kvs.filter fun kv ↦ decide (kv.1 = k)).getLast?).map Prod.snd).or (d.get? k) := by
  induction kvs using List.reverseRecOn with
  | nil => simp [update]
  | append_singleton kvs kv ih =>
      have hfold : d.update (kvs ++ [kv]) = (d.update kvs).set kv.1 kv.2 := by
        simp [update, List.foldl_append]
      rw [hfold, get?_set, List.filter_append]
      by_cases hk : kv.1 = k
      · simp [hk]
      · simp [hk, Ne.symm hk, ih]

theorem rows_set_new {d : Dict κ ν} {k : κ} (h : k ∉ d.keys) (v : ν) :
    (d.set k v).rows = d.rows ++ [(k, v)] := by
  have hnone : d.find? k = none := by
    rw [Table.find?_eq_none]
    rintro r hr rfl
    exact h (List.mem_map_of_mem hr)
  simp [set, Table.upsert, hnone, Table.append]

/-- Pairs whose keys are new and different go to the end as they are. -/
theorem rows_update_new {d : Dict κ ν} {kvs : List (κ × ν)} (hnew : ∀ kv ∈ kvs, kv.1 ∉ d.keys)
    (h : (kvs.map Prod.fst).Nodup) : (d.update kvs).rows = d.rows ++ kvs := by
  induction kvs using List.reverseRecOn with
  | nil => simp [update]
  | append_singleton kvs kv ih =>
      have hfold : d.update (kvs ++ [kv]) = (d.update kvs).set kv.1 kv.2 := by
        simp [update, List.foldl_append]
      rw [List.map_append, List.nodup_append] at h
      have hrows := ih (fun kv' hkv' ↦ hnew kv' (List.mem_append_left _ hkv')) h.1
      have hfree : kv.1 ∉ (d.update kvs).keys := by
        rw [keys, hrows, List.map_append, List.mem_append, not_or]
        refine ⟨hnew kv (by simp), fun hmem ↦ ?_⟩
        exact h.2.2 kv.1 hmem kv.1 (by simp) rfl
      rw [hfold, rows_set_new hfree, hrows, List.append_assoc]

theorem get?_update_filter (d e : Dict κ ν) (p : ν → Bool) (k : κ) :
    (d.update (e.rows.filter fun kv ↦ p kv.2)).get? k = ((e.get? k).filter p).or (d.get? k) := by
  have hone : (e.rows.filter fun kv ↦ p kv.2).filter (fun kv ↦ decide (kv.1 = k)) =
      (e.find? k).toList.filter fun kv ↦ p kv.2 := by
    rw [List.filter_comm, Table.filter_key e.rows e.nodup k]
    rfl
  rw [get?_update, hone]
  cases hfind : e.find? k with
  | none => simp [get?, hfind]
  | some kv =>
      by_cases hp : p kv.2 = true
      · simp [get?, hfind, hp, Option.filter_some]
      · simp [get?, hfind, hp, Option.filter_some]

end Dict

end Dictionaries

end Tables
