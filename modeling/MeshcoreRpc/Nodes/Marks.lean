import MeshcoreRpc.Handlers
import Mathlib.Data.String.Basic
import Mathlib.Data.Sum.Order
import Mathlib.Order.WithBot

/-!
# The registry of nodes

`mark_node_seen` is the only writer of `nodes`.  It keeps the greater of the
stored and the new `last_seen`, in the order SQLite has on mixed values.
-/

namespace MeshcoreRpc

open Tables Coroutine Coro

variable {num : Numerals} {now : ℚ} {db db' : Db}

/-! ## The order of stored values -/

/-- Numbers below texts, each in their own order. -/
abbrev SqlRank := WithBot (WithTop ℚ) ⊕ₗ String

namespace SqlValue

def rank : SqlValue → SqlRank
  | null => Sum.inlₗ ⊥
  | integer n => Sum.inlₗ ((n : ℚ) : WithTop ℚ)
  | real q => Sum.inlₗ ((q : ℚ) : WithTop ℚ)
  | realInf true => Sum.inlₗ ⊥
  | realInf false => Sum.inlₗ ((⊤ : WithTop ℚ) : WithBot (WithTop ℚ))
  | text s => Sum.inrₗ s

theorem minusInf_lt {b : SqlValue} (hb : b ≠ null) (hinf : b ≠ realInf true) :
    (realInf true).rank < b.rank := by
  cases b with
  | null => exact absurd rfl hb
  | text s => exact Sum.Lex.inl_lt_inr _ _
  | realInf negative =>
      cases negative with
      | true => exact absurd rfl hinf
      | false => exact Sum.Lex.inl_lt_inl_iff.mpr (WithBot.bot_lt_coe _)
  | _ => exact Sum.Lex.inl_lt_inl_iff.mpr (WithBot.bot_lt_coe _)

theorem max_eq_ite {a b : SqlValue} (ha : a ≠ null) (hb : b ≠ null) :
    a.max b = if a.rank < b.rank then b else a := by
  cases a with
  | null => exact absurd rfl ha
  | realInf negative =>
      cases negative with
      | true =>
          have hmax : (realInf true).max b = b := by
            cases b with
            | null => exact absurd rfl hb
            | _ => rfl
          by_cases hinf : b = realInf true
          · rw [hmax, hinf, ite_self]
          · rw [hmax, if_pos (minusInf_lt hb hinf)]
      | false =>
          cases b with
          | null => exact absurd rfl hb
          | realInf negative => cases negative <;> simp [SqlValue.max, rank]
          | _ => simp [SqlValue.max, rank]
  | _ =>
      cases b with
      | null => exact absurd rfl hb
      | realInf negative => cases negative <;> simp [SqlValue.max, rank]
      | _ => simp [SqlValue.max, rank]

theorem rank_le_max {a b : SqlValue} (hb : b ≠ null) : a.rank ≤ (a.max b).rank := by
  by_cases ha : a = null
  · subst ha
    exact le_rfl
  · rw [max_eq_ite ha hb]
    by_cases hlt : a.rank < b.rank
    · rw [if_pos hlt]
      exact hlt.le
    · rw [if_neg hlt]

theorem le_rank_max {a b : SqlValue} (ha : a ≠ null) (hb : b ≠ null) :
    b.rank ≤ (a.max b).rank := by
  rw [max_eq_ite ha hb]
  by_cases hlt : a.rank < b.rank
  · rw [if_pos hlt]
  · rw [if_neg hlt]
    exact not_lt.mp hlt

theorem max_eq_or {a b : SqlValue} (hb : b ≠ null) : a.max b = a ∨ a.max b = b := by
  by_cases ha : a = null
  · subst ha
    exact .inl rfl
  · rw [max_eq_ite ha hb]
    by_cases hlt : a.rank < b.rank
    · exact .inr (if_pos hlt)
    · exact .inl (if_neg hlt)

end SqlValue

theorem SqlValue.max_real (p q : ℚ) : (real p).max (real q) = real (Max.max p q) := by
  by_cases hlt : p < q
  · simp [SqlValue.max, hlt, max_eq_right hlt.le]
  · simp [SqlValue.max, hlt, max_eq_left (not_lt.mp hlt)]

theorem notNull_ok {v w : SqlValue} (h : notNull v = .ok w) : w = v ∧ v ≠ .null := by
  unfold notNull at h
  split at h
  · cases h
  · next hv =>
      cases h
      exact ⟨rfl, hv⟩

@[simp] theorem nodeKey_str (s : String) : nodeKey num (.str s) = .ok (some s) := rfl

/-- The row of a node after it has been marked. -/
def NodeRow.marked (node : String) (seen : SqlValue) (old : Option NodeRow) : NodeRow :=
  ⟨node, old.elim seen fun row ↦ row.lastSeen.max seen⟩

namespace StoreCall

theorem exec_markNodeSeen {nodeId ts : PyVal} {a : Unit}
    (h : (markNodeSeen nodeId ts).exec num now db = .ok (db', a)) :
    ∃ node seen, nodeKey num nodeId = .ok node ∧ bindReal num ts = .ok seen ∧ seen ≠ .null ∧
      ∀ k, db'.nodes.find? k =
        if node = some k then some (.marked k seen (db.nodes.find? k)) else db.nodes.find? k := by
  obtain ⟨n, hn⟩ := atomically_execute h
  obtain ⟨node, hnode, hn⟩ := except_bind_ok hn
  obtain ⟨seen, hseen, hn⟩ := except_bind_ok hn
  obtain ⟨bound, hbound, hnull⟩ := except_bind_ok hseen
  obtain ⟨rfl, hne⟩ := notNull_ok hnull
  cases hn
  refine ⟨node, seen, hnode, hbound, hne, fun k ↦ ?_⟩
  cases node with
  | none => rfl
  | some s =>
      simp only [upsertUnder, Table.find?_upsert, Option.some.injEq, eq_comm (a := s)]
      by_cases hk : k = s
      · subst hk
        cases hfind : db.nodes.find? k with
        | none => simp [NodeRow.marked]
        | some row =>
            have hkey : row.nodeId = k := Table.key_of_find? hfind
            simp [NodeRow.marked, hkey]
      · simp [hk]

end StoreCall

theorem Db.selectNode_str {ρ : Type} {key : ρ → String} (t : Table key) (node : String) :
    selectNode num t (.str node) = .ok (t.find? node) := rfl

theorem Db.syncGetNodeLocation_str (node : String) :
    db.syncGetNodeLocation num (.str node) = .ok ((db.nodeLocations.find? node).map fun row ↦
      [("lat", row.lat.toPython), ("lon", row.lon.toPython), ("alt", row.alt.toPython),
        ("acc", row.acc.toPython), ("fix", row.fix.toPython), ("spd", row.spd.toPython),
        ("hdg", row.hdg.toPython), ("ts", row.ts.toPython), ("source", row.source.toPython),
        ("rssi", row.rssi.toPython), ("snr", row.snr.toPython)]) := by
  rw [syncGetNodeLocation, selectNode_str]
  cases db.nodeLocations.find? node <;> rfl

theorem Db.syncGetNodeBattery_str (node : String) :
    db.syncGetNodeBattery num (.str node) = .ok ((db.nodeBattery.find? node).map fun row ↦
      [("pct", row.pct.toPython), ("voltage", row.voltage.toPython), ("ts", row.ts.toPython),
        ("source", row.source.toPython)]) := by
  rw [syncGetNodeBattery, selectNode_str]
  cases db.nodeBattery.find? node <;> rfl

theorem Db.syncGetLastSeen_str (node : String) :
    db.syncGetLastSeen num (.str node) = (db.nodes.find? node).elim (.ok none) fun row ↦
      (row.lastSeen.toPython.toFloat num).map some := by
  simp only [syncGetLastSeen, selectNode, nodeKey_str]
  cases hfind : db.nodes.find? node with
  | none => simp [Bind.bind, Except.bind, Pure.pure, Except.pure, hfind]
  | some row =>
      cases hfloat : row.lastSeen.toPython.toFloat num with
      | error err =>
          simp [Bind.bind, Except.bind, Pure.pure, Except.pure, hfind, hfloat, Except.map]
      | ok f => simp [Bind.bind, Except.bind, Pure.pure, Except.pure, hfind, hfloat, Except.map]

end MeshcoreRpc
