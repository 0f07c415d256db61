import MeshcoreRpc.Lib.Interleaving
import Mathlib.Algebra.Order.Group.Int
import Mathlib.Data.Set.Card

/-!
# Shared cells

Two kinds of cell that the tasks of a pool share.  A gauge goes up when a task
enters a section and down, though not below zero, when it leaves; if no task
enters twice, it is the number of tasks inside.  A register holds what was
written last.
-/

namespace Interleaving

open Coroutine Coro

variable {ι E τ X : Type} {R : E → Type} {ε α : Type}

/-! ## Gauges -/

section Gauge

variable (mark : E → Option Bool)

/-- The entries (`true`) and exits (`false`) of a trace. -/
def marks (tr : List (Exchange R)) : List Bool := tr.filterMap fun x ↦ mark x.1

theorem marks_append (tr tr' : List (Exchange R)) :
    marks mark (tr ++ tr') = marks mark tr ++ marks mark tr' := List.filterMap_append

theorem marks_singleton (x : Exchange R) : marks mark [x] = (mark x.1).toList := by
  cases hx : mark x.1 with
  | none => simp [marks, hx]
  | some b => simp [marks, hx]

/-- The gauge after an entry, an exit, or neither. -/
def tally (c : ℤ) : Option Bool → ℤ
  | none => c
  | some true => c + 1
  | some false => max 0 (c - 1)

def Gauge : World ℤ ι R τ X
  | c, .task _ _ x, c' => c' = tally c (mark x.1)
  | c, .env _ _, c' => c' = c

/-- At most one entry, and no exit before it. -/
def Brackets (x : Coro R ε α) : Prop :=
  ∀ tr y, Steps x tr y → marks mark tr <+: [true, false]

theorem prefix_enter {l : List Bool} (h : l ++ [true] <+: [true, false]) : l = [] := by
  cases l with
  | nil => rfl
  | cons b l =>
      have hlength := h.length_le
      simp only [List.cons_append, List.length_cons, List.length_append, List.length_nil] at hlength
      obtain rfl : l = [] := by
        apply List.eq_nil_of_length_eq_zero
        omega
      obtain ⟨rest, hrest⟩ := h
      simp at hrest

theorem prefix_leave {l : List Bool} (h : l ++ [false] <+: [true, false]) : l = [true] := by
  cases l with
  | nil =>
      obtain ⟨rest, hrest⟩ := h
      simp at hrest
  | cons b l =>
      have hlength := h.length_le
      simp only [List.cons_append, List.length_cons, List.length_append, List.length_nil] at hlength
      obtain rfl : l = [] := by
        apply List.eq_nil_of_length_eq_zero
        omega
      obtain ⟨rest, hrest⟩ := h
      obtain rfl : b = true := (List.cons.inj hrest).1
      rfl

variable [DecidableEq ι] {mark} {p₀ p : ι → Coro R ε α} {c : ℤ} {tr : List (Event ι R τ X)}

/-- The tasks that have entered and not left. -/
def insiders (mark : E → Option Bool) (tr : List (Event ι R τ X)) : Set ι :=
  {i | marks mark (exchangesOf i tr) = [true]}

theorem mem_insiders {i : ι} : i ∈ insiders mark tr ↔ marks mark (exchangesOf i tr) = [true] :=
  Iff.rfl

theorem finite_insiders (mark : E → Option Bool) (tr : List (Event ι R τ X)) :
    (insiders mark tr).Finite := by
  have htasks : {i | ∃ now x, .task i now x ∈ tr}.Finite := by
    induction tr with
    | nil => simp
    | cons ev tr ih =>
        cases ev with
        | env now a => simpa using ih
        | task j now x =>
            refine (ih.insert j).subset fun i ⟨t, y, hmem⟩ ↦ ?_
            rcases List.mem_cons.mp hmem with heq | hmem
            · cases heq
              exact Set.mem_insert ..
            · exact Set.mem_insert_of_mem _ ⟨t, y, hmem⟩
  refine htasks.subset fun i hi ↦ ?_
  rw [mem_insiders] at hi
  cases htr : exchangesOf i tr with
  | nil => simp [htr, marks] at hi
  | cons x rest =>
      obtain ⟨now, hmem⟩ := mem_exchangesOf.mp (htr ▸ List.mem_cons_self)
      exact ⟨now, x, hmem⟩

/-- Only the task of the event moves. -/
theorem mem_insiders_snoc {i j : ι} {now : τ} {x : Exchange R} :
    i ∈ insiders mark (tr ++ [.task j now x]) ↔
      if i = j then marks mark (exchangesOf j tr) ++ (mark x.1).toList = [true]
      else i ∈ insiders mark tr := by
  by_cases hij : i = j
  · subst hij
    rw [mem_insiders, exchangesOf_append, exchangesOf_task_self, exchangesOf_nil, marks_append,
      marks_singleton, if_pos rfl]
  · rw [mem_insiders, exchangesOf_append, exchangesOf_task_ne (Ne.symm hij), exchangesOf_nil,
      List.append_nil, if_neg hij, mem_insiders]

theorem insiders_env {now : τ} {a : X} :
    insiders mark (tr ++ [.env now a]) = insiders mark tr := by
  ext i
  rw [mem_insiders, exchangesOf_append, exchangesOf_env, exchangesOf_nil, List.append_nil,
    mem_insiders]

theorem insiders_unmarked {j : ι} {now : τ} {x : Exchange R} (hx : mark x.1 = none) :
    insiders mark (tr ++ [.task j now x]) = insiders mark tr := by
  ext i
  rw [mem_insiders_snoc, hx, Option.toList_none, List.append_nil]
  split
  · next hij => rw [hij, mem_insiders]
  · exact Iff.rfl

theorem insiders_enter {j : ι} {now : τ} {x : Exchange R} (hx : mark x.1 = some true)
    (hout : marks mark (exchangesOf j tr) = []) :
    insiders mark (tr ++ [.task j now x]) = insert j (insiders mark tr) := by
  ext i
  rw [mem_insiders_snoc, hx, hout, Set.mem_insert_iff]
  by_cases hij : i = j
  · simp [hij]
  · simp [hij]

theorem insiders_leave {j : ι} {now : τ} {x : Exchange R} (hx : mark x.1 = some false)
    (hin : marks mark (exchangesOf j tr) = [true]) :
    insiders mark (tr ++ [.task j now x]) = insiders mark tr \ {j} := by
  ext i
  rw [mem_insiders_snoc, hx, hin, Set.mem_sdiff, Set.mem_singleton_iff]
  by_cases hij : i = j
  · simp [hij]
  · simp [hij]

/-- The gauge is the number of tasks inside. -/
theorem gauge_counts (hbrackets : ∀ i, Brackets mark (p₀ i)) (h : Run (Gauge mark) p₀ 0 tr p c) :
    c = (insiders mark tr).ncard := by
  induction h with
  | start => simp [insiders, marks]
  | env now a past acted ih =>
      rw [insiders_env, ← ih]
      exact acted
  | task j now e next r past waiting answered ih =>
      have hprefix := hbrackets j _ _ ((Run.task j now e next r past waiting answered).steps j)
      rw [exchangesOf_append, exchangesOf_task_self, exchangesOf_nil, marks_append,
        marks_singleton] at hprefix
      rw [show _ = tally _ (mark e) from answered, ih]
      cases he : mark e with
      | none =>
          rw [insiders_unmarked he]
          rfl
      | some b =>
          rw [he] at hprefix
          cases b with
          | true =>
              have hbefore := prefix_enter hprefix
              rw [insiders_enter he hbefore, Set.ncard_insert_of_notMem _ (finite_insiders ..)]
              · push_cast
                rfl
              · simp [mem_insiders, hbefore]
          | false =>
              have hbefore := prefix_leave hprefix
              rw [insiders_leave he hbefore]
              have hone := Set.ncard_sdiff_singleton_add_one (mem_insiders.mpr hbefore)
                (finite_insiders ..)
              rw [tally, ← hone]
              push_cast
              omega

end Gauge

/-! ## Registers -/

section Register

variable {V : Type} (writes : E → τ → Option V) (reads : Exchange R → Option V)

/-- A cell that some exchanges write and others read. -/
def Register : World V ι R τ X
  | v, .task _ now x, v' => (∀ u, reads x = some u → u = v) ∧ v' = (writes x.1 now).getD v
  | v, .env _ _, v' => v' = v

/-- What has been written, in order. -/
def written (tr : List (Event ι R τ X)) : List V :=
  tr.filterMap fun
    | .task _ now x => writes x.1 now
    | .env _ _ => none

theorem written_append (tr tr' : List (Event ι R τ X)) :
    written writes (tr ++ tr') = written writes tr ++ written writes tr' :=
  List.filterMap_append

variable {writes reads} {v₀ v : V} {tr tr' : List (Event ι R τ X)}

/-- A register holds what was written last. -/
theorem register_holds (h : Evolves (Register writes reads) v₀ tr v) :
    v = (written writes tr).getLast?.getD v₀ := by
  induction h with
  | start => rfl
  | @step tr s s' ev past now ih =>
      rw [written_append, List.getLast?_append]
      cases ev with
      | env t a =>
          rw [show s' = s from now, ih]
          rfl
      | task i t x =>
          obtain ⟨-, rfl⟩ := now
          rw [ih]
          cases hw : writes x.1 t with
          | none => simp [written, hw]
          | some u => simp [written, hw]

/-- Reading a register gives what was written last before. -/
theorem register_reads {i : ι} {now : τ} {x : Exchange R} {u : V}
    (h : Evolves (Register writes reads) v₀ (tr ++ .task i now x :: tr') v)
    (hx : reads x = some u) : u = (written writes tr).getLast?.getD v₀ := by
  obtain ⟨m, hm, hrest⟩ := Evolves.append_iff.mp h
  obtain ⟨m', hstep, -⟩ := Evolves.cons_iff.mp hrest
  rw [← register_holds hm]
  exact hstep.1 u hx

end Register

end Interleaving
