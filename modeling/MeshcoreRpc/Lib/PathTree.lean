import Mathlib.Data.List.Basic
import Mathlib.Logic.Basic

/-!
# Trees of named settings

A value, or a mapping from names to trees.  `deepUpdate` lays one partial tree
over another, going down only where both are mappings.
-/

inductive PathTree (K V : Type) where
  | leaf (v : V)
  | node (children : List (K × PathTree K V))

namespace PathTree

variable {K V : Type} [DecidableEq K]

/-- The value at a path. -/
def leafAt : PathTree K V → List K → Option V
  | leaf v, [] => some v
  | leaf _, _ :: _ => none
  | node _, [] => none
  | node children, k :: path => (children.lookup k).bind fun t ↦ t.leafAt path

theorem exists_of_leafAt_node {children : List (K × PathTree K V)} {path : List K} {v : V}
    (h : (node children).leafAt path = some v) :
    ∃ k t rest, path = k :: rest ∧ (k, t) ∈ children ∧ t.leafAt rest = some v := by
  rcases path with _ | ⟨k, rest⟩
  · simp [leafAt] at h
  · obtain ⟨t, ht, hv⟩ := Option.bind_eq_some_iff.mp h
    obtain ⟨before, after, heq, _⟩ := List.lookup_eq_some_iff.mp ht
    exact ⟨k, t, rest, rfl, by simp [heq], hv⟩

theorem eq_nil_of_leafAt_leaf {v w : V} {path : List K} (h : (leaf v).leafAt path = some w) :
    path = [] := by
  rcases path with _ | ⟨k, rest⟩
  · rfl
  · simp [leafAt] at h

/-- As far as the tree goes along the path it has mappings on the way and no
mapping at the end. -/
def Admits : PathTree K V → List K → Prop
  | leaf _, [] => True
  | leaf _, _ :: _ => False
  | node _, [] => False
  | node children, k :: path => ∀ t, children.lookup k = some t → t.Admits path

mutual

/-- `updates` over `base`. -/
def deepUpdate : (base updates : PathTree K V) → PathTree K V
  | node old, node new =>
    node (updateAll old new ++ new.filter fun kt ↦ (old.lookup kt.1).isNone)
  | leaf _, updates => updates
  | node _, leaf v => leaf v

def updateAll : (old new : List (K × PathTree K V)) → List (K × PathTree K V)
  | [], _ => []
  | (k, t) :: old, new => (k, (new.lookup k).elim t (deepUpdate t)) :: updateAll old new

end

@[simp] theorem deepUpdate_leaf (base : PathTree K V) (v : V) :
    deepUpdate base (leaf v) = leaf v := by
  cases base <;> simp [deepUpdate]

@[simp] theorem leaf_deepUpdate (v : V) (updates : PathTree K V) :
    deepUpdate (leaf v) updates = updates := by
  simp [deepUpdate]

theorem lookup_updateAll (old new : List (K × PathTree K V)) (k : K) :
    (updateAll old new).lookup k =
      (old.lookup k).map fun t ↦ (new.lookup k).elim t (deepUpdate t) := by
  induction old with
  | nil => simp [updateAll]
  | cons entry old ih =>
      obtain ⟨k', t⟩ := entry
      by_cases hk : k = k'
      · subst hk
        simp [updateAll]
      · have hne : (k == k') = false := by simpa using hk
        simp [updateAll, List.lookup_cons, hne, ih]

theorem lookup_filter {α : Type} {p : K → Bool} {k : K} (xs : List (K × α)) (h : p k = true) :
    (xs.filter fun entry ↦ p entry.1).lookup k = xs.lookup k := by
  induction xs with
  | nil => rfl
  | cons entry xs ih =>
      obtain ⟨k', t⟩ := entry
      by_cases hk : k = k'
      · subst hk
        simp [h]
      · have hne : (k == k') = false := by simpa using hk
        cases hp : p k'
        · simp [hp, List.lookup_cons, hne, ih]
        · simp [hp, List.lookup_cons, hne, ih]

/-- A mapping over a mapping, name by name. -/
theorem lookup_deepUpdate (old new : List (K × PathTree K V)) (k : K) :
    ∃ merged, deepUpdate (node old) (node new) = node merged ∧ merged.lookup k =
      (old.lookup k).elim (new.lookup k) fun t ↦ some ((new.lookup k).elim t (deepUpdate t)) := by
  refine ⟨_, by rw [deepUpdate], ?_⟩
  rw [List.lookup_append, lookup_updateAll]
  cases hold : old.lookup k with
  | some t => rfl
  | none =>
      have hnone : (old.lookup k).isNone = true := by
        rw [hold]
        rfl
      rw [lookup_filter (p := fun k ↦ (old.lookup k).isNone) new hnone]
      rfl

/-- Wherever the merged tree has a value or nothing, it has the value of the
updates, else that of the base. -/
theorem leafAt_deepUpdate {base updates : PathTree K V} {path : List K}
    (h : (deepUpdate base updates).Admits path) :
    (deepUpdate base updates).leafAt path = (updates.leafAt path).or (base.leafAt path) := by
  induction path generalizing base updates with
  | nil =>
      cases updates with
      | leaf v => simp [leafAt]
      | node new =>
          cases base with
          | leaf v => simp [Admits] at h
          | node old => simp [deepUpdate, Admits] at h
  | cons k path ih =>
      cases updates with
      | leaf v => simp [Admits] at h
      | node new =>
          cases base with
          | leaf v => simp [leafAt]
          | node old =>
              obtain ⟨merged, hmerged, hlookup⟩ := lookup_deepUpdate old new k
              rw [hmerged] at h ⊢
              simp only [leafAt, hlookup]
              cases hold : old.lookup k with
              | none => cases hnew : new.lookup k <;> simp
              | some t =>
                  cases hnew : new.lookup k with
                  | none => simp
                  | some update =>
                      simp only [hold, hnew, Option.elim_some] at hlookup
                      exact ih (h _ hlookup)

end PathTree
