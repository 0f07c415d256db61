import Mathlib.Data.List.Induction

/-!
# Machines with moves that cannot always be made

A machine makes the moves of a list one after the other and has no state at all
once one of them cannot be made.
-/

namespace Machine

variable {σ α : Type} {step : σ → α → Option σ} {s₀ s : σ} {moves : List α}

theorem run_snoc {move : α} : (moves ++ [move]).foldlM step s₀ =
    (moves.foldlM step s₀).bind (step · move) := by
  rw [List.foldlM_append]
  cases moves.foldlM step s₀ <;> simp

/-- What every move keeps, where the move is one that the run may make there. -/
theorem invariant_of_moves {Inv : σ → Prop} (h : moves.foldlM step s₀ = some s) (h₀ : Inv s₀)
    (hstep : ∀ pre move post past next, moves = pre ++ move :: post →
      pre.foldlM step s₀ = some past → Inv past → step past move = some next → Inv next) :
    Inv s := by
  induction moves using List.reverseRecOn generalizing s with
  | nil =>
      cases h
      exact h₀
  | append_singleton moves move ih =>
      rw [run_snoc, Option.bind_eq_some_iff] at h
      obtain ⟨past, hpast, hlast⟩ := h
      refine hstep moves move [] past s rfl hpast (ih hpast ?_) hlast
      intro pre move' post past' next hsplit
      exact hstep pre move' (post ++ [move]) past' next (by rw [hsplit, List.append_assoc]; rfl)

/-- What every move keeps holds at the end. -/
theorem invariant {Inv : σ → Prop} (h : moves.foldlM step s₀ = some s) (h₀ : Inv s₀)
    (hstep : ∀ past move next, Inv past → step past move = some next → Inv next) : Inv s :=
  invariant_of_moves h h₀ fun _ move _ past next _ _ ↦ hstep past move next

end Machine
