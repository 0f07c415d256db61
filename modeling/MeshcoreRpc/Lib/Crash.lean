import MeshcoreRpc.Lib.Coroutine

/-!
# Coroutines that may be cut off

A coroutine that runs alone against a durable state can be cut off before any
of its effects; `states` lists what that may leave behind.  `Guards` is a Hoare
triple with a crash condition: it speaks of all those states and of the end.
-/

namespace Coroutine.Coro

variable {E : Type} {R : E → Type} {ε α β σ : Type}

section Crash

variable (answer : (e : E) → σ → R e × σ)

/-- The states a run alone passes through. -/
def states : Coro R ε α → σ → List σ
  | ret _, s => [s]
  | raise _, s => [s]
  | await e next, s => s :: (next (answer e s).1).states (answer e s).2

/-- From `s` the run of `x` passes only through states with `Inv` and ends with
an outcome and a state related by `Q`. -/
def Guards (Inv : σ → Prop) : Coro R ε α → σ → (Except ε α → σ → Prop) → Prop
  | ret a, s, Q => Inv s ∧ Q (.ok a) s
  | raise err, s, Q => Inv s ∧ Q (.error err) s
  | await e next, s, Q => Inv s ∧ (next (answer e s).1).Guards Inv (answer e s).2 Q

end Crash

variable {answer : (e : E) → σ → R e × σ} {Inv Inv' : σ → Prop} {s : σ}

theorem guards_iff {x : Coro R ε α} {Q : Except ε α → σ → Prop} :
    x.Guards answer Inv s Q ↔
      (∀ s' ∈ x.states answer s, Inv s') ∧ Q (x.eval answer s).1 (x.eval answer s).2 := by
  induction x generalizing s with
  | ret a => simp [Guards, states]
  | raise err => simp [Guards, states]
  | await e next ih => simp [Guards, states, ih, and_assoc]

theorem Guards.start {x : Coro R ε α} {Q : Except ε α → σ → Prop} (h : x.Guards answer Inv s Q) :
    Inv s := by
  cases x <;> exact h.1

theorem Guards.mono {x : Coro R ε α} {Q Q' : Except ε α → σ → Prop} (h : x.Guards answer Inv s Q)
    (hInv : ∀ s', Inv s' → Inv' s') (hQ : ∀ o s', Q o s' → Q' o s') :
    x.Guards answer Inv' s Q' := by
  rw [guards_iff] at h ⊢
  exact ⟨fun s' hs' ↦ hInv s' (h.1 s' hs'), hQ _ _ h.2⟩

theorem guards_pure {a : α} {Q : Except ε α → σ → Prop} :
    (pure a : Coro R ε α).Guards answer Inv s Q ↔ Inv s ∧ Q (.ok a) s := Iff.rfl

theorem guards_bind {x : Coro R ε α} {f : α → Coro R ε β} {Q : Except ε β → σ → Prop} :
    (x >>= f).Guards answer Inv s Q ↔ x.Guards answer Inv s fun o s' ↦
      match o with
      | .ok a => (f a).Guards answer Inv s' Q
      | .error err => Q (.error err) s' := by
  change (x.bind f).Guards answer Inv s Q ↔ _
  induction x generalizing s with
  | ret a => exact ⟨fun h ↦ ⟨h.start, h⟩, fun h ↦ h.2⟩
  | raise err => exact Iff.rfl
  | await e next ih => exact and_congr_right fun _ ↦ ih _

end Coroutine.Coro
