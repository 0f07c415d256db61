import MeshcoreRpc.Lib.Coroutine

/-!
# A coroutine with the shared state to itself

When no other task runs in between, a coroutine moves the shared state along
its own exchanges.  `alone` is the weakest precondition for this: it reduces a
statement about the state in which a coroutine ends to one rule for each way of
building a coroutine.
-/

namespace Coroutine

open Coro

variable {E σ : Type} {R : E → Type} {ε α β : Type}

/-- What an exchange may do to the shared state. -/
abbrev Reaction (σ : Type) {E : Type} (R : E → Type) := σ → Exchange R → σ → Prop

/-- `Passes W s tr s'`: the exchanges `tr` take the state from `s` to `s'`. -/
inductive Passes (W : Reaction σ R) : σ → List (Exchange R) → σ → Prop
  | nil (s : σ) : Passes W s [] s
  | cons {s m s' : σ} {x : Exchange R} {tr : List (Exchange R)} (first : W s x m)
      (rest : Passes W m tr s') : Passes W s (x :: tr) s'

namespace Passes

variable {W : Reaction σ R} {s s' : σ} {tr : List (Exchange R)}

theorem append {m : σ} {tr' : List (Exchange R)} (h : Passes W s tr m)
    (h' : Passes W m tr' s') : Passes W s (tr ++ tr') s' := by
  induction h with
  | nil s => exact h'
  | cons first rest ih => exact .cons first (ih h')

theorem split {tr' : List (Exchange R)} (h : Passes W s (tr ++ tr') s') :
    ∃ m, Passes W s tr m ∧ Passes W m tr' s' := by
  induction tr generalizing s with
  | nil => exact ⟨s, .nil s, h⟩
  | cons x tr ih =>
      obtain _ | ⟨first, rest⟩ := h
      obtain ⟨m, hm, hrest⟩ := ih rest
      exact ⟨m, .cons first hm, hrest⟩

theorem restrict {P : Exchange R → Prop} (h : Passes W s tr s') (hP : ∀ x ∈ tr, P x) :
    Passes (fun s x s' ↦ W s x s' ∧ P x) s tr s' := by
  induction h with
  | nil s => exact .nil s
  | cons first rest ih =>
      obtain ⟨hx, hrest⟩ := List.forall_mem_cons.mp hP
      exact .cons ⟨first, hx⟩ (ih hrest)

theorem invariant {Inv : σ → Prop} (h : Passes W s tr s')
    (hstep : ∀ s x s', x ∈ tr → Inv s → W s x s' → Inv s') (hs : Inv s) : Inv s' := by
  induction h with
  | nil s => exact hs
  | cons first rest ih =>
      refine ih (fun s x s' hx ↦ hstep s x s' (List.mem_cons_of_mem _ hx)) ?_
      exact hstep _ _ _ List.mem_cons_self hs first

end Passes

namespace Coro

/-- `x.alone W I s Q`: from the state `s`, with nobody else changing it, every
execution of `x` finds `I` whenever it waits, and if it ends does so with an
outcome and a state related by `Q`. -/
def alone (W : Reaction σ R) (I : σ → Prop) :
    Coro R ε α → σ → (Except ε α → σ → Prop) → Prop
  | ret a, s, Q => Q (.ok a) s
  | raise err, s, Q => Q (.error err) s
  | await e next, s, Q => I s ∧ ∀ r s', W s ⟨e, r⟩ s' → (next r).alone W I s' Q

variable {W : Reaction σ R} {I : σ → Prop} {s : σ}

theorem alone_sound {x : Coro R ε α} {Q : Except ε α → σ → Prop} {tr : List (Exchange R)}
    {o : Except ε α} {s' : σ} (h : x.alone W I s Q) (hsteps : Steps x tr (ofOutcome o))
    (hpasses : Passes W s tr s') : Q o s' := by
  induction hpasses generalizing x with
  | nil s =>
      rw [Steps.nil_iff] at hsteps
      subst hsteps
      cases o <;> exact h
  | cons first rest ih =>
      cases hsteps with
      | answer e next r hrest => exact ih (h.2 r _ first) hrest

theorem alone_mono {x : Coro R ε α} {I' : σ → Prop} {Q Q' : Except ε α → σ → Prop}
    (h : x.alone W I s Q) (hI : ∀ s', I s' → I' s') (hQ : ∀ o s', Q o s' → Q' o s') :
    x.alone W I' s Q' := by
  induction x generalizing s with
  | ret a => exact hQ _ _ h
  | raise err => exact hQ _ _ h
  | await e next ih => exact ⟨hI s h.1, fun r s' hW ↦ ih r (h.2 r s' hW)⟩

theorem alone_anti {x : Coro R ε α} {W' : Reaction σ R} {Q : Except ε α → σ → Prop}
    (h : x.alone W I s Q) (hW : ∀ s y s', W' s y s' → W s y s') : x.alone W' I s Q := by
  induction x generalizing s with
  | ret a => exact h
  | raise err => exact h
  | await e next ih => exact ⟨h.1, fun r s' hr ↦ ih r (h.2 r s' (hW _ _ _ hr))⟩

@[simp] theorem alone_ret {a : α} {Q : Except ε α → σ → Prop} :
    (ret a : Coro R ε α).alone W I s Q ↔ Q (.ok a) s := Iff.rfl

@[simp] theorem alone_pure {a : α} {Q : Except ε α → σ → Prop} :
    (pure a : Coro R ε α).alone W I s Q ↔ Q (.ok a) s := Iff.rfl

@[simp] theorem alone_raise {err : ε} {Q : Except ε α → σ → Prop} :
    (raise err : Coro R ε α).alone W I s Q ↔ Q (.error err) s := Iff.rfl

@[simp] theorem alone_throw {err : ε} {Q : Except ε α → σ → Prop} :
    (throw err : Coro R ε α).alone W I s Q ↔ Q (.error err) s := Iff.rfl

@[simp] theorem alone_ofOutcome {o : Except ε α} {Q : Except ε α → σ → Prop} :
    (ofOutcome o : Coro R ε α).alone W I s Q ↔ Q o s := by
  cases o <;> rfl

@[simp] theorem alone_await {e : E} {next : R e → Coro R ε α} {Q : Except ε α → σ → Prop} :
    (await e next).alone W I s Q ↔
      I s ∧ ∀ r s', W s ⟨e, r⟩ s' → (next r).alone W I s' Q := Iff.rfl

@[simp] theorem alone_bind {x : Coro R ε α} {f : α → Coro R ε β} {Q : Except ε β → σ → Prop} :
    (x >>= f).alone W I s Q ↔ x.alone W I s fun o s' ↦
      match o with
      | .ok a => (f a).alone W I s' Q
      | .error err => Q (.error err) s' := by
  change (x.bind f).alone W I s Q ↔ _
  induction x generalizing s with
  | ret a => exact Iff.rfl
  | raise err => exact Iff.rfl
  | await e next ih =>
      refine and_congr_right fun _ ↦ forall_congr' fun r ↦ forall_congr' fun s' ↦ ?_
      exact imp_congr_right fun _ ↦ ih r

@[simp] theorem alone_tryCatch {x : Coro R ε α} {handler : ε → Coro R ε α}
    {Q : Except ε α → σ → Prop} :
    (tryCatch x handler).alone W I s Q ↔ x.alone W I s fun o s' ↦
      match o with
      | .ok a => Q (.ok a) s'
      | .error err => (handler err).alone W I s' Q := by
  change (x.tryCatch handler).alone W I s Q ↔ _
  induction x generalizing s with
  | ret a => exact Iff.rfl
  | raise err => exact Iff.rfl
  | await e next ih =>
      refine and_congr_right fun _ ↦ forall_congr' fun r ↦ forall_congr' fun s' ↦ ?_
      exact imp_congr_right fun _ ↦ ih r

@[simp] theorem alone_attempt {x : Coro R ε α} {Q : Except ε (Except ε α) → σ → Prop} :
    x.attempt.alone W I s Q ↔ x.alone W I s fun o s' ↦ Q (.ok o) s' := by
  induction x generalizing s with
  | ret a => exact Iff.rfl
  | raise err => exact Iff.rfl
  | await e next ih =>
      refine and_congr_right fun _ ↦ forall_congr' fun r ↦ forall_congr' fun s' ↦ ?_
      exact imp_congr_right fun _ ↦ ih r

/-- A coroutine whose effects all preserve `I` finds and leaves it. -/
theorem alone_of_only {P : E → Prop} {x : Coro R ε α} (hx : x.Only P)
    (hstep : ∀ e r s s', P e → I s → W s ⟨e, r⟩ s' → I s') (hs : I s) :
    x.alone W I s fun _ s' ↦ I s' := by
  induction x generalizing s with
  | ret a => exact hs
  | raise err => exact hs
  | await e next ih => exact ⟨hs, fun r s' hW ↦ ih r (hx.2 r) (hstep e r s s' hx.1 hs hW)⟩

/-! ## Runs alone -/

/-- Every effect of the run alone is good where it is awaited. -/
def meets (answer : (e : E) → σ → R e × σ) (good : E → σ → Bool) : Coro R ε α → σ → Bool
  | ret _, _ => true
  | raise _, _ => true
  | await e next, s =>
    good e s && (next (answer e s).1).meets answer good (answer e s).2

theorem forall_exchanges {answer : (e : E) → σ → R e × σ} {Q : Exchange R → Prop}
    {x : Coro R ε α} (h : ∀ e s, Q ⟨e, (answer e s).1⟩) : ∀ y ∈ x.exchanges answer s, Q y := by
  induction x generalizing s with
  | ret a => simp [exchanges]
  | raise err => simp [exchanges]
  | await e next ih => exact List.forall_mem_cons.mpr ⟨h e s, ih _⟩

theorem passes_exchanges {answer : (e : E) → σ → R e × σ} {good : E → σ → Bool}
    {x : Coro R ε α} (hgood : ∀ e s, good e s = true → W s ⟨e, (answer e s).1⟩ (answer e s).2)
    (h : x.meets answer good s = true) :
    Passes W s (x.exchanges answer s) (x.eval answer s).2 := by
  induction x generalizing s with
  | ret a => exact .nil s
  | raise err => exact .nil s
  | await e next ih =>
      obtain ⟨hhere, hrest⟩ := Bool.and_eq_true_iff.mp h
      exact .cons (hgood e s hhere) (ih _ hrest)

theorem meets_always {answer : (e : E) → σ → R e × σ} {x : Coro R ε α} :
    x.meets answer (fun _ _ ↦ true) s = true := by
  induction x generalizing s with
  | ret a => rfl
  | raise err => rfl
  | await e next ih => exact ih _

end Coro

end Coroutine
