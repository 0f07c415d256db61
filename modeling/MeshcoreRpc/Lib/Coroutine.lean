import Mathlib.Data.List.Basic
import Mathlib.Data.List.Infix

/-!
# Coroutines, their exchanges and their weakest preconditions

A coroutine has returned, has raised, or waits for the answer to one effect.
An *exchange* is an effect together with the answer it got; the exchanges of a
coroutine are all that the rest of a program can see of it.  The calculus
`wp` reduces a statement about every finished trace of exchanges to one rule
for each way of building a coroutine.
-/

namespace Coroutine

variable {E : Type} {R : E → Type} {ε α β : Type}

/-- `R e` is the type of the answers to the effect `e`, `ε` the type of the
exceptions. -/
inductive Coro (R : E → Type) (ε α : Type) : Type where
  | ret (a : α)
  | raise (err : ε)
  | await (e : E) (next : R e → Coro R ε α)

/-- An effect with its answer. -/
abbrev Exchange (R : E → Type) := (e : E) × R e

namespace Coro

protected def bind : Coro R ε α → (α → Coro R ε β) → Coro R ε β
  | ret a, f => f a
  | raise err, _ => raise err
  | await e next, f => await e fun r ↦ (next r).bind f

protected def tryCatch : Coro R ε α → (ε → Coro R ε α) → Coro R ε α
  | ret a, _ => ret a
  | raise err, handler => handler err
  | await e next, handler => await e fun r ↦ (next r).tryCatch handler

instance : Monad (Coro R ε) where
  pure := ret
  bind := Coro.bind

instance : MonadExceptOf ε (Coro R ε) where
  throw := raise
  tryCatch := Coro.tryCatch

/-- The coroutine that ends at once with the given outcome. -/
def ofOutcome : Except ε α → Coro R ε α
  | .ok a => ret a
  | .error err => raise err

/-- Run a block and hand its outcome, returned or raised, to what follows. -/
def attempt (x : Coro R ε α) : Coro R ε (Except ε α) :=
  (x.bind fun a ↦ ret (.ok a)).tryCatch fun err ↦ ret (.error err)

/-- The outcome of a coroutine that awaits nothing more. -/
def outcome? : Coro R ε α → Option (Except ε α)
  | ret a => some (.ok a)
  | raise err => some (.error err)
  | await _ _ => none

@[simp] theorem outcome?_ofOutcome (o : Except ε α) :
    (ofOutcome o : Coro R ε α).outcome? = some o := by
  cases o <;> rfl

theorem eq_ofOutcome {x : Coro R ε α} {o : Except ε α} (h : x.outcome? = some o) :
    x = ofOutcome o := by
  cases x with
  | ret a => simpa [outcome?, ofOutcome] using congrArg (Option.map ofOutcome) h
  | raise err => simpa [outcome?, ofOutcome] using congrArg (Option.map ofOutcome) h
  | await e next => simp [outcome?] at h

theorem exists_outcome {x : Coro R ε α} {P : Except ε α → Bool}
    (h : (x.outcome?.map P).getD false = true) : ∃ o, x = ofOutcome o ∧ P o = true := by
  cases ho : x.outcome? with
  | none =>
      rw [ho] at h
      cases h
  | some o =>
      rw [ho] at h
      exact ⟨o, eq_ofOutcome ho, h⟩

/-! ## Stepping along exchanges -/

/-- `Steps x tr y`: answered as in `tr`, the coroutine `x` gets to `y`. -/
inductive Steps : Coro R ε α → List (Exchange R) → Coro R ε α → Prop
  | refl (x : Coro R ε α) : Steps x [] x
  | answer (e : E) (next : R e → Coro R ε α) (r : R e) {tr : List (Exchange R)}
      {y : Coro R ε α} (rest : Steps (next r) tr y) :
      Steps (await e next) (⟨e, r⟩ :: tr) y

namespace Steps

@[simp] theorem nil_iff {x y : Coro R ε α} : Steps x [] y ↔ x = y := by
  constructor
  · intro h
    cases h
    rfl
  · rintro rfl
    exact .refl x

@[simp] theorem ret_iff {a : α} {tr : List (Exchange R)} {y : Coro R ε α} :
    Steps (ret a) tr y ↔ tr = [] ∧ y = ret a := by
  constructor
  · intro h
    cases h
    exact ⟨rfl, rfl⟩
  · rintro ⟨rfl, rfl⟩
    exact .refl _

@[simp] theorem raise_iff {err : ε} {tr : List (Exchange R)} {y : Coro R ε α} :
    Steps (raise err) tr y ↔ tr = [] ∧ y = raise err := by
  constructor
  · intro h
    cases h
    exact ⟨rfl, rfl⟩
  · rintro ⟨rfl, rfl⟩
    exact .refl _

theorem await_cons_iff {e : E} {next : R e → Coro R ε α} {x : Exchange R}
    {tr : List (Exchange R)} {y : Coro R ε α} :
    Steps (await e next) (x :: tr) y ↔ ∃ r, x = ⟨e, r⟩ ∧ Steps (next r) tr y := by
  constructor
  · intro h
    cases h with
    | answer _ _ r rest => exact ⟨r, rfl, rest⟩
  · rintro ⟨r, rfl, rest⟩
    exact .answer e next r rest

theorem append {x y z : Coro R ε α} {tr tr' : List (Exchange R)}
    (h : Steps x tr y) (h' : Steps y tr' z) : Steps x (tr ++ tr') z := by
  induction h with
  | refl x => simpa using h'
  | answer e next r rest ih => exact .answer e next r (ih h')

theorem snoc {x : Coro R ε α} {tr : List (Exchange R)} {e : E} {next : R e → Coro R ε α}
    (h : Steps x tr (await e next)) (r : R e) : Steps x (tr ++ [⟨e, r⟩]) (next r) :=
  h.append (.answer e next r (.refl _))

theorem split {x z : Coro R ε α} {tr tr' : List (Exchange R)} (h : Steps x (tr ++ tr') z) :
    ∃ y, Steps x tr y ∧ Steps y tr' z := by
  induction tr generalizing x with
  | nil => exact ⟨x, .refl x, h⟩
  | cons a tr ih =>
      cases h with
      | answer e next r rest =>
          obtain ⟨y, hy, hz⟩ := ih rest
          exact ⟨y, .answer e next r hy, hz⟩

theorem exists_answer {e : E} {next : R e → Coro R ε α} {y : Coro R ε α} (r : R e)
    (h : ∃ tr, Steps (next r) tr y) : ∃ tr, Steps (await e next) tr y := by
  obtain ⟨tr, h⟩ := h
  exact ⟨_, .answer e next r h⟩

theorem unique {x y z : Coro R ε α} {tr : List (Exchange R)}
    (h : Steps x tr y) (h' : Steps x tr z) : y = z := by
  induction h with
  | refl x => exact nil_iff.mp h'
  | answer e next r rest ih =>
      obtain ⟨r', heq, hrest⟩ := await_cons_iff.mp h'
      cases heq
      exact ih hrest

theorem bind {x y : Coro R ε α} {tr : List (Exchange R)} (h : Steps x tr y)
    (f : α → Coro R ε β) : Steps (x >>= f) tr (y >>= f) := by
  induction h with
  | refl x => exact .refl _
  | answer e next r rest ih => exact .answer e (fun r ↦ (next r).bind f) r ih

/-- A step taken in the middle of a trace leaves a coroutine that was waiting
for exactly that effect. -/
theorem await_of_snoc {x y : Coro R ε α} {tr : List (Exchange R)} {e : E} {r : R e}
    (h : Steps x (tr ++ [⟨e, r⟩]) y) :
    ∃ next : R e → Coro R ε α, Steps x tr (await e next) ∧ y = next r := by
  obtain ⟨z, hz, hy⟩ := h.split
  cases hy with
  | answer _ next _ rest => exact ⟨next, hz, (nil_iff.mp rest).symm⟩

end Steps

theorem exists_finish (hR : ∀ e, Nonempty (R e)) (x : Coro R ε α) :
    ∃ tr o, Steps x tr (ofOutcome o) := by
  induction x with
  | ret a => exact ⟨[], .ok a, .refl _⟩
  | raise err => exact ⟨[], .error err, .refl _⟩
  | await e next ih =>
      obtain ⟨r⟩ := hR e
      obtain ⟨tr, o, h⟩ := ih r
      exact ⟨⟨e, r⟩ :: tr, o, .answer e next r h⟩

theorem Steps.extend (hR : ∀ e, Nonempty (R e)) {x y : Coro R ε α}
    {tr : List (Exchange R)} (h : Steps x tr y) :
    ∃ rest o, Steps x (tr ++ rest) (ofOutcome o) := by
  obtain ⟨rest, o, hrest⟩ := exists_finish hR y
  exact ⟨rest, o, h.append hrest⟩

/-! ## Weakest preconditions -/

/-- `wp x Q`: every execution of `x` that ends does so with a trace and an
outcome related by `Q`. -/
def wp : Coro R ε α → (List (Exchange R) → Except ε α → Prop) → Prop
  | ret a, Q => Q [] (.ok a)
  | raise err, Q => Q [] (.error err)
  | await e next, Q => ∀ r, (next r).wp fun tr o ↦ Q (⟨e, r⟩ :: tr) o

theorem wp_iff {x : Coro R ε α} {Q : List (Exchange R) → Except ε α → Prop} :
    x.wp Q ↔ ∀ tr o, Steps x tr (ofOutcome o) → Q tr o := by
  induction x generalizing Q with
  | ret a =>
      constructor
      · intro h tr o hsteps
        obtain ⟨rfl, ho⟩ := Steps.ret_iff.mp hsteps
        cases o with
        | ok b =>
            cases ho
            exact h
        | error err => cases ho
      · intro h
        exact h [] (.ok a) (.refl _)
  | raise err =>
      constructor
      · intro h tr o hsteps
        obtain ⟨rfl, ho⟩ := Steps.raise_iff.mp hsteps
        cases o with
        | ok b => cases ho
        | error err' =>
            cases ho
            exact h
      · intro h
        exact h [] (.error err) (.refl _)
  | await e next ih =>
      constructor
      · intro h tr o hsteps
        cases tr with
        | nil =>
            have hout : none = some o := by
              rw [← outcome?_ofOutcome (R := R) o, ← Steps.nil_iff.mp hsteps, outcome?]
            cases hout
        | cons a tr =>
            obtain ⟨r, rfl, hrest⟩ := Steps.await_cons_iff.mp hsteps
            exact (ih r).mp (h r) tr o hrest
      · intro h r
        exact (ih r).mpr fun tr o hsteps ↦ h _ o (.answer e next r hsteps)

theorem wp_mono {x : Coro R ε α} {Q Q' : List (Exchange R) → Except ε α → Prop}
    (h : x.wp Q) (hQ : ∀ tr o, Q tr o → Q' tr o) : x.wp Q' :=
  wp_iff.mpr fun tr o hsteps ↦ hQ tr o (wp_iff.mp h tr o hsteps)

@[simp] theorem wp_ret {a : α} {Q : List (Exchange R) → Except ε α → Prop} :
    (ret a : Coro R ε α).wp Q ↔ Q [] (.ok a) := Iff.rfl

@[simp] theorem wp_pure {a : α} {Q : List (Exchange R) → Except ε α → Prop} :
    (pure a : Coro R ε α).wp Q ↔ Q [] (.ok a) := Iff.rfl

@[simp] theorem wp_raise {err : ε} {Q : List (Exchange R) → Except ε α → Prop} :
    (raise err : Coro R ε α).wp Q ↔ Q [] (.error err) := Iff.rfl

@[simp] theorem wp_throw {err : ε} {Q : List (Exchange R) → Except ε α → Prop} :
    (throw err : Coro R ε α).wp Q ↔ Q [] (.error err) := Iff.rfl

@[simp] theorem wp_ofOutcome {o : Except ε α} {Q : List (Exchange R) → Except ε α → Prop} :
    (ofOutcome o : Coro R ε α).wp Q ↔ Q [] o := by
  cases o <;> rfl

@[simp] theorem wp_await {e : E} {next : R e → Coro R ε α}
    {Q : List (Exchange R) → Except ε α → Prop} :
    (await e next).wp Q ↔ ∀ r, (next r).wp fun tr o ↦ Q (⟨e, r⟩ :: tr) o := Iff.rfl

@[simp] theorem wp_bind {x : Coro R ε α} {f : α → Coro R ε β}
    {Q : List (Exchange R) → Except ε β → Prop} :
    (x >>= f).wp Q ↔ x.wp fun tr o ↦
      match o with
      | .ok a => (f a).wp fun tr' o' ↦ Q (tr ++ tr') o'
      | .error err => Q tr (.error err) := by
  change (x.bind f).wp Q ↔ _
  induction x generalizing Q with
  | ret a => simp [Coro.bind]
  | raise err => simp [Coro.bind]
  | await e next ih =>
      simp only [Coro.bind, wp_await]
      refine forall_congr' fun r ↦ ?_
      simpa using ih r

@[simp] theorem wp_tryCatch {x : Coro R ε α} {handler : ε → Coro R ε α}
    {Q : List (Exchange R) → Except ε α → Prop} :
    (tryCatch x handler).wp Q ↔ x.wp fun tr o ↦
      match o with
      | .ok a => Q tr (.ok a)
      | .error err => (handler err).wp fun tr' o' ↦ Q (tr ++ tr') o' := by
  change (x.tryCatch handler).wp Q ↔ _
  induction x generalizing Q with
  | ret a => simp [Coro.tryCatch]
  | raise err => simp [Coro.tryCatch]
  | await e next ih =>
      simp only [Coro.tryCatch, wp_await]
      refine forall_congr' fun r ↦ ?_
      simpa using ih r

@[simp] theorem wp_attempt {x : Coro R ε α}
    {Q : List (Exchange R) → Except ε (Except ε α) → Prop} :
    x.attempt.wp Q ↔ x.wp fun tr o ↦ Q tr (.ok o) := by
  induction x generalizing Q with
  | ret a => exact Iff.rfl
  | raise err => exact Iff.rfl
  | await e next ih => exact forall_congr' fun r ↦ ih r

/-- An execution that goes on after an attempt falls into the two. -/
theorem Steps.of_attempt_bind {x : Coro R ε α} {f : Except ε α → Coro R ε β}
    {tr : List (Exchange R)} {o : Except ε β} (h : Steps (x.attempt >>= f) tr (ofOutcome o)) :
    ∃ tr₁ o₁ tr₂, tr = tr₁ ++ tr₂ ∧ Steps x tr₁ (ofOutcome o₁) ∧
      Steps (f o₁) tr₂ (ofOutcome o) := by
  have hwp : (x.attempt >>= f).wp fun tr o ↦ ∃ tr₁ o₁ tr₂, tr = tr₁ ++ tr₂ ∧
      Steps x tr₁ (ofOutcome o₁) ∧ Steps (f o₁) tr₂ (ofOutcome o) := by
    rw [wp_bind, wp_attempt]
    refine wp_iff.mpr fun tr₁ o₁ hx ↦ wp_iff.mpr fun tr₂ o hf ↦ ?_
    exact ⟨tr₁, o₁, tr₂, rfl, hx, hf⟩
  exact wp_iff.mp hwp tr o h

/-- A coroutine in two parts waits in the first or in the second. -/
theorem Steps.of_bind_await {x : Coro R ε α} {f : α → Coro R ε β} {tr : List (Exchange R)} {e : E}
    {next : R e → Coro R ε β} (h : Steps (x >>= f) tr (await e next)) :
    (∃ next', Steps x tr (await e next')) ∨
      ∃ a tr₁ tr₂, tr = tr₁ ++ tr₂ ∧ Steps x tr₁ (ret a) ∧ Steps (f a) tr₂ (await e next) := by
  induction x generalizing tr with
  | ret a => exact .inr ⟨a, [], tr, rfl, .refl _, h⟩
  | raise err => cases (Steps.raise_iff.mp h).2
  | await e' next' ih =>
      cases h with
      | refl => exact .inl ⟨next', .refl _⟩
      | answer e' _ r rest =>
          obtain ⟨next'', hx⟩ | ⟨a, tr₁, tr₂, rfl, hx, hf⟩ := ih r rest
          · exact .inl ⟨next'', .answer e' next' r hx⟩
          · exact .inr ⟨a, ⟨e', r⟩ :: tr₁, tr₂, rfl, .answer e' next' r hx, hf⟩

/-- Returning something else afterwards adds no step. -/
theorem Steps.of_bind_pure {x : Coro R ε α} {b : β} {tr : List (Exchange R)} {y : Coro R ε β}
    (h : Steps (x >>= fun _ ↦ pure b) tr y) :
    ∃ z, Steps x tr z ∧ ∀ o, y = ofOutcome o → ∃ o', z = ofOutcome o' := by
  induction x generalizing tr with
  | ret a =>
      obtain ⟨rfl, rfl⟩ := Steps.ret_iff.mp h
      exact ⟨_, .refl _, fun _ _ ↦ ⟨.ok a, rfl⟩⟩
  | raise err =>
      obtain ⟨rfl, rfl⟩ := Steps.raise_iff.mp h
      exact ⟨_, .refl _, fun _ _ ↦ ⟨.error err, rfl⟩⟩
  | await e next ih =>
      cases h with
      | refl =>
          refine ⟨_, .refl _, fun o ho ↦ ?_⟩
          cases o <;> cases ho
      | answer e next r rest =>
          obtain ⟨z, hz, hend⟩ := ih r rest
          exact ⟨z, .answer e _ r hz, hend⟩

/-! ## What comes before an exchange -/

/-- Every exchange of the trace is justified by those before it. -/
def Justified (just : List (Exchange R) → Exchange R → Prop) (tr : List (Exchange R)) : Prop :=
  ∀ pre x post, tr = pre ++ x :: post → just pre x

namespace Justified

variable {just : List (Exchange R) → Exchange R → Prop} {tr tr' : List (Exchange R)}

theorem of_forall (h : ∀ x ∈ tr, ∀ pre, just pre x) : Justified just tr := by
  rintro pre x post rfl
  exact h x (by simp) pre

theorem left (h : Justified just (tr ++ tr')) : Justified just tr := by
  rintro pre x post rfl
  exact h pre x (post ++ tr') (by simp)

theorem append (hmono : ∀ pre pre' x, just pre' x → just (pre ++ pre') x) (h : Justified just tr)
    (h' : Justified just tr') : Justified just (tr ++ tr') := by
  intro pre x post hsplit
  rcases List.append_eq_append_iff.mp hsplit with ⟨mid, rfl, hmid⟩ | ⟨mid, rfl, hmid⟩
  · exact hmono _ _ _ (h' mid x post hmid)
  · cases mid with
    | nil =>
        have hmid : tr' = [] ++ x :: post := by simpa using hmid.symm
        simpa using hmono pre _ _ (h' [] x post hmid)
    | cons y mid =>
        obtain ⟨rfl, rfl⟩ := List.cons.inj hmid
        exact h pre x mid rfl

/-- What holds of every finished trace holds of every trace. -/
theorem of_wp (hR : ∀ e, Nonempty (R e)) {x y : Coro R ε α}
    (hx : x.wp fun tr _ ↦ Justified just tr) (h : Steps x tr y) : Justified just tr := by
  obtain ⟨rest, o, hfinish⟩ := h.extend hR
  exact (wp_iff.mp hx _ o hfinish).left

end Justified

/-! ## The effects a coroutine can await -/

/-- Every effect `x` can ever await satisfies `P`. -/
def Only (P : E → Prop) : Coro R ε α → Prop
  | ret _ => True
  | raise _ => True
  | await e next => P e ∧ ∀ r, (next r).Only P

namespace Only

variable {P Q : E → Prop}

@[simp] theorem ret_iff {a : α} : (ret a : Coro R ε α).Only P ↔ True := Iff.rfl

@[simp] theorem pure_iff {a : α} : (pure a : Coro R ε α).Only P ↔ True := Iff.rfl

@[simp] theorem raise_iff {err : ε} : (raise err : Coro R ε α).Only P ↔ True := Iff.rfl

@[simp] theorem throw_iff {err : ε} : (throw err : Coro R ε α).Only P ↔ True := Iff.rfl

@[simp] theorem await_iff {e : E} {next : R e → Coro R ε α} :
    (await e next).Only P ↔ P e ∧ ∀ r, (next r).Only P := Iff.rfl

@[simp] theorem ofOutcome_iff {o : Except ε α} : (ofOutcome o : Coro R ε α).Only P ↔ True := by
  cases o <;> rfl

theorem trivial (x : Coro R ε α) : x.Only fun _ ↦ True := by
  induction x with
  | ret a => exact True.intro
  | raise err => exact True.intro
  | await e next ih => exact ⟨True.intro, ih⟩

theorem bind {x : Coro R ε α} {f : α → Coro R ε β} (hx : x.Only P) (hf : ∀ a, (f a).Only P) :
    (x >>= f).Only P := by
  change (x.bind f).Only P
  induction x with
  | ret a => exact hf a
  | raise err => exact True.intro
  | await e next ih => exact ⟨hx.1, fun r ↦ ih r (hx.2 r)⟩

theorem tryCatch {x : Coro R ε α} {handler : ε → Coro R ε α} (hx : x.Only P)
    (hh : ∀ err, (handler err).Only P) : (tryCatch x handler).Only P := by
  change (x.tryCatch handler).Only P
  induction x with
  | ret a => exact True.intro
  | raise err => exact hh err
  | await e next ih => exact ⟨hx.1, fun r ↦ ih r (hx.2 r)⟩

theorem attempt {x : Coro R ε α} (hx : x.Only P) : x.attempt.Only P := by
  induction x with
  | ret a => exact True.intro
  | raise err => exact True.intro
  | await e next ih => exact ⟨hx.1, fun r ↦ ih r (hx.2 r)⟩

theorem mono {x : Coro R ε α} (hx : x.Only P) (h : ∀ e, P e → Q e) : x.Only Q := by
  induction x with
  | ret a => exact True.intro
  | raise err => exact True.intro
  | await e next ih => exact ⟨h e hx.1, fun r ↦ ih r (hx.2 r)⟩

theorem steps {x y : Coro R ε α} {tr : List (Exchange R)} (hx : x.Only P) (h : Steps x tr y) :
    (∀ a ∈ tr, P a.1) ∧ y.Only P := by
  induction h with
  | refl x => exact ⟨by simp, hx⟩
  | answer e next r rest ih =>
      obtain ⟨htr, hy⟩ := ih (hx.2 r)
      exact ⟨List.forall_mem_cons.mpr ⟨hx.1, htr⟩, hy⟩

end Only

/-! ## What a coroutine returns -/

/-- Every value `x` can ever return satisfies `P`. -/
def Returns (P : α → Prop) : Coro R ε α → Prop
  | ret a => P a
  | raise _ => True
  | await _ next => ∀ r, (next r).Returns P

namespace Returns

variable {P : β → Prop}

@[simp] theorem pure_iff {b : β} : (pure b : Coro R ε β).Returns P ↔ P b := Iff.rfl

@[simp] theorem throw_iff {err : ε} : (throw err : Coro R ε β).Returns P ↔ True := Iff.rfl

theorem bind {x : Coro R ε α} {f : α → Coro R ε β} (hf : ∀ a, (f a).Returns P) :
    (x >>= f).Returns P := by
  change (x.bind f).Returns P
  induction x with
  | ret a => exact hf a
  | raise err => exact True.intro
  | await e next ih => exact fun r ↦ ih r

theorem steps {x : Coro R ε β} {tr : List (Exchange R)} {b : β} (hx : x.Returns P)
    (h : Steps x tr (ofOutcome (.ok b))) : P b := by
  generalize hy : (ofOutcome (.ok b) : Coro R ε β) = y at h
  induction h with
  | refl x =>
      subst hy
      exact hx
  | answer e next r rest ih => exact ih (hx r) hy

end Returns

/-! ## Assumptions on the answers -/

/-- `x.Within A P S`: as long as the exchanges satisfy `A`, the effects that `x`
awaits satisfy `P` and what it returns satisfies `S`. -/
def Within (A : Exchange R → Prop) (P : E → Prop) (S : α → Prop) : Coro R ε α → Prop
  | ret a => S a
  | raise _ => True
  | await e next => P e ∧ ∀ r, A ⟨e, r⟩ → (next r).Within A P S

namespace Within

variable {A A' : Exchange R → Prop} {P P' : E → Prop} {S S' : α → Prop} {T : β → Prop}

@[simp] theorem ret_iff {a : α} : (ret a : Coro R ε α).Within A P S ↔ S a := Iff.rfl

@[simp] theorem pure_iff {a : α} : (pure a : Coro R ε α).Within A P S ↔ S a := Iff.rfl

@[simp] theorem throw_iff {err : ε} : (throw err : Coro R ε α).Within A P S ↔ True := Iff.rfl

@[simp] theorem await_iff {e : E} {next : R e → Coro R ε α} :
    (await e next).Within A P S ↔ P e ∧ ∀ r, A ⟨e, r⟩ → (next r).Within A P S := Iff.rfl

theorem of_only {x : Coro R ε α} (hx : x.Only P) : x.Within A P fun _ ↦ True := by
  induction x with
  | ret a => exact True.intro
  | raise err => exact True.intro
  | await e next ih => exact ⟨hx.1, fun r _ ↦ ih r (hx.2 r)⟩

theorem mono {x : Coro R ε α} (hx : x.Within A P S) (hA : ∀ y, A' y → A y) (hP : ∀ e, P e → P' e)
    (hS : ∀ a, S a → S' a) : x.Within A' P' S' := by
  induction x with
  | ret a => exact hS a hx
  | raise err => exact True.intro
  | await e next ih => exact ⟨hP e hx.1, fun r hr ↦ ih r (hx.2 r (hA _ hr))⟩

theorem bind {x : Coro R ε α} {f : α → Coro R ε β} (hx : x.Within A P S)
    (hf : ∀ a, S a → (f a).Within A P T) : (x >>= f).Within A P T := by
  change (x.bind f).Within A P T
  induction x with
  | ret a => exact hf a hx
  | raise err => exact True.intro
  | await e next ih => exact ⟨hx.1, fun r hr ↦ ih r (hx.2 r hr)⟩

theorem tryCatch {x : Coro R ε α} {handler : ε → Coro R ε α} (hx : x.Within A P S)
    (hh : ∀ err, (handler err).Within A P S) : (tryCatch x handler).Within A P S := by
  change (x.tryCatch handler).Within A P S
  induction x with
  | ret a => exact hx
  | raise err => exact hh err
  | await e next ih => exact ⟨hx.1, fun r hr ↦ ih r (hx.2 r hr)⟩

theorem attempt {x : Coro R ε α} (hx : x.Within A P S) :
    x.attempt.Within A P fun o ↦ ∀ a, o = .ok a → S a := by
  induction x with
  | ret a =>
      intro b hb
      cases hb
      exact hx
  | raise err =>
      intro b hb
      cases hb
  | await e next ih => exact ⟨hx.1, fun r hr ↦ ih r (hx.2 r hr)⟩

theorem ofOutcome {o : Except ε α} (h : ∀ a, o = .ok a → S a) :
    (ofOutcome o : Coro R ε α).Within A P S := by
  cases o with
  | ok a => exact h a rfl
  | error err => exact True.intro

theorem steps {x y : Coro R ε α} {tr : List (Exchange R)} (hx : x.Within A P S)
    (h : Steps x tr y) (hA : ∀ z ∈ tr, A z) : y.Within A P S := by
  induction h with
  | refl x => exact hx
  | answer e next r rest ih =>
      obtain ⟨hhere, hrest⟩ := List.forall_mem_cons.mp hA
      exact ih (hx.2 r hhere) hrest

end Within

/-! ## Remembering the exchanges -/

/-- `x.Recalls f P S m`: with the memory `m` of what came before, updated by `f`, the
effects that `x` awaits satisfy `P` and what it returns satisfies `S`. -/
def Recalls {M : Type} (f : M → Exchange R → M) (P : M → E → Prop) (S : M → α → Prop) :
    Coro R ε α → M → Prop
  | ret a, m => S m a
  | raise _, _ => True
  | await e next, m => P m e ∧ ∀ r, (next r).Recalls f P S (f m ⟨e, r⟩)

namespace Recalls

variable {M : Type} {f : M → Exchange R → M} {P : M → E → Prop} {S : M → α → Prop}
  {T : M → β → Prop} {m : M}

theorem of_only {x : Coro R ε α} (hx : x.Only fun e ↦ ∀ m, P m e) :
    x.Recalls f P (fun _ _ ↦ True) m := by
  induction x generalizing m with
  | ret a => exact True.intro
  | raise err => exact True.intro
  | await e next ih => exact ⟨hx.1 m, fun r ↦ ih r (hx.2 r)⟩

theorem bind {x : Coro R ε α} {g : α → Coro R ε β} (hx : x.Recalls f P S m)
    (hg : ∀ m a, S m a → (g a).Recalls f P T m) : (x >>= g).Recalls f P T m := by
  change (x.bind g).Recalls f P T m
  induction x generalizing m with
  | ret a => exact hg m a hx
  | raise err => exact True.intro
  | await e next ih => exact ⟨hx.1, fun r ↦ ih r (hx.2 r)⟩

theorem attempt {x : Coro R ε α} (hx : x.Recalls f P (fun _ _ ↦ True) m) :
    x.attempt.Recalls f P (fun _ _ ↦ True) m := by
  induction x generalizing m with
  | ret a => exact True.intro
  | raise err => exact True.intro
  | await e next ih => exact ⟨hx.1, fun r ↦ ih r (hx.2 r)⟩

theorem ofOutcome {o : Except ε α} (h : ∀ a, o = .ok a → S m a) :
    (ofOutcome o : Coro R ε α).Recalls f P S m := by
  cases o with
  | ok a => exact h a rfl
  | error err => exact True.intro

theorem steps {x y : Coro R ε α} {tr : List (Exchange R)} (hx : x.Recalls f P S m)
    (h : Steps x tr y) : y.Recalls f P S (tr.foldl f m) := by
  induction h generalizing m with
  | refl x => exact hx
  | answer e next r rest ih => exact ih (hx.2 r)

end Recalls

/-! ## Running alone -/

/-- Run a coroutine on its own against a state that answers every effect. -/
def eval {σ : Type} (answer : (e : E) → σ → R e × σ) : Coro R ε α → σ → Except ε α × σ
  | ret a, s => (.ok a, s)
  | raise err, s => (.error err, s)
  | await e next, s => (next (answer e s).1).eval answer (answer e s).2

section Eval

variable {σ : Type} {answer : (e : E) → σ → R e × σ}

@[simp] theorem eval_ret (a : α) (s : σ) :
    (ret a : Coro R ε α).eval answer s = (.ok a, s) := rfl

@[simp] theorem eval_pure (a : α) (s : σ) :
    (pure a : Coro R ε α).eval answer s = (.ok a, s) := rfl

@[simp] theorem eval_raise (err : ε) (s : σ) :
    (raise err : Coro R ε α).eval answer s = (.error err, s) := rfl

@[simp] theorem eval_throw (err : ε) (s : σ) :
    (throw err : Coro R ε α).eval answer s = (.error err, s) := rfl

@[simp] theorem eval_ofOutcome (o : Except ε α) (s : σ) :
    (ofOutcome o : Coro R ε α).eval answer s = (o, s) := by
  cases o <;> rfl

@[simp] theorem eval_await (e : E) (next : R e → Coro R ε α) (s : σ) :
    (await e next).eval answer s = (next (answer e s).1).eval answer (answer e s).2 := rfl

@[simp] theorem eval_bind (x : Coro R ε α) (f : α → Coro R ε β) (s : σ) :
    (x >>= f).eval answer s =
      match x.eval answer s with
      | (.ok a, s') => (f a).eval answer s'
      | (.error err, s') => (.error err, s') := by
  change (x.bind f).eval answer s = _
  induction x generalizing s with
  | ret a => rfl
  | raise err => rfl
  | await e next ih => exact ih _ _

def exchanges (answer : (e : E) → σ → R e × σ) : Coro R ε α → σ → List (Exchange R)
  | ret _, _ => []
  | raise _, _ => []
  | await e next, s =>
    ⟨e, (answer e s).1⟩ :: (next (answer e s).1).exchanges answer (answer e s).2

theorem steps_exchanges (x : Coro R ε α) (s : σ) :
    Steps x (x.exchanges answer s) (ofOutcome (x.eval answer s).1) := by
  induction x generalizing s with
  | ret a => exact .refl _
  | raise err => exact .refl _
  | await e next ih => exact .answer e next _ (ih _ _)

end Eval

end Coro

end Coroutine
