import MeshcoreRpc.Lib.Coroutine
import Mathlib.Logic.Function.Basic

/-!
# Interleaved runs of coroutines over a shared state

A pool of coroutines takes its exchanges one at a time, in any order; the
shared state decides which answers are possible and what they do.  Everything
about a run is contained in two facts: the shared state evolves along the
whole event list, and each coroutine steps along its own exchanges
(`run_iff`).  A property of every interleaving is therefore proved from an
invariant of the shared state and from the traces of one coroutine alone.
-/

namespace Interleaving

open Coroutine Coro

variable {ι E τ X σ : Type} {R : E → Type} {ε α : Type}

/-- One event of a run, stamped with the reading `now` of a clock: an exchange
of the task `i`, or an action of the surroundings. -/
inductive Event (ι : Type) {E : Type} (R : E → Type) (τ X : Type) : Type where
  | task (i : ι) (now : τ) (x : Exchange R)
  | env (now : τ) (a : X)

def Event.now : Event ι R τ X → τ
  | .task _ now _ => now
  | .env now _ => now

def Ascends [LE τ] (tr : List (Event ι R τ X)) : Prop :=
  tr.Pairwise fun ev ev' ↦ ev.now ≤ ev'.now

/-- What an event may do to the shared state. -/
abbrev World (σ ι : Type) {E : Type} (R : E → Type) (τ X : Type) :=
  σ → Event ι R τ X → σ → Prop

section Projection

variable [DecidableEq ι]

/-- The exchange of an event, when it is one of the task `i`. -/
def Event.exchangeOf (i : ι) : Event ι R τ X → Option (Exchange R)
  | .task j _ x => if j = i then some x else none
  | .env _ _ => none

/-- The exchanges of the task `i` in a run. -/
def exchangesOf (i : ι) (tr : List (Event ι R τ X)) : List (Exchange R) :=
  tr.filterMap (Event.exchangeOf i)

@[simp] theorem exchangesOf_nil (i : ι) :
    exchangesOf i ([] : List (Event ι R τ X)) = [] := rfl

@[simp] theorem exchangesOf_append (i : ι) (tr tr' : List (Event ι R τ X)) :
    exchangesOf i (tr ++ tr') = exchangesOf i tr ++ exchangesOf i tr' :=
  List.filterMap_append

@[simp] theorem exchangesOf_task_self (i : ι) (now : τ) (x : Exchange R)
    (tr : List (Event ι R τ X)) :
    exchangesOf i (.task i now x :: tr) = x :: exchangesOf i tr := by
  simp [exchangesOf, Event.exchangeOf]

theorem exchangesOf_task_ne {i j : ι} (h : j ≠ i) (now : τ) (x : Exchange R)
    (tr : List (Event ι R τ X)) :
    exchangesOf i (.task j now x :: tr) = exchangesOf i tr := by
  simp [exchangesOf, Event.exchangeOf, h]

@[simp] theorem exchangesOf_env (i : ι) (now : τ) (a : X) (tr : List (Event ι R τ X)) :
    exchangesOf i (.env now a :: tr) = exchangesOf i tr := rfl

theorem mem_exchangesOf {i : ι} {tr : List (Event ι R τ X)} {x : Exchange R} :
    x ∈ exchangesOf i tr ↔ ∃ now, .task i now x ∈ tr := by
  simp only [exchangesOf, List.mem_filterMap]
  constructor
  · rintro ⟨ev, hev, hx⟩
    cases ev with
    | env now a => simp [Event.exchangeOf] at hx
    | task j now y =>
        by_cases hj : j = i
        · subst hj
          simp only [Event.exchangeOf, if_pos, Option.some.injEq] at hx
          exact ⟨now, hx ▸ hev⟩
        · simp [Event.exchangeOf, hj] at hx
  · rintro ⟨now, hmem⟩
    exact ⟨_, hmem, by simp [Event.exchangeOf]⟩

section Clock

variable [Preorder τ] {tr tr' : List (Event ι R τ X)} {ev : Event ι R τ X}

omit [DecidableEq ι] in
theorem Ascends.left (h : Ascends (tr ++ tr')) : Ascends tr := (List.pairwise_append.mp h).1

omit [DecidableEq ι] in
theorem Ascends.le_last (h : Ascends (tr ++ [ev])) : ∀ ev' ∈ tr, ev'.now ≤ ev.now := fun ev' hev' ↦
  (List.pairwise_append.mp h).2.2 ev' hev' ev (List.mem_singleton_self ev)

end Clock

/-- A split of the exchanges of one task comes from a split of the run. -/
theorem exists_split_of_exchangesOf {i : ι} {tr : List (Event ι R τ X)}
    {pre post : List (Exchange R)} {x : Exchange R}
    (h : exchangesOf i tr = pre ++ x :: post) :
    ∃ before now after, tr = before ++ .task i now x :: after ∧
      exchangesOf i before = pre ∧ exchangesOf i after = post := by
  induction tr generalizing pre with
  | nil => simp at h
  | cons ev tr ih =>
      have skip (hev : exchangesOf i (ev :: tr) = exchangesOf i tr) :
          ∃ before now after, ev :: tr = before ++ .task i now x :: after ∧
            exchangesOf i before = pre ∧ exchangesOf i after = post := by
        obtain ⟨before, now, after, rfl, hpre, hpost⟩ := ih (hev ▸ h)
        have hempty : exchangesOf i [ev] = [] := by
          have := congrArg List.length hev
          simp only [← List.singleton_append (l := before ++ _), exchangesOf_append,
            List.length_append] at this
          exact List.eq_nil_of_length_eq_zero (by omega)
        refine ⟨ev :: before, now, after, rfl, ?_, hpost⟩
        rw [← List.singleton_append, exchangesOf_append, hempty, List.nil_append, hpre]
      cases ev with
      | env now a => exact skip (exchangesOf_env ..)
      | task j now y =>
          by_cases hj : j = i
          · subst hj
            rw [exchangesOf_task_self] at h
            cases pre with
            | nil =>
                obtain ⟨rfl, rfl⟩ := List.cons.inj h
                exact ⟨[], now, tr, rfl, rfl, rfl⟩
            | cons z pre =>
                obtain ⟨rfl, hrest⟩ := List.cons.inj h
                obtain ⟨before, now', after, rfl, hpre, hpost⟩ := ih hrest
                exact ⟨.task j now y :: before, now', after, rfl,
                  by rw [exchangesOf_task_self, hpre], hpost⟩
          · exact skip (exchangesOf_task_ne hj ..)

/-- The exchanges of the task `i` with their times. -/
def stampedOf (i : ι) (tr : List (Event ι R τ X)) : List (τ × Exchange R) :=
  tr.filterMap fun
    | .task j now x => if j = i then some (now, x) else none
    | .env _ _ => none

theorem mem_stampedOf {i : ι} {tr : List (Event ι R τ X)} {now : τ} {x : Exchange R} :
    (now, x) ∈ stampedOf i tr ↔ .task i now x ∈ tr := by
  simp only [stampedOf, List.mem_filterMap]
  constructor
  · rintro ⟨ev, hev, hx⟩
    cases ev with
    | env t a => cases hx
    | task j t y =>
        by_cases hj : j = i
        · subst hj
          simp only [if_pos, Option.some.injEq, Prod.mk.injEq] at hx
          obtain ⟨rfl, rfl⟩ := hx
          exact hev
        · simp [hj] at hx
  · intro hmem
    exact ⟨_, hmem, by simp⟩

theorem map_snd_stampedOf (i : ι) (tr : List (Event ι R τ X)) :
    (stampedOf i tr).map Prod.snd = exchangesOf i tr := by
  rw [stampedOf, exchangesOf, List.map_filterMap]
  congr 1
  funext ev
  cases ev with
  | env now a => rfl
  | task j now x =>
      by_cases hj : j = i <;> simp [Event.exchangeOf, hj]

end Projection

theorem exists_first {γ : Type} {P : γ → Prop} {l : List γ} (h : ∃ x ∈ l, P x) :
    ∃ pre x post, l = pre ++ x :: post ∧ P x ∧ ∀ y ∈ pre, ¬ P y := by
  classical
  obtain ⟨y, hy, hP⟩ := h
  have hsome : (l.find? fun x ↦ decide (P x)).isSome :=
    List.find?_isSome.mpr ⟨y, hy, decide_eq_true hP⟩
  obtain ⟨x, hx⟩ := Option.isSome_iff_exists.mp hsome
  obtain ⟨hPx, pre, post, hl, hpre⟩ := List.find?_eq_some_iff_append.mp hx
  exact ⟨pre, x, post, hl, of_decide_eq_true hPx, fun y hy ↦ by simpa using hpre y hy⟩

theorem exists_last {γ : Type} {P : γ → Prop} {l : List γ} (h : ∃ x ∈ l, P x) :
    ∃ pre x post, l = pre ++ x :: post ∧ P x ∧ ∀ y ∈ post, ¬ P y := by
  have hreverse : ∃ x ∈ l.reverse, P x := by simpa using h
  obtain ⟨post, x, pre, hl, hP, hpost⟩ := exists_first hreverse
  refine ⟨pre.reverse, x, post.reverse, ?_, hP, by simpa using hpost⟩
  rw [← List.reverse_reverse l, hl]
  simp

theorem mem_order {γ : Type} {l : List γ} {x y : γ} (hx : x ∈ l) (hy : y ∈ l) :
    x = y ∨ (∃ a b c, l = a ++ x :: (b ++ y :: c)) ∨ ∃ a b c, l = a ++ y :: (b ++ x :: c) := by
  obtain ⟨a, c, rfl⟩ := List.append_of_mem hx
  rcases List.mem_append.mp hy with hy | hy
  · obtain ⟨a', b, rfl⟩ := List.append_of_mem hy
    exact .inr (.inr ⟨a', b, c, by simp⟩)
  · rcases List.mem_cons.mp hy with rfl | hy
    · exact .inl rfl
    · obtain ⟨b, c', rfl⟩ := List.append_of_mem hy
      exact .inr (.inl ⟨a, b, c', rfl⟩)

/-! ## The shared state along a run -/

/-- `Evolves W s₀ tr s`: the events `tr` take the shared state from `s₀` to `s`. -/
inductive Evolves (W : World σ ι R τ X) (s₀ : σ) : List (Event ι R τ X) → σ → Prop
  | start : Evolves W s₀ [] s₀
  | step {tr : List (Event ι R τ X)} {s s' : σ} {ev : Event ι R τ X}
      (past : Evolves W s₀ tr s) (now : W s ev s') : Evolves W s₀ (tr ++ [ev]) s'

namespace Evolves

variable {W : World σ ι R τ X} {s₀ s : σ} {tr tr' : List (Event ι R τ X)}
  {ev : Event ι R τ X}

theorem snoc_iff : Evolves W s₀ (tr ++ [ev]) s ↔ ∃ m, Evolves W s₀ tr m ∧ W m ev s := by
  constructor
  · generalize hl : tr ++ [ev] = l
    intro h
    cases h with
    | start => simp at hl
    | step past now =>
        obtain ⟨rfl, hev⟩ := List.append_inj' hl rfl
        cases hev
        exact ⟨_, past, now⟩
  · rintro ⟨m, past, now⟩
    exact .step past now

@[simp] theorem nil_iff : Evolves W s₀ [] s ↔ s = s₀ := by
  constructor
  · generalize hl : ([] : List (Event ι R τ X)) = l
    intro h
    cases h with
    | start => rfl
    | step past now => simp at hl
  · rintro rfl
    exact .start

theorem append_iff : Evolves W s₀ (tr ++ tr') s ↔
    ∃ m, Evolves W s₀ tr m ∧ Evolves W m tr' s := by
  induction tr' using List.reverseRecOn generalizing s with
  | nil => simp
  | append_singleton tr' ev ih =>
      rw [← List.append_assoc, snoc_iff]
      constructor
      · rintro ⟨m, hm, hev⟩
        obtain ⟨m', hm', hrest⟩ := ih.mp hm
        exact ⟨m', hm', .step hrest hev⟩
      · rintro ⟨m', hm', hrest⟩
        obtain ⟨m, hm, hev⟩ := snoc_iff.mp hrest
        exact ⟨m, ih.mpr ⟨m', hm', hm⟩, hev⟩

theorem cons_iff : Evolves W s₀ (ev :: tr) s ↔ ∃ m, W s₀ ev m ∧ Evolves W m tr s := by
  rw [← List.singleton_append, append_iff]
  constructor
  · rintro ⟨m, hm, hrest⟩
    rw [← List.nil_append [ev], snoc_iff] at hm
    obtain ⟨m', hm', hev⟩ := hm
    rw [nil_iff] at hm'
    exact ⟨m, hm' ▸ hev, hrest⟩
  · rintro ⟨m, hev, hrest⟩
    refine ⟨m, ?_, hrest⟩
    rw [← List.nil_append [ev]]
    exact .step .start hev

/-- What every allowed event preserves holds at the end of every run. -/
theorem invariant (Inv : σ → Prop)
    (hstep : ∀ s ev s', ev ∈ tr → Inv s → W s ev s' → Inv s')
    (h : Evolves W s₀ tr s) (h₀ : Inv s₀) : Inv s := by
  induction h with
  | start => exact h₀
  | step past now ih =>
      refine hstep _ _ _ (by simp) (ih fun s ev s' hev ↦ ?_) now
      exact hstep s ev s' (List.mem_append_left _ hev)

/-- What holds at first and not in the end gets lost by one event. -/
theorem lost {P : σ → Prop} (h : Evolves W s₀ tr s) (h₀ : P s₀) (hlost : ¬ P s) :
    ∃ pre ev post m m', tr = pre ++ ev :: post ∧ Evolves W s₀ pre m ∧ W m ev m' ∧
      P m ∧ ¬ P m' := by
  induction h with
  | start => exact absurd h₀ hlost
  | @step tr m m' ev past now ih =>
      by_cases hm : P m
      · exact ⟨tr, ev, [], m, m', rfl, past, now, hm, hlost⟩
      · obtain ⟨pre, ev₁, post, m₁, m₂, rfl, hpre, hev, hkept, hgone⟩ := ih hm
        exact ⟨pre, ev₁, post ++ [ev], m₁, m₂, by simp, hpre, hev, hkept, hgone⟩

theorem acted (h : Evolves W s₀ tr s) (hev : ev ∈ tr) : ∃ m m', W m ev m' := by
  induction h with
  | start => cases hev
  | step past now ih =>
      rcases List.mem_append.mp hev with hev | hev
      · exact ih hev
      · obtain rfl := List.mem_singleton.mp hev
        exact ⟨_, _, now⟩

end Evolves

/-! ## Runs -/

section Runs

variable [DecidableEq ι]

/-- A run of the pool `p₀` from the shared state `s₀`. -/
inductive Run (W : World σ ι R τ X) (p₀ : ι → Coro R ε α) (s₀ : σ) :
    List (Event ι R τ X) → (ι → Coro R ε α) → σ → Prop
  | start : Run W p₀ s₀ [] p₀ s₀
  | task {tr : List (Event ι R τ X)} {p : ι → Coro R ε α} {s s' : σ} (i : ι) (now : τ)
      (e : E) (next : R e → Coro R ε α) (r : R e) (past : Run W p₀ s₀ tr p s)
      (waiting : p i = await e next) (answered : W s (.task i now ⟨e, r⟩) s') :
      Run W p₀ s₀ (tr ++ [.task i now ⟨e, r⟩]) (Function.update p i (next r)) s'
  | env {tr : List (Event ι R τ X)} {p : ι → Coro R ε α} {s s' : σ} (now : τ) (a : X)
      (past : Run W p₀ s₀ tr p s) (acted : W s (.env now a) s') :
      Run W p₀ s₀ (tr ++ [.env now a]) p s'

variable {W : World σ ι R τ X} {p₀ p : ι → Coro R ε α} {s₀ s : σ}
  {tr : List (Event ι R τ X)}

theorem Run.evolves (h : Run W p₀ s₀ tr p s) : Evolves W s₀ tr s := by
  induction h with
  | start => exact .start
  | task i now e next r past waiting answered ih => exact .step ih answered
  | env now a past acted ih => exact .step ih acted

theorem Run.steps (h : Run W p₀ s₀ tr p s) (i : ι) : Steps (p₀ i) (exchangesOf i tr) (p i) := by
  induction h with
  | start => exact .refl _
  | task j now e next r past waiting answered ih =>
      rw [exchangesOf_append]
      by_cases hj : j = i
      · subst hj
        rw [Function.update_self, exchangesOf_task_self, exchangesOf_nil]
        exact (waiting ▸ ih).snoc r
      · rw [Function.update_of_ne (Ne.symm hj), exchangesOf_task_ne hj, exchangesOf_nil,
          List.append_nil]
        exact ih
  | env now a past acted ih =>
      rw [exchangesOf_append, exchangesOf_env, exchangesOf_nil, List.append_nil]
      exact ih

/-- A run is a history of the shared state along which every task steps. -/
theorem run_iff : Run W p₀ s₀ tr p s ↔
    Evolves W s₀ tr s ∧ ∀ i, Steps (p₀ i) (exchangesOf i tr) (p i) := by
  refine ⟨fun h ↦ ⟨h.evolves, h.steps⟩, ?_⟩
  induction tr using List.reverseRecOn generalizing p s with
  | nil =>
      rintro ⟨hev, hsteps⟩
      rw [Evolves.nil_iff.mp hev, ← funext fun i ↦ Steps.nil_iff.mp (hsteps i)]
      exact .start
  | append_singleton tr ev ih =>
      rintro ⟨hev, hsteps⟩
      obtain ⟨m, hm, hW⟩ := Evolves.snoc_iff.mp hev
      cases ev with
      | env now a =>
          refine .env now a (ih ⟨hm, fun i ↦ ?_⟩) hW
          simpa using hsteps i
      | task j now x =>
          obtain ⟨e, r⟩ := x
          obtain ⟨next, hnext, hp⟩ :=
            (show Steps (p₀ j) (exchangesOf j tr ++ [⟨e, r⟩]) (p j) by
              simpa using hsteps j).await_of_snoc
          have hprev : Run W p₀ s₀ tr (Function.update p j (await e next)) m := by
            refine ih ⟨hm, fun i ↦ ?_⟩
            by_cases hi : i = j
            · subst hi
              simpa using hnext
            · rw [Function.update_of_ne hi]
              simpa [exchangesOf_task_ne (Ne.symm hi)] using hsteps i
          have hupd : p = Function.update (Function.update p j (await e next)) j (next r) := by
            rw [Function.update_idem, ← hp, Function.update_eq_self]
          rw [hupd]
          exact .task j now e next r hprev (Function.update_self ..) hW

theorem Run.init {ev : Event ι R τ X} (h : Run W p₀ s₀ (tr ++ [ev]) p s) :
    ∃ p' s', Run W p₀ s₀ tr p' s' ∧ W s' ev s := by
  generalize hl : tr ++ [ev] = l at h
  cases h with
  | start => simp at hl
  | task i now e next r past waiting answered =>
      obtain ⟨rfl, hev⟩ := List.append_inj' hl rfl
      cases hev
      exact ⟨_, _, past, answered⟩
  | env now a past acted =>
      obtain ⟨rfl, hev⟩ := List.append_inj' hl rfl
      cases hev
      exact ⟨_, _, past, acted⟩

theorem Run.left {tr' : List (Event ι R τ X)} (h : Run W p₀ s₀ (tr ++ tr') p s) :
    ∃ p' s', Run W p₀ s₀ tr p' s' := by
  induction tr' using List.reverseRecOn generalizing p s with
  | nil => exact ⟨p, s, by simpa using h⟩
  | append_singleton tr' ev ih =>
      rw [← List.append_assoc] at h
      obtain ⟨p', s', hpast, _⟩ := h.init
      exact ih hpast

theorem Run.split {tr' : List (Event ι R τ X)} (h : Run W p₀ s₀ (tr ++ tr') p s) :
    ∃ p₁ s₁, Run W p₀ s₀ tr p₁ s₁ ∧ Run W p₁ s₁ tr' p s := by
  obtain ⟨hev, hsteps⟩ := run_iff.mp h
  obtain ⟨s₁, hfirst, hrest⟩ := Evolves.append_iff.mp hev
  have hmid (i : ι) : ∃ y, Steps (p₀ i) (exchangesOf i tr) y ∧ Steps y (exchangesOf i tr') (p i) :=
    (exchangesOf_append i tr tr' ▸ hsteps i).split
  choose p₁ hp₁ hp using hmid
  exact ⟨p₁, s₁, run_iff.mpr ⟨hfirst, hp₁⟩, run_iff.mpr ⟨hrest, hp⟩⟩

/-- Read the runs of a world in another one whose steps are those of the first
seen through `f`. -/
theorem Run.map {σ' : Type} {W' : World σ' ι R τ X} (f : σ → σ')
    (hW : ∀ s ev s', W s ev s' → W' (f s) ev (f s')) (h : Run W p₀ s₀ tr p s) :
    Run W' p₀ (f s₀) tr p (f s) := by
  induction h with
  | start => exact .start
  | task i now e next r past waiting answered ih =>
      exact .task i now e next r ih waiting (hW _ _ _ answered)
  | env now a past acted ih => exact .env now a ih (hW _ _ _ acted)

/-- What two worlds have to agree on: when an event happens, and which task
exchanges what. -/
def Event.visible : Event ι R τ X → τ × Option (ι × Exchange R)
  | .task i now x => (now, some (i, x))
  | .env now _ => (now, none)

/-- Forward simulation: a world whose every good step another one can answer has
only runs that the other one has too, as far as they are visible. -/
theorem Run.simulates {σ' X' : Type} {W' : World σ' ι R τ X'} {s₀' : σ'} (Rel : σ → σ' → Prop)
    (good : Event ι R τ X → Prop)
    (hstep : ∀ s ev t s', Rel s s' → good ev → W s ev t →
      ∃ ev' t', W' s' ev' t' ∧ Rel t t' ∧ ev'.visible = ev.visible)
    (h₀ : Rel s₀ s₀') (h : Run W p₀ s₀ tr p s) (hgood : ∀ ev ∈ tr, good ev) :
    ∃ tr' s', Run W' p₀ s₀' tr' p s' ∧ Rel s s' ∧
      tr'.map Event.visible = tr.map Event.visible := by
  induction h with
  | start => exact ⟨[], s₀', .start, h₀, rfl⟩
  | task i now e next r past waiting answered ih =>
      obtain ⟨tr', s', hrun, hrel, hsame⟩ := ih fun ev hev ↦ hgood ev (List.mem_append_left _ hev)
      obtain ⟨ev', t', hW, hrel', hev⟩ := hstep _ _ _ _ hrel (hgood _ (by simp)) answered
      cases ev' with
      | env now' a => simp [Event.visible] at hev
      | task j now' x =>
          simp only [Event.visible, Prod.mk.injEq, Option.some.injEq] at hev
          obtain ⟨rfl, rfl, rfl⟩ := hev
          exact ⟨_, t', .task j now' e next r hrun waiting hW,
            hrel', by simp [hsame, Event.visible]⟩
  | env now a past acted ih =>
      obtain ⟨tr', s', hrun, hrel, hsame⟩ := ih fun ev hev ↦ hgood ev (List.mem_append_left _ hev)
      obtain ⟨ev', t', hW, hrel', hev⟩ := hstep _ _ _ _ hrel (hgood _ (by simp)) acted
      cases ev' with
      | task j now' x => simp [Event.visible] at hev
      | env now' b =>
          obtain rfl : now' = now := congrArg Prod.fst hev
          exact ⟨_, t', .env now' b hrun hW, hrel', by simp [hsame, Event.visible]⟩

/-! ## Playing a schedule -/

/-- Let the scheduled tasks take one step each, every effect answered by
`answer`; a task that has ended is skipped. -/
def play (answer : ι → τ → (e : E) → σ → R e × σ) :
    List (ι × τ) → (ι → Coro R ε α) × σ → List (Event ι R τ X) × (ι → Coro R ε α) × σ
  | [], (p, s) => ([], p, s)
  | (i, now) :: rest, (p, s) =>
    match p i with
    | .await e next =>
      let (r, s') := answer i now e s
      let (tr, end_) := play answer rest (Function.update p i (next r), s')
      (.task i now ⟨e, r⟩ :: tr, end_)
    | _ => play answer rest (p, s)

theorem now_play (answer : ι → τ → (e : E) → σ → R e × σ) (schedule : List (ι × τ))
    (p : ι → Coro R ε α) (s : σ) :
    ((play answer schedule (p, s)).1.map (Event.now : Event ι R τ X → τ)).Sublist
      (schedule.map Prod.snd) := by
  induction schedule generalizing p s with
  | nil => exact .slnil
  | cons move rest ih =>
      obtain ⟨i, now⟩ := move
      cases hp : p i with
      | await e next =>
          simp only [play, hp, List.map_cons, Event.now]
          exact (ih _ _).cons_cons now
      | ret a =>
          simp only [play, hp, List.map_cons]
          exact (ih _ _).cons now
      | raise err =>
          simp only [play, hp, List.map_cons]
          exact (ih _ _).cons now

theorem env_not_mem_play (answer : ι → τ → (e : E) → σ → R e × σ) (schedule : List (ι × τ))
    (p : ι → Coro R ε α) (s : σ) (now : τ) (a : X) :
    (.env now a : Event ι R τ X) ∉ (play answer schedule (p, s)).1 := by
  induction schedule generalizing p s with
  | nil => simp [play]
  | cons move rest ih =>
      obtain ⟨i, t⟩ := move
      cases hp : p i with
      | ret a => simpa only [play, hp] using ih p s
      | raise err => simpa only [play, hp] using ih p s
      | await e next =>
          simp only [play, hp, List.mem_cons, reduceCtorEq, false_or]
          exact ih _ _

omit [DecidableEq ι] in
theorem Evolves.unique {s' : σ} (hW : ∀ s ev t t', W s ev t → W s ev t' → t = t')
    (h : Evolves W s₀ tr s) (h' : Evolves W s₀ tr s') : s = s' := by
  induction h generalizing s' with
  | start => exact (Evolves.nil_iff.mp h').symm
  | step past now ih =>
      obtain ⟨m, hm, hev⟩ := Evolves.snoc_iff.mp h'
      have heq := ih hm
      subst heq
      exact hW _ _ _ _ now hev

theorem Run.append {tr' : List (Event ι R τ X)} {p₁ : ι → Coro R ε α} {s₁ : σ}
    (first : Run W p₀ s₀ tr p₁ s₁) (rest : Run W p₁ s₁ tr' p s) : Run W p₀ s₀ (tr ++ tr') p s := by
  obtain ⟨hev₁, hsteps₁⟩ := run_iff.mp first
  obtain ⟨hev, hsteps⟩ := run_iff.mp rest
  refine run_iff.mpr ⟨Evolves.append_iff.mpr ⟨s₁, hev₁, hev⟩, fun i ↦ ?_⟩
  rw [exchangesOf_append]
  exact (hsteps₁ i).append (hsteps i)

/-- Every effect the scheduled tasks await is good where it is answered. -/
def goodPlay (answer : ι → τ → (e : E) → σ → R e × σ) (good : E → σ → Bool) :
    List (ι × τ) → (ι → Coro R ε α) × σ → Bool
  | [], _ => true
  | (i, now) :: rest, (p, s) =>
    match p i with
    | .await e next =>
      good e s && goodPlay answer good rest
        (Function.update p i (next (answer i now e s).1), (answer i now e s).2)
    | _ => goodPlay answer good rest (p, s)

theorem goodPlay_run {answer : ι → τ → (e : E) → σ → R e × σ} {good : E → σ → Bool}
    (hanswer : ∀ i now e s, good e s = true →
      W s (.task i now ⟨e, (answer i now e s).1⟩) (answer i now e s).2)
    {schedule : List (ι × τ)} (hgood : goodPlay answer good schedule (p₀, s₀) = true)
    (h : play answer schedule (p₀, s₀) = (tr, p, s)) : Run W p₀ s₀ tr p s := by
  induction schedule generalizing p₀ s₀ tr with
  | nil =>
      cases h
      exact .start
  | cons move rest ih =>
      obtain ⟨i, now⟩ := move
      cases hp : p₀ i with
      | ret a =>
          exact ih (by simpa only [goodPlay, hp] using hgood) (by simpa only [play, hp] using h)
      | raise err =>
          exact ih (by simpa only [goodPlay, hp] using hgood) (by simpa only [play, hp] using h)
      | await e next =>
          simp only [play, hp, Prod.mk.injEq] at h
          simp only [goodPlay, hp, Bool.and_eq_true] at hgood
          obtain ⟨rfl, hrest⟩ := h
          have hfirst : Run W p₀ s₀ [.task i now ⟨e, (answer i now e s₀).1⟩] _ _ :=
            .task i now e next _ .start hp (hanswer i now e s₀ hgood.1)
          exact hfirst.append (ih hgood.2 (Prod.ext rfl hrest))

theorem goodPlay_always {answer : ι → τ → (e : E) → σ → R e × σ} {schedule : List (ι × τ)}
    {start : (ι → Coro R ε α) × σ} : goodPlay answer (fun _ _ ↦ true) schedule start = true := by
  induction schedule generalizing start with
  | nil => rfl
  | cons move rest ih =>
      obtain ⟨i, now⟩ := move
      obtain ⟨p, s⟩ := start
      cases hp : p i with
      | ret a => simpa only [goodPlay, hp] using ih
      | raise err => simpa only [goodPlay, hp] using ih
      | await e next => simpa only [goodPlay, hp, Bool.true_and] using ih

theorem play_run {answer : ι → τ → (e : E) → σ → R e × σ}
    (hanswer : ∀ i now e s, W s (.task i now ⟨e, (answer i now e s).1⟩) (answer i now e s).2)
    {schedule : List (ι × τ)} (h : play answer schedule (p₀, s₀) = (tr, p, s)) :
    Run W p₀ s₀ tr p s :=
  goodPlay_run (fun i now e s _ ↦ hanswer i now e s) goodPlay_always h

theorem run_of_played {answer : ι → τ → (e : E) → σ → R e × σ}
    {schedule : List (ι × τ)} {played : List (Event ι R τ X) × (ι → Coro R ε α) × σ}
    (hplayed : played = play answer schedule (p₀, s₀))
    (hanswer : ∀ i now e s, W s (.task i now ⟨e, (answer i now e s).1⟩) (answer i now e s).2) :
    Run W p₀ s₀ played.1 played.2.1 played.2.2 :=
  play_run hanswer hplayed.symm

end Runs

end Interleaving
