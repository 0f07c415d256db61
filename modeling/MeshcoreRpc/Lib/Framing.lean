import Mathlib.Data.List.Infix

/-!
# Frames in a stream

A stream is cut at every terminator; what follows the last one is kept back.
Of frames without a terminator inside, every prefix of their stream shows the
first ones, whole and in order.
-/

namespace Framing

variable {α : Type*}

/-- The frames one after the other, each with its terminator. -/
def stream (terminator : α) (fs : List (List α)) : List α := fs.flatMap (· ++ [terminator])

theorem stream_prefix {terminator : α} {fs gs : List (List α)} (h : fs <+: gs) :
    stream terminator fs <+: stream terminator gs := by
  obtain ⟨more, rfl⟩ := h
  rw [stream, stream, List.flatMap_append]
  exact List.prefix_append _ _

variable [DecidableEq α]

/-- The frames that have ended, after what has been read of the first one. -/
def framesFrom (terminator : α) (begun : List α) : List α → List (List α)
  | [] => []
  | a :: as =>
    if a = terminator then begun.reverse :: framesFrom terminator [] as
    else framesFrom terminator (a :: begun) as

/-- The frames that have ended. -/
def frames (terminator : α) (as : List α) : List (List α) := framesFrom terminator [] as

variable {terminator : α}

theorem framesFrom_inside {as : List α} (h : ∀ a ∈ as, a ≠ terminator) (begun rest : List α) :
    framesFrom terminator begun (as ++ rest) =
      framesFrom terminator (as.reverse ++ begun) rest := by
  induction as generalizing begun with
  | nil => rfl
  | cons a as ih =>
      obtain ⟨ha, has⟩ := List.forall_mem_cons.mp h
      rw [List.cons_append, framesFrom, if_neg ha, ih has]
      simp

theorem frames_cons {f : List α} (h : ∀ a ∈ f, a ≠ terminator) (rest : List α) :
    frames terminator (f ++ terminator :: rest) = f :: frames terminator rest := by
  rw [frames, framesFrom_inside h, framesFrom, if_pos rfl, List.append_nil, List.reverse_reverse,
    frames]

theorem frames_stream {fs : List (List α)} (h : ∀ f ∈ fs, ∀ a ∈ f, a ≠ terminator) :
    frames terminator (stream terminator fs) = fs := by
  induction fs with
  | nil => rfl
  | cons f fs ih =>
      obtain ⟨hf, hfs⟩ := List.forall_mem_cons.mp h
      rw [stream, List.flatMap_cons, List.append_assoc, List.singleton_append, frames_cons hf,
        ← stream, ih hfs]

theorem framesFrom_append (terminator : α) (begun as bs : List α) :
    framesFrom terminator begun as <+: framesFrom terminator begun (as ++ bs) := by
  induction as generalizing begun with
  | nil => exact List.nil_prefix
  | cons a as ih =>
      rw [List.cons_append, framesFrom, framesFrom]
      split_ifs
      · exact List.cons_prefix_cons.mpr ⟨rfl, ih []⟩
      · exact ih (a :: begun)

/-- No frame is taken back when more of the stream arrives. -/
theorem frames_mono {as bs : List α} (h : as <+: bs) :
    frames terminator as <+: frames terminator bs := by
  obtain ⟨more, rfl⟩ := h
  exact framesFrom_append terminator [] as more

/-- However much of a stream has arrived, what has ended are its first frames. -/
theorem frames_prefix {fs : List (List α)} (h : ∀ f ∈ fs, ∀ a ∈ f, a ≠ terminator)
    {arrived : List α} (harrived : arrived <+: stream terminator fs) :
    frames terminator arrived <+: fs := by
  have hmono := @frames_mono _ _ terminator _ _ harrived
  rwa [frames_stream h] at hmono

/-- A frame has ended as soon as all of it has arrived. -/
theorem frames_arrived {fs : List (List α)} (h : ∀ f ∈ fs, ∀ a ∈ f, a ≠ terminator)
    {arrived : List α} (harrived : stream terminator fs <+: arrived) :
    fs <+: frames terminator arrived := by
  have hmono := @frames_mono _ _ terminator _ _ harrived
  rwa [frames_stream h] at hmono

end Framing
