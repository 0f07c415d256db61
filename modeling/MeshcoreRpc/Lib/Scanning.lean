import Mathlib.Data.List.TakeWhile

/-!
# The front of a text

A scanner takes the longest front of a text whose characters satisfy a
predicate.  What it takes is known where the rest does not go on with one.
-/

namespace Scanning

/-- No character at the front of a text satisfies `p`. -/
def Stops (p : Char → Bool) (cs : List Char) : Prop := ∀ c ∈ cs.head?, p c = false

theorem stops_nil {p : Char → Bool} : Stops p [] := by simp [Stops]

theorem stops_cons {p : Char → Bool} {c : Char} {cs : List Char} :
    Stops p (c :: cs) ↔ p c = false := by simp [Stops]

theorem Stops.append {p : Char → Bool} {cs rest : List Char} (h : ∀ c ∈ cs, p c = false)
    (hrest : Stops p rest) : Stops p (cs ++ rest) := by
  cases cs with
  | nil => exact hrest
  | cons c cs => exact stops_cons.mpr (h c List.mem_cons_self)

theorem Stops.mono {p q : Char → Bool} {cs : List Char} (h : Stops p cs)
    (hle : ∀ c, q c = true → p c = true) : Stops q cs := by
  intro c hc
  have hp := h c hc
  cases hq : q c with
  | false => rfl
  | true => rw [hle c hq] at hp; exact hp

theorem dropWhile_stops {p : Char → Bool} {cs rest : List Char} (h : ∀ c ∈ cs, p c = true)
    (hrest : Stops p rest) : (cs ++ rest).dropWhile p = rest := by
  rw [List.dropWhile_append_of_pos h]
  cases rest with
  | nil => rfl
  | cons c rest => simp [stops_cons.mp hrest]

theorem takeWhile_stops {p : Char → Bool} {cs rest : List Char} (h : ∀ c ∈ cs, p c = true)
    (hrest : Stops p rest) : (cs ++ rest).takeWhile p = cs := by
  rw [List.takeWhile_append_of_pos h]
  cases rest with
  | nil => simp
  | cons c rest => simp [stops_cons.mp hrest]

end Scanning
