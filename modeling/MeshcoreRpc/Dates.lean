import MeshcoreRpc.Lib.Calendar
import MeshcoreRpc.Lib.Decimal
import MeshcoreRpc.Python

/-!
# Dates as text

What a reader finds in the dates that the service writes.
-/

namespace MeshcoreRpc

open Scanning

namespace DateTime

/-! ## Civil dates -/

/-- The day is the number of its date, which is one of the calendar. -/
theorem civil_date (day : ℤ) :
    (1 ≤ (civil day).2.1 ∧ (civil day).2.1 ≤ 12) ∧ (1 ≤ (civil day).2.2 ∧ (civil day).2.2 ≤ 31) ∧
      Calendar.ordinal (civil day).1 (civil day).2.1 (civil day).2.2 = day + 719163 := by
  have hlo : 0 ≤ (day + 719468) % 146097 := by omega
  have hhi : (day + 719468) % 146097 < 146097 := by omega
  obtain ⟨hdoy, hdoy'⟩ := Calendar.dayOfYear_range hlo hhi
  have hmarch := Calendar.marchOrdinal_of_era hlo hhi ((day + 719468) / 146097)
  obtain ⟨⟨hmp, hmp'⟩, hdom⟩ := Calendar.march_range hdoy hdoy'
  dsimp only at hmarch
  set doy := Calendar.dayOfYear ((day + 719468) % 146097) with hdoyEq
  set mp := (5 * doy + 2) / 153 with hmpEq
  have hcivil : civil day =
      (Calendar.yearOfEra ((day + 719468) % 146097) + (day + 719468) / 146097 * 400 +
        (if (if mp < 10 then mp + 3 else mp - 9) ≤ 2 then 1 else 0),
        if mp < 10 then mp + 3 else mp - 9, doy - (153 * mp + 2) / 5 + 1) := rfl
  have hmonth : 1 ≤ (if mp < 10 then mp + 3 else mp - 9) ∧
      (if mp < 10 then mp + 3 else mp - 9) ≤ 12 := by
    split_ifs <;> omega
  rw [hcivil]
  refine ⟨hmonth, hdom, ?_⟩
  dsimp only
  rw [Calendar.ordinal_eq_marchOrdinal hmonth.1 hmonth.2]
  by_cases hlate : mp < 10
  · have hspring : ¬ mp + 3 ≤ 2 := by omega
    have hback : mp + 3 - 3 = mp := by omega
    simp only [if_pos hlate, if_neg hspring, hback, add_zero, hmarch]
    omega
  · have hwinter : mp - 9 ≤ 2 := by omega
    have hback : mp - 9 + 9 = mp := by omega
    simp only [if_neg hlate, if_pos hwinter, hback, add_sub_cancel_right, hmarch]
    omega

/-- No date before the year 0 has a number. -/
theorem year_nonneg {year month dom : ℤ} (hmonth : month ≤ 12) (hdom : dom ≤ 31)
    (h : 0 ≤ Calendar.ordinal year month dom) : 0 ≤ year := by
  have hbefore : Calendar.daysBeforeMonth year month ≤ 335 := by
    have hdays : Calendar.daysBefore month ≤ 334 := by
      unfold Calendar.daysBefore
      split <;> omega
    unfold Calendar.daysBeforeMonth
    split_ifs <;> omega
  unfold Calendar.ordinal Calendar.daysBeforeYear at h
  dsimp only at h
  omega

/-! ## Reading -/

theorem padded_toList {n : ℤ} (h : 0 ≤ n) (width : ℕ) :
    (padded width n).toList = Decimal.padded width n.toNat := by
  obtain ⟨k, rfl⟩ := Int.eq_ofNat_of_zero_le h
  have hdigits : (toString (Int.ofNat k)).toList = Nat.toDigits 10 k := by
    show (Nat.repr k).toList = _
    rw [Nat.repr_eq_ofList_toDigits, String.toList_ofList]
  simp only [padded, String.toList_ofList, Decimal.padded]
  rw [show ((k : ℤ)) = Int.ofNat k from rfl, hdigits]
  rfl

/-- A day and a time of day, and what follows them: the seconds since the epoch. -/
def scanSeconds (cs : List Char) : Option (ℤ × List Char) := do
  let (year, cs) ← Decimal.scanNat cs
  let cs ← Decimal.expect '-' cs
  let (month, cs) ← Decimal.scanNat cs
  let cs ← Decimal.expect '-' cs
  let (dom, cs) ← Decimal.scanNat cs
  let cs ← Decimal.expect 'T' cs
  let (hour, cs) ← Decimal.scanNat cs
  let cs ← Decimal.expect ':' cs
  let (minute, cs) ← Decimal.scanNat cs
  let cs ← Decimal.expect ':' cs
  let (second, cs) ← Decimal.scanNat cs
  if 1 ≤ month ∧ month ≤ 12 ∧ 1 ≤ dom ∧ dom ≤ 31 ∧ hour < 24 ∧ minute < 60 ∧ second < 60 then
    some ((Calendar.ordinal year month dom - 719163) * 86400 + hour * 3600 + minute * 60 + second,
      cs)
  else none

/-- The characters of a date and a time of day. -/
def dateChars (width year month dom hour minute second : ℕ) : List Char :=
  Decimal.padded width year ++ '-' :: (Decimal.padded 2 month ++ '-' ::
    (Decimal.padded 2 dom ++ 'T' :: (Decimal.padded 2 hour ++ ':' ::
      (Decimal.padded 2 minute ++ ':' :: Decimal.padded 2 second))))

theorem scanSeconds_dateChars {width year month dom hour minute second : ℕ}
    (h : 1 ≤ month ∧ month ≤ 12 ∧ 1 ≤ dom ∧ dom ≤ 31 ∧ hour < 24 ∧ minute < 60 ∧ second < 60)
    {rest : List Char} (hrest : Stops Char.isDigit rest) :
    scanSeconds (dateChars width year month dom hour minute second ++ rest) =
      some ((Calendar.ordinal year month dom - 719163) * 86400 + hour * 3600 + minute * 60 + second,
        rest) := by
  have hstop (c : Char) (hc : c.isDigit = false) (cs : List Char) :
      Stops Char.isDigit (c :: cs) := stops_cons.mpr hc
  have hread (w n : ℕ) (c : Char) (hc : c.isDigit = false) (cs : List Char) :
      Decimal.scanNat (Decimal.padded w n ++ c :: cs) = some (n, c :: cs) :=
    Decimal.scanNat_padded w n (c :: cs) (hstop c hc cs)
  simp only [scanSeconds, dateChars, List.append_assoc, List.cons_append,
    hread _ _ '-' (by decide), hread _ _ 'T' (by decide), hread _ _ ':' (by decide),
    Decimal.scanNat_padded 2 second rest hrest, Option.bind_eq_bind, Option.bind_some,
    Decimal.expect_cons, if_pos h]

/-- The characters of a second with its year in at least so many digits. -/
def secondsChars (width : ℕ) (seconds : ℤ) : List Char :=
  let date := civil (seconds / 86400)
  let s := seconds % 86400
  dateChars width date.1.toNat date.2.1.toNat date.2.2.toNat (s / 3600).toNat (s / 60 % 60).toNat
    (s % 60).toNat

/-- From the last day of the year 0 on a second is read from its text. -/
theorem scanSeconds_append (width : ℕ) {seconds : ℤ} (h : -62135683200 ≤ seconds)
    (rest : List Char) (hrest : Stops Char.isDigit rest) :
    scanSeconds (secondsChars width seconds ++ rest) = some (seconds, rest) := by
  obtain ⟨⟨hm, hm'⟩, ⟨hd, hd'⟩, hordinal⟩ := civil_date (seconds / 86400)
  have hfirst : 0 ≤ seconds / 86400 + 719163 := by omega
  have hy := year_nonneg hm' hd' (hordinal.symm ▸ hfirst)
  rw [secondsChars, scanSeconds_dateChars (by omega) hrest]
  have hyear : (((civil (seconds / 86400)).1.toNat : ℕ) : ℤ) = (civil (seconds / 86400)).1 :=
    Int.toNat_of_nonneg hy
  have hmonth : (((civil (seconds / 86400)).2.1.toNat : ℕ) : ℤ) = (civil (seconds / 86400)).2.1 :=
    Int.toNat_of_nonneg (by omega)
  have hdom : (((civil (seconds / 86400)).2.2.toNat : ℕ) : ℤ) = (civil (seconds / 86400)).2.2 :=
    Int.toNat_of_nonneg (by omega)
  rw [hyear, hmonth, hdom, hordinal]
  have hsum : (seconds / 86400 + 719163 - 719163) * 86400 +
      ((seconds % 86400 / 3600).toNat : ℤ) * 3600 +
      ((seconds % 86400 / 60 % 60).toNat : ℤ) * 60 + ((seconds % 86400 % 60).toNat : ℤ) =
      seconds := by
    omega
  rw [hsum]

/-- The text of a date up to its seconds, with its year in at least so many digits. -/
def secondsText (width : ℕ) (seconds : ℤ) : String :=
  let (year, month, day) := civil (seconds / 86400)
  let s := seconds % 86400
  padded width year ++ "-" ++ padded 2 month ++ "-" ++ padded 2 day ++ "T" ++
    padded 2 (s / 3600) ++ ":" ++ padded 2 (s / 60 % 60) ++ ":" ++ padded 2 (s % 60)

theorem secondsText_toList (width : ℕ) {seconds : ℤ} (h : -62135683200 ≤ seconds) :
    (secondsText width seconds).toList = secondsChars width seconds := by
  obtain ⟨⟨hm, hm'⟩, ⟨hd, hd'⟩, hordinal⟩ := civil_date (seconds / 86400)
  have hfirst : 0 ≤ seconds / 86400 + 719163 := by omega
  have hy := year_nonneg hm' hd' (hordinal.symm ▸ hfirst)
  have hs : 0 ≤ seconds % 86400 := by omega
  have hdash : "-".toList = ['-'] := rfl
  have htime : "T".toList = ['T'] := rfl
  have hcolon : ":".toList = [':'] := rfl
  simp only [secondsText, String.toList_append, padded_toList hy, hdash, htime, hcolon,
    padded_toList (show 0 ≤ (civil (seconds / 86400)).2.1 by omega),
    padded_toList (show 0 ≤ (civil (seconds / 86400)).2.2 by omega),
    padded_toList (show 0 ≤ seconds % 86400 / 3600 by omega),
    padded_toList (show 0 ≤ seconds % 86400 / 60 % 60 by omega),
    padded_toList (show 0 ≤ seconds % 86400 % 60 by omega), List.append_assoc,
    List.singleton_append]
  rfl

/-- The seconds since the epoch of a date with a `Z`. -/
def readSeconds (s : String) : Option ℤ := do
  let (seconds, cs) ← scanSeconds s.toList
  let cs ← Decimal.expect 'Z' cs
  if cs = [] then some seconds else none

theorem seconds_ge (d : DateTime) : -62135683200 ≤ d.us / 1000000 := by
  have := d.year_ge
  omega

theorem isoSeconds_eq (d : DateTime) :
    d.isoSeconds = secondsText 4 (d.us / 1000000) ++ "Z" := rfl

/-- The text of a date denotes the second that the date lies in. -/
theorem readSeconds_isoSeconds (d : DateTime) :
    readSeconds d.isoSeconds = some (d.us / 1000000) := by
  have hscan := scanSeconds_append 4 d.seconds_ge ['Z'] (stops_cons.mpr (by decide))
  have htext : d.isoSeconds.toList = secondsChars 4 (d.us / 1000000) ++ ['Z'] := by
    rw [isoSeconds_eq, String.toList_append, secondsText_toList 4 d.seconds_ge]
    rfl
  rw [readSeconds, htext, hscan]
  rfl

end DateTime

end MeshcoreRpc
