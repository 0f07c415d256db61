import MeshcoreRpc.Python

/-!
# Great circles

`geo.py` in float arithmetic.  Sums, products and the conversions between degrees
and radians are rounded as the processor rounds them; sine, cosine, their inverses
and the square root are those of the C library under `math` (`Libm`).
-/

namespace MeshcoreRpc

/-! ## Floats -/

namespace PyFloat

/-- The float of an exact result; a negative zero is a zero. -/
def ofExact (q : ℚ) : PyFloat :=
  if 2 ^ 1024 ≤ |Binary64.round q| then inf (decide (q < 0)) else fin (Binary64.round q)

/-- `-f` -/
def neg : PyFloat → PyFloat
  | nan => nan
  | inf negative => inf !negative
  | fin q => fin (-q)

/-- `f + g` -/
def add : PyFloat → PyFloat → PyFloat
  | nan, _ => nan
  | _, nan => nan
  | inf negative, inf negative' => if negative = negative' then inf negative else nan
  | inf negative, fin _ => inf negative
  | fin _, inf negative => inf negative
  | fin p, fin q => ofExact (p + q)

/-- `f - g` -/
def sub (f g : PyFloat) : PyFloat := f.add g.neg

/-- `f * g` -/
def mul : PyFloat → PyFloat → PyFloat
  | nan, _ => nan
  | _, nan => nan
  | inf negative, inf negative' => inf (negative != negative')
  | inf negative, fin q => if q = 0 then nan else inf (negative != decide (q < 0))
  | fin p, inf negative => if p = 0 then nan else inf (decide (p < 0) != negative)
  | fin p, fin q => ofExact (p * q)

/-- `f % m` of a positive `m` -/
def mod : PyFloat → ℚ → PyFloat
  | fin q, m =>
    let r := q - m * truncate (q / m)
    if r < 0 then ofExact (r + m) else fin r
  | _, _ => nan

end PyFloat

/-- The integer an `int` or a `bool` is. -/
def PyVal.integral? : PyVal → Option ℤ
  | bool b => some (if b then 1 else 0)
  | int n => some n
  | _ => .none

/-- `v - w` of numbers: integers are subtracted as such. -/
def PyVal.minus (v w : PyVal) : Except PyExc PyVal :=
  match v.integral?, w.integral? with
  | some m, some n => .ok (.int (m - n))
  | _, _ => do
    let f ← v.numberToFloat
    let g ← w.numberToFloat
    return .float (f.sub g)

/-! ## The functions of `math` -/

/-- The C library on finite floats.  `square` is `pow` with exponent 2. -/
structure Libm where
  sin : ℚ → ℚ
  cos : ℚ → ℚ
  asin : ℚ → ℚ
  sqrt : ℚ → ℚ
  square : ℚ → ℚ
  atan2 : PyFloat → PyFloat → ℚ
  /-- The result of `asin` lies between -π/2 and π/2. -/
  asin_le : ∀ x, |asin x| ≤ 2

namespace Libm

variable (libm : Libm)

/-- `math.sin(f)` with `f` for the sine, `math.cos(f)` for the cosine. -/
def circular (f : ℚ → ℚ) : PyFloat → Except PyExc PyFloat
  | .nan => .ok .nan
  | .inf _ => .error .valueError
  | .fin q => .ok (.fin (f q))

/-- `math.asin(f)` -/
def mathAsin : PyFloat → Except PyExc PyFloat
  | .nan => .ok .nan
  | .inf _ => .error .valueError
  | .fin q => if 1 < |q| then .error .valueError else .ok (.fin (libm.asin q))

/-- `math.sqrt(f)` -/
def mathSqrt : PyFloat → Except PyExc PyFloat
  | .nan => .ok .nan
  | .inf negative => if negative then .error .valueError else .ok (.inf false)
  | .fin q => if q < 0 then .error .valueError else .ok (.fin (libm.sqrt q))

/-- `f ** 2` -/
def squared : PyFloat → PyFloat
  | .nan => .nan
  | .inf _ => .inf false
  | .fin q => .fin (libm.square q)

/-- `math.atan2(y, x)` -/
def mathAtan2 : PyFloat → PyFloat → PyFloat
  | .nan, _ => .nan
  | _, .nan => .nan
  | y, x => .fin (libm.atan2 y x)

end Libm

/-- `math.pi / 180.0` and `180.0 / math.pi` -/
def degToRad : PyFloat := .fin (5030569068109113 / 288230376151711744)

def radToDeg : PyFloat := .fin (1007958012753983 / 17592186044416)

/-- `math.radians(v)` -/
def radians (v : PyVal) : Except PyExc PyFloat := do
  return (← v.numberToFloat).mul degToRad

/-! ## `geo.py` -/

def earthRadiusM : ℚ := 6371000

namespace Libm

variable (libm : Libm)

/-- The `a` of `haversine_m`. -/
def haversine (lat1 lon1 lat2 lon2 : PyVal) : Except PyExc PyFloat := do
  let p1 ← radians lat1
  let p2 ← radians lat2
  let dlat ← radians (← lat2.minus lat1)
  let dlon ← radians (← lon2.minus lon1)
  let sinLat ← circular libm.sin (dlat.mul (.fin (1 / 2)))
  let cos1 ← circular libm.cos p1
  let cos2 ← circular libm.cos p2
  let sinLon ← circular libm.sin (dlon.mul (.fin (1 / 2)))
  return (libm.squared sinLat).add ((cos1.mul cos2).mul (libm.squared sinLon))

def haversineM (lat1 lon1 lat2 lon2 : PyVal) : Except PyExc PyFloat := do
  let a ← libm.haversine lat1 lon1 lat2 lon2
  let root ← libm.mathSqrt a
  let angle ← libm.mathAsin root
  return (PyFloat.fin (2 * earthRadiusM)).mul angle

def initialBearingDeg (lat1 lon1 lat2 lon2 : PyVal) : Except PyExc PyFloat := do
  let p1 ← radians lat1
  let p2 ← radians lat2
  let dlon ← radians (← lon2.minus lon1)
  let sinLon ← circular libm.sin dlon
  let cos2 ← circular libm.cos p2
  let cos1 ← circular libm.cos p1
  let sin2 ← circular libm.sin p2
  let sin1 ← circular libm.sin p1
  let cosLon ← circular libm.cos dlon
  let y := sinLon.mul cos2
  let x := (cos1.mul sin2).sub ((sin1.mul cos2).mul cosLon)
  return (((libm.mathAtan2 y x).mul radToDeg).add (.fin 360)).mod 360

end Libm

/-- The two functions as the handlers import them: from the first point to the second,
or the type of the exception. -/
structure Geo where
  haversineM : PyVal → PyVal → PyVal → PyVal → Except String PyFloat
  initialBearingDeg : PyVal → PyVal → PyVal → PyVal → Except String PyFloat

def Libm.geo (libm : Libm) : Geo where
  haversineM lat1 lon1 lat2 lon2 :=
    (libm.haversineM lat1 lon1 lat2 lon2).mapError PyExc.typeName
  initialBearingDeg lat1 lon1 lat2 lon2 :=
    (libm.initialBearingDeg lat1 lon1 lat2 lon2).mapError PyExc.typeName

/-! ## When there is a distance -/

namespace Libm

variable {libm : Libm} {lat1 lon1 lat2 lon2 : PyVal}

/-- The rounded haversine is not negative, and its root is one of a sine. -/
def Measures (libm : Libm) (lat1 lon1 lat2 lon2 : PyVal) : Prop :=
  ∃ a, libm.haversine lat1 lon1 lat2 lon2 = .ok (.fin a) ∧ 0 ≤ a ∧ |libm.sqrt a| ≤ 1

/-- Twice the radius of the earth times an angle is far from the largest float. -/
theorem distance_finite (libm : Libm) (x : ℚ) :
    (PyFloat.fin (2 * earthRadiusM)).mul (.fin (libm.asin x)) =
      .fin (Binary64.round (2 * earthRadiusM * libm.asin x)) := by
  have hasin := libm.asin_le x
  have hround := Binary64.abs_round_le (2 * earthRadiusM * libm.asin x)
  have hradius : |2 * earthRadiusM| = 12742000 := by norm_num [earthRadiusM]
  rw [abs_mul, hradius] at hround
  have hlimit : (2 : ℚ) ^ 30 ≤ 2 ^ 1024 := pow_le_pow_right₀ one_le_two (by norm_num)
  rw [PyFloat.mul, PyFloat.ofExact, if_neg]
  rw [not_le]
  refine lt_of_lt_of_le ?_ hlimit
  norm_num
  linarith

/-- There is a distance just where the haversine stays in the domains of the two roots. -/
theorem haversineM_iff :
    (∃ dist, libm.haversineM lat1 lon1 lat2 lon2 = .ok (.fin dist)) ↔
      libm.Measures lat1 lon1 lat2 lon2 := by
  constructor
  · rintro ⟨dist, h⟩
    obtain ⟨a, ha, h⟩ := except_bind_ok h
    obtain ⟨root, hroot, h⟩ := except_bind_ok h
    obtain ⟨angle, hangle, h⟩ := except_bind_ok h
    cases a with
    | nan =>
        cases hroot
        cases hangle
        cases h
    | inf negative =>
        cases negative with
        | true => cases hroot
        | false =>
            cases hroot
            cases hangle
    | fin a =>
        rw [mathSqrt] at hroot
        split at hroot
        · cases hroot
        · next hneg =>
            cases hroot
            rw [mathAsin] at hangle
            split at hangle
            · cases hangle
            · next hone => exact ⟨a, ha, not_lt.mp hneg, not_lt.mp hone⟩
  · rintro ⟨a, ha, hneg, hone⟩
    have hroot : libm.mathSqrt (.fin a) = .ok (.fin (libm.sqrt a)) := if_neg (not_lt.mpr hneg)
    have hangle : libm.mathAsin (.fin (libm.sqrt a)) = .ok (.fin (libm.asin (libm.sqrt a))) :=
      if_neg (not_lt.mpr hone)
    refine ⟨Binary64.round (2 * earthRadiusM * libm.asin (libm.sqrt a)), ?_⟩
    rw [haversineM, ha]
    change (libm.mathSqrt (.fin a) >>= _) = _
    rw [hroot]
    change (libm.mathAsin _ >>= _) = _
    rw [hangle]
    change Except.ok _ = _
    rw [distance_finite]

end Libm

/-! ## The compass -/

theorem truncate_lt (x : ℚ) : (truncate x : ℚ) < x + 1 := by
  unfold truncate
  split
  · exact Int.ceil_lt_add_one x
  · exact (Int.floor_le x).trans_lt (lt_add_one x)

theorem PyFloat.mod_nonneg {f : PyFloat} {m q : ℚ} (hm : 0 < m) (h : f.mod m = .fin q) :
    0 ≤ q := by
  cases f with
  | nan => cases h
  | inf negative => cases h
  | fin p =>
      rw [PyFloat.mod] at h
      split at h
      · next hneg =>
          rw [PyFloat.ofExact] at h
          split at h
          · cases h
          · cases h
            have hlt := mul_lt_mul_of_pos_left (truncate_lt (p / m)) hm
            rw [mul_add, mul_div_cancel₀ p hm.ne', mul_one] at hlt
            exact Binary64.round_nonneg (by linarith)
      · next hneg =>
          cases h
          exact not_lt.mp hneg

/-- A bearing is not negative. -/
theorem Libm.initialBearingDeg_nonneg {libm : Libm} {lat1 lon1 lat2 lon2 : PyVal} {deg : ℚ}
    (h : libm.initialBearingDeg lat1 lon1 lat2 lon2 = .ok (.fin deg)) : 0 ≤ deg := by
  obtain ⟨p1, _, h⟩ := except_bind_ok h
  obtain ⟨p2, _, h⟩ := except_bind_ok h
  obtain ⟨diff, _, h⟩ := except_bind_ok h
  obtain ⟨dlon, _, h⟩ := except_bind_ok h
  iterate 6 obtain ⟨_, _, h⟩ := except_bind_ok h
  exact PyFloat.mod_nonneg (by norm_num) (Except.ok.inj h)

end MeshcoreRpc
