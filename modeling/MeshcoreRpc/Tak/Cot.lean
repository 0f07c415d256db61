import MeshcoreRpc.Python

/-!
# Cursor-on-Target events

What `build_cot` and `build_drop_cot` put into an event.  Their texts are the
attributes below with the numbers formatted, so the attributes are kept as the
values they are formatted from.
-/

namespace MeshcoreRpc.Tak

/-- One part of the remarks of a marker. -/
inductive Remark where
  | lastSeenAge (s : ℤ)
  | battery (percent : ℤ)
  | rssi (n : ℤ)
  | snr (f : PyFloat)

/-- The event of an entity with a position. -/
structure Track where
  uid : String
  cotType : String
  lat : PyFloat
  lon : PyFloat
  time : DateTime
  stale : DateTime
  callsign : String
  altM : Option PyFloat
  speedMps : Option PyFloat
  courseDeg : Option PyFloat
  accuracyM : Option PyFloat
  remarks : List Remark

inductive CotEvent where
  | track (t : Track)
  /-- Stale before its start: the marker is to be removed. -/
  | drop (uid cotType : String) (lat lon : PyFloat) (time : DateTime)

def CotEvent.uid : CotEvent → String
  | track t => t.uid
  | drop uid _ _ _ _ => uid

def CotEvent.isDrop : CotEvent → Bool
  | track _ => false
  | drop .. => true

def buildCot (uid cotType : String) (lat lon : PyFloat) (time : DateTime) (staleAfterS : ℤ)
    (callsign : String) (altM speedMps courseDeg accuracyM : Option PyFloat)
    (remarks : List Remark) : Except PyExc CotEvent := do
  let stale ← time.addSeconds staleAfterS
  return .track
    { uid, cotType, lat, lon, time, stale, callsign, altM, speedMps, courseDeg, accuracyM, remarks }

def buildDropCot (uid cotType : String) (lat lon : PyFloat) (now : DateTime) : CotEvent :=
  .drop uid cotType lat lon now

end MeshcoreRpc.Tak
