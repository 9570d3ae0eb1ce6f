import MediaTransport.Json.Decode

/-!
# Durations

A duration is a number of seconds and of nanoseconds below one second. The moments of a run are
whole numbers of nanoseconds from an origin that nobody looks at, and negative before it.
-/

namespace MediaTransport

/-- A moment, in nanoseconds. -/
abbrev Instant := Int

/-- A length of time. -/
structure Duration where
  secs : UInt64
  nanos : UInt32
  nanos_lt : nanos.toNat < 1000000000
  deriving DecidableEq, Repr

namespace Duration

/-- The duration of `secs` seconds and `nanos` nanoseconds. A second's worth of nanoseconds and more
carries over, unless the seconds would overflow. -/
def ofParts? (secs : UInt64) (nanos : UInt32) : Option Duration :=
  let whole := secs.toNat + nanos.toNat / 1000000000
  if whole < UInt64.size then
    some {
      secs := .ofNat whole
      nanos := .ofNat (nanos.toNat % 1000000000)
      nanos_lt := by rw [UInt32.toNat_ofNat']; omega }
  else
    none

/-- The duration of `count` milliseconds. -/
def ofMillis (count : UInt64) : Duration where
  secs := .ofNat (count.toNat / 1000)
  nanos := .ofNat (count.toNat % 1000 * 1000000)
  nanos_lt := by
    have : count.toNat % 1000 < 1000 := Nat.mod_lt _ (by decide)
    rw [UInt32.toNat_ofNat', Nat.mod_eq_of_lt (by omega)]
    omega

/-- Whether no time passes. -/
def isZero (d : Duration) : Bool := d.secs == 0 && d.nanos == 0

/-- Length in whole milliseconds. -/
def millis (d : Duration) : Nat := d.secs.toNat * 1000 + d.nanos.toNat / 1000000

/-- The stored form of a duration. -/
def toJson (d : Duration) : Json :=
  .object [("secs", .ofNat d.secs.toNat), ("nanos", .ofNat d.nanos.toNat)]

/-- Reads a duration. Both parts must be there, and nothing else. -/
def ofJson? (value : Json) : Option Duration := do
  let fields ← value.fields? 2
  match fields with
  | .named members => if members.all fun m => m.1 == "secs" || m.1 == "nanos" then pure () else none
  | .ordered _ => pure ()
  ofParts? (← fields.require? 0 "secs" Json.uint64?) (← fields.require? 1 "nanos" Json.uint32?)

end Duration

end MediaTransport
