import MediaTransport.Config.Transport

/-!
# Pacing window

To keep to a limit of `n` packets in any stretch of a period, it is enough to know when the last `n`
packets were done with: the next may go once the first of those is a period old. The window holds
these moments, of which `check` drops what the limit no longer needs, and `stamp` adds to them.
-/

namespace MediaTransport

/-- When the latest packets were sent, the first of them first. -/
structure Window where
  stamps : List Instant := []
  deriving DecidableEq, Repr

/-- Whether a packet may go. -/
inductive Slot where
  | granted
  /-- Not before the given moment. -/
  | waitUntil (due : Instant)
  deriving DecidableEq, Repr

namespace Window

/-- The last `count` of the moments. -/
def latest (w : Window) (count : Nat) : List Instant :=
  w.stamps.drop (w.stamps.length - count)

/-- Whether one more packet may go at the moment `now`, and the moments that are still of use.
Without a limit none are; a packet that takes the place of the oldest one displaces its moment. -/
def check (w : Window) (limit : Option RateLimit) (now : Instant) : Window × Slot :=
  match limit with
  | none => ({}, .granted)
  | some limit =>
    let count := limit.maxPackets.toNat
    let latest := w.latest count
    match latest with
    | [] => ({}, .granted)
    | oldest :: later =>
      let due := oldest + limit.periodNanos
      if latest.length < count then (⟨latest⟩, .granted)
      else if due ≤ now then (⟨later⟩, .granted)
      else (⟨latest⟩, .waitUntil due)

/-- Adds the moment at which a packet was done with. -/
def stamp (w : Window) (now : Instant) : Window := ⟨w.stamps ++ [now]⟩

theorem length_latest (w : Window) (count : Nat) :
    (w.latest count).length = min count w.stamps.length := by
  simp only [latest, List.length_drop]
  omega

@[simp] theorem stamps_stamp (w : Window) (now : Instant) :
    (w.stamp now).stamps = w.stamps ++ [now] := rfl

@[simp] theorem check_none (w : Window) (now : Instant) : w.check none now = ({}, .granted) := rfl

end Window

end MediaTransport
