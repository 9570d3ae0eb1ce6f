import MediaTransport.Pacing.Window

/-!
# What a window remembers

Read from the latest moment back, a check under a limit of `n` packets keeps as many moments as
there are, up to `n`; only the one that a granted packet displaces can be missing
(`reverse_stamps_check`). So as long as the limit stays, the last `n` moments are all there when the
next packet asks, and it is granted only once the first of them is a period old
(`add_period_le_of_granted`).
-/

namespace MediaTransport.Window

theorem reverse_latest (w : Window) (count : Nat) :
    (w.latest count).reverse = w.stamps.reverse.take count := by
  rw [latest, List.reverse_drop]
  by_cases h : count ≤ w.stamps.length
  · rw [Nat.sub_sub_self h]
  · have hall : w.stamps.length - (w.stamps.length - count) = w.stamps.length := by omega
    rw [hall, ← List.length_reverse, List.take_length, List.take_of_length_le]
    rw [List.length_reverse]
    omega

/-- The moments that a limit needs: as many as the packets that it allows in a period. Without a
limit none are needed. -/
def places : Option RateLimit → Nat
  | none => 0
  | some limit => limit.maxPackets.toNat

/-- A packet that has to wait leaves the moments that the limit needs. -/
theorem reverse_stamps_of_wait {w : Window} {limit : Option RateLimit} {now : Instant}
    (h : (w.check limit now).2 ≠ .granted) :
    (w.check limit now).1.stamps.reverse = w.stamps.reverse.take (places limit) := by
  cases limit with
  | none => exact absurd rfl h
  | some limit =>
    simp only [check] at h ⊢
    rw [places, ← reverse_latest]
    cases hlatest : w.latest limit.maxPackets.toNat with
    | nil => rfl
    | cons oldest later =>
      rw [hlatest] at h
      simp only at h ⊢
      by_cases hfew : (oldest :: later).length < limit.maxPackets.toNat
      · rw [if_pos hfew] at h
        exact absurd rfl h
      · rw [if_neg hfew] at h ⊢
        by_cases hdue : oldest + limit.periodNanos ≤ now
        · rw [if_pos hdue] at h
          exact absurd rfl h
        · rw [if_neg hdue]

/-- A packet that gets a slot leaves one less, for its own moment to come. -/
theorem reverse_stamps_of_granted {w : Window} {limit : Option RateLimit} {now : Instant}
    (h : (w.check limit now).2 = .granted) :
    (w.check limit now).1.stamps.reverse = w.stamps.reverse.take (places limit - 1) := by
  cases limit with
  | none => rfl
  | some limit =>
    have hrev := w.reverse_latest limit.maxPackets.toNat
    have hlen := w.length_latest limit.maxPackets.toNat
    simp only [check] at h ⊢
    rw [places]
    generalize limit.maxPackets.toNat = count at hrev hlen h ⊢
    have hless : (w.stamps.reverse.take count).take (count - 1) =
        w.stamps.reverse.take (count - 1) := by
      rw [List.take_take, Nat.min_eq_left (Nat.sub_le count 1)]
    rw [← hless, ← hrev]
    cases hlatest : w.latest count with
    | nil => rw [List.reverse_nil, List.take_nil]
    | cons oldest later =>
      rw [hlatest] at h hlen
      simp only at h ⊢
      by_cases hfew : (oldest :: later).length < count
      · rw [if_pos hfew, List.take_of_length_le]
        rw [List.length_reverse]
        omega
      · rw [if_neg hfew] at h ⊢
        by_cases hdue : oldest + limit.periodNanos ≤ now
        · rw [if_pos hdue, List.reverse_cons, List.take_left']
          rw [List.length_cons] at hlen hfew
          rw [List.length_reverse]
          omega
        · rw [if_neg hdue] at h
          cases h

/-- A check forgets none of the latest moments; a granted packet may displace the last of `n`. -/
theorem reverse_stamps_check (w : Window) (limit : RateLimit) (now : Instant) :
    ∃ count, (w.check (some limit) now).1.stamps.reverse = w.stamps.reverse.take count ∧
      limit.maxPackets.toNat ≤ count + 1 ∧
      ((w.check (some limit) now).2 ≠ .granted → limit.maxPackets.toNat ≤ count) := by
  by_cases hgranted : (w.check (some limit) now).2 = .granted
  · refine ⟨_, reverse_stamps_of_granted hgranted, ?_, fun hwait => absurd hgranted hwait⟩
    rw [places]
    omega
  · exact ⟨_, reverse_stamps_of_wait hgranted, Nat.le_succ _, fun _ => Nat.le_refl _⟩

/-- A packet that follows as many as the limit allows has to be a period behind the first of
them. -/
theorem add_period_le_of_granted {w : Window} {limit : RateLimit} {now first : Instant}
    {others : List Instant} (hgranted : (w.check (some limit) now).2 = .granted)
    (hlatest : others ++ [first] <+: w.stamps.reverse)
    (hlen : others.length + 1 = limit.maxPackets.toNat) : first + limit.periodNanos ≤ now := by
  have hfull : w.latest limit.maxPackets.toNat = first :: others.reverse := by
    have htake := List.prefix_iff_eq_take.1 hlatest
    rw [List.length_append, List.length_singleton, hlen, ← reverse_latest] at htake
    rw [← List.reverse_reverse (w.latest _), ← htake, List.reverse_append]
    rfl
  have hcount : ¬(first :: others.reverse).length < limit.maxPackets.toNat := by
    rw [List.length_cons, List.length_reverse]
    omega
  simp only [check, hfull, if_neg hcount] at hgranted
  by_cases hdue : first + limit.periodNanos ≤ now
  · exact hdue
  · rw [if_neg hdue] at hgranted
    cases hgranted

/-- The slot of a packet goes by the moment as many back as the limit allows, if there are so
many. -/
theorem slot_check_of_latest {w : Window} {limit : RateLimit} {moments : List Instant}
    (hlimit : 0 < limit.maxPackets.toNat)
    (hlatest : (w.latest limit.maxPackets.toNat).reverse = moments.take limit.maxPackets.toNat)
    (now : Instant) :
    (w.check (some limit) now).2 =
      match moments[limit.maxPackets.toNat - 1]? with
      | some first =>
        if first + limit.periodNanos ≤ now then .granted else .waitUntil (first + limit.periodNanos)
      | none => .granted := by
  simp only [check]
  generalize limit.maxPackets.toNat = count at hlimit hlatest ⊢
  cases hfirst : moments[count - 1]? with
  | none =>
    have hfew : (w.latest count).length < count := by
      have hlen := congrArg List.length hlatest
      rw [List.length_reverse, List.length_take] at hlen
      have := List.getElem?_eq_none_iff.1 hfirst
      omega
    cases hstamps : w.latest count with
    | nil => rfl
    | cons oldest later =>
      rw [hstamps] at hfew
      simp only [if_pos hfew]
  | some first =>
    obtain ⟨hlen, hget⟩ := List.getElem?_eq_some_iff.1 hfirst
    have htake : moments.take count = moments.take (count - 1) ++ [first] := by
      rw [← hget, List.take_append_getElem, Nat.sub_add_cancel hlimit]
    have hstamps : w.latest count = first :: (moments.take (count - 1)).reverse := by
      rw [← List.reverse_reverse (w.latest count), hlatest, htake, List.reverse_append]
      rfl
    have hmany : ¬(first :: (moments.take (count - 1)).reverse).length < count := by
      rw [List.length_cons, List.length_reverse, List.length_take]
      omega
    simp only [hstamps, if_neg hmany]
    split
    next => rfl
    next => rfl

end MediaTransport.Window
