import MediaTransport.Proofs.Faults
import MediaTransport.Quality.Rating

/-!
# Calls that cannot be rated

A rating needs the percentage of lost packets, which is a quotient. Its divisor is never zero, since
there is no loss where the counters add up to nothing; but the quotient may be that of the least
number by -1, for which there is no room (`Unratable`). Nothing else stands in the way of a score
(`conversationalScore_eq_error_iff`).
-/

namespace MediaTransport.Quality

namespace CallCounters

/-- The percentage of lost packets is the least number divided by -1. -/
def Unratable (c : CallCounters) : Prop :=
  c.received ≠ 0 ∧ c.impaired * 100 = Int64.minValue ∧ c.total = -1

instance (c : CallCounters) : Decidable c.Unratable := inferInstanceAs (Decidable (_ ∧ _ ∧ _))

theorem lossPercent_eq_error_iff {c : CallCounters} {fault : Fault} :
    c.lossPercent = .error fault ↔ fault = .overflow ∧ c.Unratable := by
  unfold lossPercent
  by_cases hnothing : c.received = 0 ∨ c.total = 0
  · rw [if_pos hnothing]
    refine iff_of_false nofun ?_
    rintro ⟨-, hreceived, -, htotal⟩
    rcases hnothing with h | h
    · exact hreceived h
    · cases htotal.symm.trans h
  · obtain ⟨hreceived, htotal⟩ := not_or.1 hnothing
    rw [if_neg hnothing, Except.map_eq_error_iff, quotient, if_neg htotal]
    by_cases hleast : c.impaired * 100 = Int64.minValue ∧ c.total = -1
    · rw [if_pos hleast]
      constructor
      · rintro ⟨⟩
        exact ⟨rfl, hreceived, hleast⟩
      · rintro ⟨rfl, -⟩
        rfl
    · rw [if_neg hleast]
      exact iff_of_false nofun fun h => hleast h.2.2

end CallCounters

/-- A call has a score unless it cannot be rated. -/
theorem conversationalScore_eq_error_iff {c : CallCounters} {fault : Fault} :
    conversationalScore c = .error fault ↔ fault = .overflow ∧ c.Unratable := by
  unfold conversationalScore rating
  rw [Except.map_eq_error_iff, Except.map_eq_error_iff, CallCounters.lossPercent_eq_error_iff]

/-- A counter above `2^63` is negative here, and so can be all that was received. -/
example : CallCounters.Unratable
    { received := (18446744073709551615 : UInt64).toInt64, discarded := 2305843009213693952 } := by
  decide

end MediaTransport.Quality
