import MediaTransport.Proofs.Binary64.Arithmetic
import MediaTransport.Proofs.Quality.Rating

/-!
# The range of the score

Over the ratings from 0 to 100 the score is a cubic that starts at 10 and ends at 45. It does not
rise at once: its distance from 10 has a second root at `80 - √5400`, a little above 6.5, and
between the roots the cubic is below 10 (`exactCubic_lt_ten_iff`), though never below 9
(`exactCubic_bounds`). So over exact numbers a score is from 9 to 45, and it is below 10 for the
ratings of the dip and for no others.

What is computed is rounded after each operation, but is off from the cubic by `2^(-40)` at most
(`near_cubic`). So a score is the whole part of a number that is this close to the cubic
(`toNat_score_of_lt`), which again is from 9 to 45 (`score_range`).
-/

namespace MediaTransport.Quality

open Binary64

/-! ## Exact scores -/

/-- The cubic over exact numbers. -/
def exactCubic (r : Rat) : Rat :=
  10 * (1 + 35 / 1000 * r + r * (r - 60) * (100 - r) * (7 / 1000000))

/-- The score of a rating, times ten, over exact numbers. -/
def exactScore (r : Rat) : Int :=
  if r < 0 then 10 else if r < 100 then (exactCubic r).floor else 45

/-- The ratings at which the cubic is below its value at 0: those between 0 and `80 - √5400`. -/
def Dips (r : Rat) : Prop := 0 < r ∧ r < 100 ∧ r * (160 - r) < 1000

instance (r : Rat) : Decidable (Dips r) := inferInstanceAs (Decidable (_ ∧ _ ∧ _))

theorem exactCubic_sub_ten (r : Rat) :
    exactCubic r - 10 = 7 / 100000 * (r * (r * (160 - r) - 1000)) := by
  unfold exactCubic
  ring

theorem fortyFive_sub_exactCubic (r : Rat) :
    45 - exactCubic r = 7 / 100000 * ((100 - r) * (5000 + r * (60 - r))) := by
  unfold exactCubic
  ring

variable {r : Rat} {x : Float}

theorem exactCubic_lt_ten_iff (hle : 0 ≤ r) (hlt : r < 100) : exactCubic r < 10 ↔ Dips r := by
  have hsub := exactCubic_sub_ten r
  constructor
  · intro h
    have hprod : r * (r * (160 - r) - 1000) < 0 := by linarith
    have hpos : 0 < r := by
      rcases hle.eq_or_lt with rfl | hpos
      · norm_num at hprod
      · exact hpos
    have hfactor : r * (160 - r) - 1000 < 0 := neg_of_mul_neg_right hprod hle
    exact ⟨hpos, hlt, by linarith⟩
  · rintro ⟨hpos, -, hdip⟩
    have hprod : r * (r * (160 - r) - 1000) < 0 := mul_neg_of_pos_of_neg hpos (by linarith)
    linarith

/-- Where the cubic is below 10 it is less than a half below it, and it reaches 45 at 100 only. -/
theorem exactCubic_bounds (hle : 0 ≤ r) (hlt : r < 100) :
    19 / 2 ≤ exactCubic r ∧ exactCubic r < 45 := by
  have hedge := mul_nonneg hle (sub_nonneg.2 hlt.le)
  constructor
  · have hsub := exactCubic_sub_ten r
    have hfactor : 60 * r ≤ r * (160 - r) := by linarith
    have hprod : r * (60 * r - 1000) ≤ r * (r * (160 - r) - 1000) :=
      mul_le_mul_of_nonneg_left (by linarith) hle
    -- Completing the square: the smallest value of this parabola is at 25/3.
    have hsquare : 0 ≤ (r - 25 / 3) * (r - 25 / 3) := mul_self_nonneg _
    linarith
  · have hsub := fortyFive_sub_exactCubic r
    have hfactor : 0 < 5000 + r * (60 - r) := by linarith
    have hprod : 0 < (100 - r) * (5000 + r * (60 - r)) := mul_pos (sub_pos.2 hlt) hfactor
    linarith

theorem exactScore_bounds (r : Rat) : 9 ≤ exactScore r ∧ exactScore r ≤ 45 := by
  unfold exactScore
  split
  next => decide
  next hle =>
    split
    next hlt =>
      obtain ⟨hlow, hhigh⟩ := exactCubic_bounds (not_lt.1 hle) hlt
      have hnine : 9 ≤ (exactCubic r).floor := Rat.le_floor_iff.2 (by push_cast; linarith)
      have hfortyFive : (exactCubic r).floor < 45 := Rat.floor_lt_iff.2 hhigh
      omega
    next => decide

theorem exactScore_lt_ten_iff (r : Rat) : exactScore r < 10 ↔ Dips r := by
  unfold exactScore
  split
  next hneg => exact iff_of_false (by decide) fun h => not_lt.2 h.1.le hneg
  next hle =>
    split
    next hlt =>
      rw [← exactCubic_lt_ten_iff (not_lt.1 hle) hlt]
      exact Rat.floor_lt_iff
    next hlt => exact iff_of_false (by decide) fun h => hlt h.2.1

/-! ## Rounded scores -/

theorem value?_zero : value? 0 = some 0 := by decide +kernel

theorem value?_hundred : value? 100 = some 100 := by decide +kernel

theorem near_slope : Near 0.035 (35 / 1000) (1 / 2 ^ 58) := by
  have hvalue : value? 0.035 = some (5044031582654956 / 2 ^ 57) := by decide +kernel
  refine ⟨_, hvalue, ?_⟩
  rw [abs_le]
  constructor <;> norm_num

theorem near_millionth : Near 0.000001 (1 / 1000000) (1 / 2 ^ 73) := by
  have hvalue : value? 0.000001 = some (4722366482869645 / 2 ^ 72) := by decide +kernel
  refine ⟨_, hvalue, ?_⟩
  rw [abs_le]
  constructor <;> norm_num

theorem abs_product_le {P Q p q : Rat} (hP : |p| ≤ P) (hQ : |q| ≤ Q) : |p * q| ≤ P * Q := by
  rw [abs_mul]
  exact mul_le_mul hP hQ (abs_nonneg _) ((abs_nonneg _).trans hP)

/-- The roundings of the cubic add up to very little. -/
theorem near_cubic (hx : value? x = some r) (hle : 0 ≤ r) (hlt : r < 100) :
    Near (cubic x) (exactCubic r) (1 / 2 ^ 40) := by
  have hone : Near 1 1 0 := .of_value? (by decide +kernel)
  have hsixty : Near 60 60 0 := .of_value? (by decide +kernel)
  have hhundred : Near 100 100 0 := .of_value? value?_hundred
  have hseven : Near 7 7 0 := .of_value? (by decide +kernel)
  have hten : Near 10 10 0 := .of_value? (by decide +kernel)
  have hself : Near x r 0 := .of_value? hx
  -- What is computed on the way is bounded by these.
  have hr : |r| ≤ 100 := abs_le.2 ⟨by linarith, hlt.le⟩
  have hlow : |r - 60| ≤ 60 := abs_le.2 ⟨by linarith, by linarith⟩
  have hhigh : |100 - r| ≤ 100 := abs_le.2 ⟨by linarith, by linarith⟩
  have hline : |1 + 35 / 1000 * r| ≤ 5 := abs_le.2 ⟨by linarith, by linarith⟩
  have hproduct : |r * (r - 60) * (100 - r)| ≤ 100 * 60 * 100 :=
    abs_product_le (abs_product_le hr hlow) hhigh
  have hsum : |1 + 35 / 1000 * r + r * (r - 60) * (100 - r) * 7 * (1 / 1000000)| ≤ 6 := by
    obtain ⟨hfrom, hto⟩ := exactCubic_bounds hle hlt
    unfold exactCubic at hfrom hto
    exact abs_le.2 ⟨by linarith, by linarith⟩
  have hslope : Near (0.035 * x) (35 / 1000 * r) (1 / 2 ^ 50) :=
    near_slope.mul (k := 2) (P := 36 / 1000) (Q := 100) hself (by norm_num [abs_of_pos]) hr
      (by decide) (by norm_num) (by norm_num)
  have hlinear : Near (1 + 0.035 * x) (1 + 35 / 1000 * r) (1 / 2 ^ 49) :=
    hone.add (k := 3) hslope hline (by decide) (by norm_num) (by norm_num)
  have hfirst : Near (x - 60) (r - 60) (1 / 2 ^ 47) :=
    hself.sub (k := 6) hsixty hlow (by decide) (by norm_num) (by norm_num)
  have hsecond : Near (100 - x) (100 - r) (1 / 2 ^ 46) :=
    hhundred.sub (k := 7) hself hhigh (by decide) (by norm_num) (by norm_num)
  have hsquare : Near (x * (x - 60)) (r * (r - 60)) (1 / 2 ^ 39) :=
    hself.mul (k := 13) hfirst hr hlow (by decide) (by norm_num) (by norm_num)
  have hcube : Near (x * (x - 60) * (100 - x)) (r * (r - 60) * (100 - r)) (1 / 2 ^ 31) :=
    hsquare.mul (k := 20) hsecond (abs_product_le hr hlow) hhigh (by decide) (by norm_num)
      (by norm_num)
  have hseventh : Near (x * (x - 60) * (100 - x) * 7) (r * (r - 60) * (100 - r) * 7) (1 / 2 ^ 27) :=
    hcube.mul (k := 23) (Q := 7) hseven hproduct (by norm_num) (by decide) (by norm_num)
      (by norm_num)
  have hscaled : Near (x * (x - 60) * (100 - x) * 7 * 0.000001)
      (r * (r - 60) * (100 - r) * 7 * (1 / 1000000)) (1 / 2 ^ 46) :=
    hseventh.mul (k := 3) (P := 100 * 60 * 100 * 7) (Q := 1 / 1000000) near_millionth
      (abs_product_le (Q := 7) hproduct (by norm_num)) (by norm_num) (by decide) (by norm_num)
      (by norm_num)
  have hall := hten.mul (k := 6) (Q := 6) (P := 10) (η := 1 / 2 ^ 40)
    (hlinear.add (k := 4) (η := 1 / 2 ^ 45) hscaled hsum (by decide) (by norm_num) (by norm_num))
    (by norm_num) hsum (by decide) (by norm_num) (by norm_num)
  have hexact : exactCubic r =
      10 * (1 + 35 / 1000 * r + r * (r - 60) * (100 - r) * 7 * (1 / 1000000)) := by
    unfold exactCubic
    ring
  rw [hexact]
  exact hall

/-! ## Scores -/

theorem score_of_lt_zero (h : x < 0) : score x = 10 := by
  unfold score
  rw [if_pos h]
  decide +kernel

theorem score_of_not_lt (hle : ¬x < 0) (hlt : ¬x < 100) : score x = 45 := by
  unfold score
  rw [if_neg hle, if_neg hlt]
  decide +kernel

theorem lt_zero_iff (hx : value? x = some r) : x < 0 ↔ r < 0 := lt_iff hx value?_zero

theorem lt_hundred_iff (hx : value? x = some r) : x < 100 ↔ r < 100 := lt_iff hx value?_hundred

theorem lt_hundred_iff_lt_zero (hx : value? x = none) : x < 100 ↔ x < 0 :=
  lt_iff_of_value?_eq_none hx value?_hundred value?_zero

/-- In the range of the cubic a score is the whole part of a number next to it. -/
theorem toNat_score_of_lt (hx : value? x = some r) (hle : 0 ≤ r) (hlt : r < 100) :
    ∃ y : Rat, |y - exactCubic r| ≤ 1 / 2 ^ 40 ∧ ((score x).toNat : Int) = y.floor := by
  obtain ⟨y, hy, herror⟩ := near_cubic hx hle hlt
  obtain ⟨hlow, hhigh⟩ := exactCubic_bounds hle hlt
  obtain ⟨hbelow, habove⟩ := abs_le.1 herror
  refine ⟨y, herror, ?_⟩
  unfold score
  rw [if_neg ((lt_zero_iff hx).not.2 (not_lt.2 hle)), if_pos ((lt_hundred_iff hx).2 hlt)]
  exact toNat_toUInt8 hy (by linarith) (by linarith)

theorem score_bounds (x : Float) : 9 ≤ score x ∧ score x ≤ 45 := by
  by_cases hneg : x < 0
  · rw [score_of_lt_zero hneg]
    decide
  by_cases hlt : x < 100
  · cases hx : value? x with
    | none => exact absurd ((lt_hundred_iff_lt_zero hx).1 hlt) hneg
    | some r =>
      rw [lt_zero_iff hx, not_lt] at hneg
      rw [lt_hundred_iff hx] at hlt
      obtain ⟨y, herror, hscore⟩ := toNat_score_of_lt hx hneg hlt
      obtain ⟨hlow, hhigh⟩ := exactCubic_bounds hneg hlt
      obtain ⟨hbelow, habove⟩ := abs_le.1 herror
      have hnine : 9 ≤ y.floor := Rat.le_floor_iff.2 (by push_cast; linarith)
      have hfortySix : y.floor < 46 := Rat.floor_lt_iff.2 (by push_cast; linarith)
      rw [UInt8.le_iff_toNat_le, UInt8.le_iff_toNat_le]
      show 9 ≤ (score x).toNat ∧ (score x).toNat ≤ 45
      omega
  · rw [score_of_not_lt hneg hlt]
    decide

/-- A call has a score unless it cannot be rated, and the score is from 9 to 45. Over exact numbers
the score is from 9 to 45 too, and below 10 in the dip of the cubic only. The score of a rating
differs from the exact one by what is rounded before the cut. -/
theorem score_range (c : CallCounters) (x : Float) (r : Rat) :
    (∀ fault, conversationalScore c = .error fault ↔ fault = .overflow ∧ c.Unratable) ∧
    (∀ n, conversationalScore c = .ok n → 9 ≤ n ∧ n ≤ 45 ∧ ∃ q, rating c = .ok q ∧ n = score q) ∧
    (exactScore r =
        if r < 0 then 10
        else if r < 100 then
          (10 * (1 + 35 / 1000 * r + r * (r - 60) * (100 - r) * (7 / 1000000))).floor
        else 45) ∧
    (9 ≤ exactScore r ∧ exactScore r ≤ 45 ∧ (10 ≤ exactScore r ↔ ¬Dips r)) ∧
    (value? x = some r →
      if r < 0 then score x = 10
      else if r < 100 then
        ∃ y : Rat, |y - exactCubic r| ≤ 1 / 2 ^ 40 ∧ ((score x).toNat : Int) = y.floor
      else score x = 45) ∧
    (value? x = none → score x = if x < 0 then 10 else 45) := by
  obtain ⟨hlow, hhigh⟩ := exactScore_bounds r
  refine ⟨fun fault => conversationalScore_eq_error_iff, ?_, rfl, ⟨hlow, hhigh, ?_⟩, ?_, ?_⟩
  · intro n hn
    obtain ⟨q, hq, rfl⟩ := Except.map_eq_ok_iff.1 hn
    exact ⟨(score_bounds q).1, (score_bounds q).2, q, hq, rfl⟩
  · rw [← exactScore_lt_ten_iff, not_lt]
  · intro hx
    split
    next hneg => exact score_of_lt_zero ((lt_zero_iff hx).2 hneg)
    next hle =>
      split
      next hlt => exact toNat_score_of_lt hx (not_lt.1 hle) hlt
      next hlt => exact score_of_not_lt ((lt_zero_iff hx).not.2 hle) ((lt_hundred_iff hx).not.2 hlt)
  · intro hx
    split
    next hneg => exact score_of_lt_zero hneg
    next hle => exact score_of_not_lt hle ((lt_hundred_iff_lt_zero hx).not.2 hle)

/-- The range does not begin at 10: a rating of 3 has a score of 9. -/
theorem score_three :
    score 3 = 9 ∧ exactScore 3 = 9 ∧ ¬∀ r : Rat, 10 ≤ exactScore r ∧ exactScore r ≤ 45 := by
  have hthree : exactScore 3 = 9 := by decide +kernel
  refine ⟨by decide +kernel, hthree, fun h => ?_⟩
  have hten := (h 3).1
  rw [hthree] at hten
  exact absurd hten (by decide)

end MediaTransport.Quality
