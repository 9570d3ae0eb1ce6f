import Mathlib

/-!
# Rounding in binary floating point

A finite binary floating point number is a sign, a mantissa of at most 53 bits and an exponent, and
has a rational value (`value?`). An operation works out mantissa and exponent exactly and then drops
the low bits of the mantissa. What is left is the whole part of the mantissa or one more
(`round_spec`), and it can be packed without loss (`unpack_pack`). So a result below `2^k` is off by
`2^(k-53)` at most (`rounds_roundWithAccuracy`); where exactly between the two neighbours a tie goes
plays no part.
-/

namespace MediaTransport.Binary64

open Float.Model Float.Model.UnpackedFloat

/-! ## Values -/

/-- The number with the given sign, mantissa and exponent. -/
def number (s : Sign) (m : Nat) (e : Int) : Rat := (s.apply m : Int) * 2 ^ e

/-- The value of an unpacked number, if it is finite. -/
def unpackedValue? : UnpackedFloat → Option Rat
  | .finite s m e _ => some (number s m e)
  | .zero _ => some 0
  | .infinity _ | .notANumber => none

/-- The value of a number, if it is finite. -/
def value? (x : Float) : Option Rat := unpackedValue? x.toModel.unpack

theorem two_zpow_pos (e : Int) : 0 < (2 : Rat) ^ e := zpow_pos (by norm_num) e

theorem two_zpow_add (e f : Int) : (2 : Rat) ^ (e + f) = 2 ^ e * 2 ^ f :=
  zpow_add₀ (by norm_num) e f

theorem two_zpow_le {e f : Int} (h : e ≤ f) : (2 : Rat) ^ e ≤ 2 ^ f :=
  zpow_le_zpow_right₀ (by norm_num) h

theorem two_zpow_lt_iff {e f : Int} : (2 : Rat) ^ e < 2 ^ f ↔ e < f :=
  zpow_lt_zpow_iff_right₀ (by norm_num)

theorem abs_number (s : Sign) (m : Nat) (e : Int) : |number s m e| = m * 2 ^ e := by
  unfold number
  rw [abs_mul, abs_of_pos (two_zpow_pos e)]
  cases s <;> simp [Sign.apply]

/-- Numbers of one sign are as far apart as their sizes. -/
theorem abs_number_sub (s : Sign) (m n : Nat) (e f : Int) :
    |number s m e - number s n f| = |(m : Rat) * 2 ^ e - n * 2 ^ f| := by
  unfold number
  cases s with
  | positive => simp [Sign.apply]
  | negative =>
    simp only [Sign.apply, Int.cast_neg, Int.cast_natCast]
    rw [← abs_neg]
    congr 1
    ring

/-! ## Packing -/

/-- The form that a finite number is kept in: the mantissa has 53 bits, or fewer with the least
exponent. -/
structure Canonical (m : Nat) (e : Int) : Prop where
  lt : m < 2 ^ 53
  le : -1074 ≤ e
  normal : 2 ^ 52 ≤ m ∨ e = -1074

/-- An unpacked number that is finite and can be packed without loss. -/
def Packable : UnpackedFloat → Prop
  | .finite _ m e _ => Canonical m e ∧ e ≤ 971
  | .zero _ => True
  | .infinity _ | .notANumber => False

/-- The leading bit of a full mantissa is not stored. -/
theorem toNat_leading_append (f : BitVec 52) : (1#1 ++ f).toNat = 2 ^ 52 + f.toNat := by
  rw [BitVec.toNat_append, ← Nat.shiftLeft_add_eq_or_of_lt f.isLt]
  rfl

theorem canonical_of_unpack {v : Float.Model} {s : Sign} {m : Nat} {e : Int} {hm : 0 < m}
    (h : v.unpack = .finite s m e hm) : Canonical m e ∧ e ≤ 971 := by
  have hfraction := (@unpackMantissa Format.binary64 v.toBits.toBitVec).isLt
  have hexponent := (@unpackExponent Format.binary64 v.toBits.toBitVec).isLt
  unfold Float.Model.unpack UnpackedFloat.unpack at h
  dsimp only at h
  split at h
  next => split at h <;> cases h
  next hfinite =>
    split at h
    next hzero =>
      split at h
      next => cases h
      next =>
        cases h
        rw [hzero]
        refine ⟨⟨?_, ?_, ?_⟩, ?_⟩
        · exact Nat.lt_trans hfraction (by decide)
        · decide
        · right; rfl
        · decide
    next hnonzero =>
      cases h
      have hlow : (@unpackExponent Format.binary64 v.toBits.toBitVec).toNat ≠ 0 :=
        fun h => hnonzero (BitVec.eq_of_toNat_eq h)
      have hhigh : (@unpackExponent Format.binary64 v.toBits.toBitVec).toNat ≠ 2047 :=
        fun h => hfinite (BitVec.eq_of_toNat_eq h)
      have hbias :
          ((Format.binary64.exponentBias : Int) + Format.binary64.mantissaBitsWithoutImplicit) =
            1075 := rfl
      rw [toNat_leading_append, hbias]
      change _ < 2 ^ 52 at hfraction
      change _ < 2 ^ 11 at hexponent
      refine ⟨⟨?_, ?_, ?_⟩, ?_⟩ <;> omega

theorem unpack_normal (s : Sign) {b m : Nat} (hb : 0 < b) (hb' : b < 2047) (hm : 2 ^ 52 ≤ m)
    (hm' : m < 2 ^ 53) :
    UnpackedFloat.unpack Format.binary64
        (packComponents Format.binary64 s (BitVec.ofNat _ b) (BitVec.ofNat _ m)) =
      .finite s m (b - 1075) (Nat.lt_of_lt_of_le (by decide) hm) := by
  have hexponent : (BitVec.ofNat 11 b).toNat = b := by
    rw [BitVec.toNat_ofNat]
    omega
  have hfinite : BitVec.ofNat 11 b ≠ -1#11 := by
    intro h
    have := congrArg BitVec.toNat h
    rw [hexponent] at this
    exact absurd this (by show b ≠ 2047; omega)
  have hnormal : BitVec.ofNat 11 b ≠ 0#11 := by
    intro h
    have := congrArg BitVec.toNat h
    rw [hexponent] at this
    exact absurd this hb.ne'
  have hmantissa : (1#1 ++ BitVec.ofNat 52 m).toNat = m := by
    rw [toNat_leading_append, BitVec.toNat_ofNat]
    omega
  unfold UnpackedFloat.unpack
  simp only [unpackMantissa_packComponents, unpackExponent_packComponents,
    unpackSign_packComponents, Sign.ofBitVec_toBitVec, if_neg hfinite, if_neg hnormal, hexponent,
    hmantissa]
  rfl

theorem unpack_subnormal (s : Sign) {m : Nat} (hm : 0 < m) (hm' : m < 2 ^ 52) :
    UnpackedFloat.unpack Format.binary64
        (packComponents Format.binary64 s 0#_ (BitVec.ofNat _ m)) =
      .finite s m (-1074) hm := by
  have hmantissa : (BitVec.ofNat 52 m).toNat = m := by
    rw [BitVec.toNat_ofNat]
    omega
  have hnonzero : BitVec.ofNat 52 m ≠ 0#52 := by
    intro h
    have := congrArg BitVec.toNat h
    rw [hmantissa] at this
    exact absurd this hm.ne'
  have hfinite : (0#11 : BitVec 11) ≠ -1#11 := by decide
  unfold UnpackedFloat.unpack
  simp only [unpackMantissa_packComponents, unpackExponent_packComponents,
    unpackSign_packComponents, Sign.ofBitVec_toBitVec, if_neg hfinite, dif_neg hnonzero, if_true,
    hmantissa]
  rfl

/-- What can be packed is unpacked as it was. -/
theorem unpack_pack {u : UnpackedFloat} (h : Packable u) : (Float.Model.pack u).unpack = u := by
  cases u with
  | infinity s => exact h.elim
  | notANumber => exact h.elim
  | zero s => cases s <;> rfl
  | finite s m e hm =>
    obtain ⟨⟨hlt, hle, hnormal⟩, hhigh⟩ := h
    obtain ⟨b, rfl⟩ : ∃ b : Nat, e = b - 1075 := ⟨(e + 1075).toNat, by omega⟩
    have hbias : ((b : Int) - 1075 + Format.binary64.exponentBias +
        Format.binary64.mantissaBitsWithoutImplicit).toNat = b := by
      show ((b : Int) - 1075 + 1023 + 52).toNat = b
      omega
    have hroom : ¬2 ^ Format.binary64.exponentBits ≤ b + 1 := by
      show ¬2 ^ 11 ≤ b + 1
      omega
    have hbits : Format.binary64.mantissaBits = 53 := rfl
    unfold Float.Model.unpack Float.Model.pack UnpackedFloat.pack
    simp only [hbias, if_neg hroom, hbits]
    by_cases hfull : 2 ^ 52 ≤ m
    · have hlog : m.log2 + 1 = 53 := by rw [(Nat.log2_eq_iff hm.ne').2 ⟨hfull, hlt⟩]
      rw [if_pos hlog]
      exact unpack_normal s (by omega) (by omega) hfull hlt
    · have hlog : ¬m.log2 + 1 = 53 := by
        have := (Nat.log2_lt hm.ne').2 (Nat.lt_of_not_le hfull)
        omega
      obtain rfl : b = 1 := by omega
      rw [if_neg hlog]
      exact unpack_subnormal s hm (Nat.lt_of_not_le hfull)

theorem packable_of_unpackedValue? {v : Float.Model} {q : Rat}
    (h : unpackedValue? v.unpack = some q) : Packable v.unpack := by
  cases hu : v.unpack with
  | infinity s => rw [hu] at h; cases h
  | notANumber => rw [hu] at h; cases h
  | zero s => trivial
  | finite s m e hm => exact canonical_of_unpack hu

/-! ## Dropping bits -/

theorem mantissa_shiftRight (em : ExtendedMantissa) (n : Nat) :
    (em >>> n).mantissa = em.mantissa / 2 ^ n := by
  induction n with
  | zero => exact (Nat.div_one _).symm
  | succ n ih =>
    show (em >>> n).mantissa / 2 = _
    rw [ih, Nat.div_div_eq_div_mul, Nat.pow_succ]

/-- A mantissa is rounded down, or up by one. -/
theorem roundedMantissa_bounds (em : ExtendedMantissa) :
    em.mantissa ≤ em.roundedMantissa ∧ em.roundedMantissa ≤ em.mantissa + 1 := by
  obtain ⟨m, roundBit, stickyBit⟩ := em
  simp only [ExtendedMantissa.roundedMantissa]
  cases roundBit <;> cases stickyBit <;>
    simp only [ExtendedMantissa.accuracy, Accuracy.roundToNearestEven] <;> omega

theorem targetExponent_eq (m : Nat) (e : Int) :
    Format.binary64.targetExponent (totalExponent m e) = max (m.log2 + e - 52) (-1074) := by
  have hbits : (Format.binary64.mantissaBits : Int) = 53 := rfl
  have hleast : Format.binary64.minExponent = -1074 := rfl
  unfold Format.targetExponent totalExponent
  rw [hbits, hleast]
  omega

/-- A mantissa that is short enough stays as it is. -/
theorem shift_of_canonical {m : Nat} {e : Int} (hlt : m < 2 ^ 53) (hle : -1074 ≤ e) :
    shiftToTargetExponent Format.binary64 m e .exact = (⟨m, false, false⟩, e) := by
  have hlog : m.log2 ≤ 52 := by
    by_cases hm : m = 0
    · rw [hm]
      decide
    · exact Nat.lt_succ_iff.1 ((Nat.log2_lt hm).2 hlt)
  have hstay : (Format.binary64.targetExponent (totalExponent m e) - e).toNat = 0 := by
    rw [targetExponent_eq]
    omega
  unfold shiftToTargetExponent shiftToExponent
  simp only [hstay, ExtendedMantissa.ofMantissaAndAccuracy, Int.natCast_zero, Int.add_zero]
  rfl

/-- A mantissa that was rounded up to 54 bits loses the last one, which is zero. -/
theorem shift_of_carry {e : Int} (hle : -1074 ≤ e) :
    shiftToTargetExponent Format.binary64 (2 ^ 53) e .exact = (⟨2 ^ 52, false, false⟩, e + 1) := by
  have hone : (Format.binary64.targetExponent (totalExponent (2 ^ 53) e) - e).toNat = 1 := by
    rw [targetExponent_eq, Nat.log2_two_pow]
    omega
  unfold shiftToTargetExponent shiftToExponent
  simp only [hone, ExtendedMantissa.ofMantissaAndAccuracy]
  rfl

/-! ## Rounding -/

/-- The exponent that the number `m * 2^e` is rounded to. -/
def unitExponent (m : Nat) (e : Int) : Int := max (m.log2 + e - 52) (-1074)

/-- A number with enough digits loses the last `k` of them, and what is left fits a mantissa. -/
theorem exists_shift {m : Nat} {e : Int} (hm : m ≠ 0) (hdigits : 2 ^ 52 ≤ m ∨ e ≤ -1074) :
    ∃ k : Nat, e + k = unitExponent m e ∧ m / 2 ^ k < 2 ^ 53 ∧
      (2 ^ 52 ≤ m / 2 ^ k ∨ unitExponent m e = -1074) ∧
      shiftToTargetExponent Format.binary64 m e .exact =
        ((⟨m, false, false⟩ : ExtendedMantissa) >>> k, unitExponent m e) := by
  have hlog : 52 ≤ m.log2 ∨ e ≤ -1074 := hdigits.imp_left (Nat.le_log2 hm).2
  have hshift : e + ((unitExponent m e - e).toNat : Int) = unitExponent m e := by
    unfold unitExponent
    omega
  refine ⟨(unitExponent m e - e).toNat, hshift, ?_, ?_, ?_⟩
  · rw [Nat.div_lt_iff_lt_mul (Nat.two_pow_pos _), ← Nat.pow_add]
    refine Nat.lt_of_lt_of_le Nat.lt_log2_self (Nat.pow_le_pow_right (by decide) ?_)
    unfold unitExponent
    omega
  · by_cases hleast : unitExponent m e = -1074
    · exact .inr hleast
    · left
      rw [Nat.le_div_iff_mul_le (Nat.two_pow_pos _), ← Nat.pow_add]
      refine Nat.le_trans (Nat.pow_le_pow_right (by decide) ?_) (Nat.log2_self_le hm)
      unfold unitExponent at hleast ⊢
      omega
  · unfold shiftToTargetExponent shiftToExponent
    rw [targetExponent_eq]
    exact congrArg (Prod.mk _) hshift

/-- A rounded number is the exact one with the last digits dropped, or one unit above it. -/
theorem round_spec (s : Sign) {m : Nat} {e : Int} (hm : m ≠ 0) (hdigits : 2 ^ 52 ≤ m ∨ e ≤ -1074)
    (htop : unitExponent m e ≤ 970) :
    Packable (roundWithAccuracy Format.binary64 s m e .exact) ∧
      ∃ k r : Nat, e + k = unitExponent m e ∧ m / 2 ^ k ≤ r ∧ r ≤ m / 2 ^ k + 1 ∧
        unpackedValue? (roundWithAccuracy Format.binary64 s m e .exact) =
          some (number s r (unitExponent m e)) := by
  obtain ⟨k, hk, hfits, hnormal, hshift⟩ := exists_shift hm hdigits
  have hleast : -1074 ≤ unitExponent m e := le_max_right _ _
  have hbounds := roundedMantissa_bounds ((⟨m, false, false⟩ : ExtendedMantissa) >>> k)
  rw [mantissa_shiftRight] at hbounds
  obtain ⟨hlow, hhigh⟩ : m / 2 ^ k ≤ _ ∧ _ ≤ m / 2 ^ k + 1 := hbounds
  unfold roundWithAccuracy
  rw [hshift]
  dsimp only
  generalize ((⟨m, false, false⟩ : ExtendedMantissa) >>> k).roundedMantissa = r at hlow hhigh ⊢
  suffices h : Packable _ ∧ unpackedValue? _ = some (number s r (unitExponent m e)) from
    ⟨h.1, k, r, hk, hlow, hhigh, h.2⟩
  rcases Nat.lt_or_ge r (2 ^ 53) with hr | hr
  · rw [shift_of_canonical hr hleast]
    by_cases hzero : r = 0
    · subst hzero
      refine ⟨trivial, congrArg some ?_⟩
      cases s <;> simp [number, Sign.apply]
    · rw [dif_neg hzero]
      exact ⟨⟨⟨hr, hleast, hnormal.imp_left fun h => Nat.le_trans h hlow⟩, by omega⟩, rfl⟩
  · obtain rfl : r = 2 ^ 53 := by omega
    rw [shift_of_carry hleast]
    have hcanonical : Canonical (2 ^ 52) (unitExponent m e + 1) :=
      ⟨by decide, by omega, .inl (le_refl _)⟩
    refine ⟨⟨hcanonical, by omega⟩, congrArg some ?_⟩
    unfold number
    rw [two_zpow_add]
    cases s <;> simp only [Sign.apply] <;> push_cast <;> ring

theorem unitExponent_le {m : Nat} {e k : Int} (hm : m ≠ 0) (hk : -1021 ≤ k)
    (hlt : (m : Rat) * 2 ^ e < 2 ^ k) : unitExponent m e ≤ k - 53 := by
  have hlog : (2 : Rat) ^ (m.log2 : Int) ≤ m := by
    rw [zpow_natCast]
    exact_mod_cast Nat.log2_self_le hm
  have hsmall : (2 : Rat) ^ (m.log2 + e : Int) < 2 ^ k := by
    rw [two_zpow_add]
    exact lt_of_le_of_lt (mul_le_mul_of_nonneg_right hlog (two_zpow_pos e).le) hlt
  have := two_zpow_lt_iff.1 hsmall
  unfold unitExponent
  omega

/-- Dropping digits, and adding a unit or not, changes a number by one unit at most. -/
theorem abs_sub_le_of_div {m r k : Nat} (e : Int) (hlow : m / 2 ^ k ≤ r)
    (hhigh : r ≤ m / 2 ^ k + 1) :
    |(r : Rat) * 2 ^ (e + k : Int) - m * 2 ^ e| ≤ 2 ^ (e + k : Int) := by
  have hpos := Nat.two_pow_pos k
  have hdiv := Nat.div_add_mod m (2 ^ k)
  have hmod := Nat.mod_lt m hpos
  have hbelow : r * 2 ^ k ≤ m + 2 ^ k := by
    have := Nat.mul_le_mul_right (2 ^ k) hhigh
    rw [Nat.add_mul, Nat.mul_comm (m / 2 ^ k)] at this
    omega
  have habove : m ≤ r * 2 ^ k + 2 ^ k := by
    have := Nat.mul_le_mul_right (2 ^ k) hlow
    rw [Nat.mul_comm (m / 2 ^ k)] at this
    omega
  have hunits : |(r : Rat) * 2 ^ k - m| ≤ 2 ^ k := by
    have hbelow : (r : Rat) * 2 ^ k ≤ m + 2 ^ k := by exact_mod_cast hbelow
    have habove : (m : Rat) ≤ r * 2 ^ k + 2 ^ k := by exact_mod_cast habove
    rw [abs_le]
    constructor <;> linarith
  have hscale : (r : Rat) * 2 ^ (e + k : Int) - m * 2 ^ e = (r * 2 ^ k - m) * 2 ^ e := by
    rw [two_zpow_add, zpow_natCast]
    ring
  rw [hscale, abs_mul, abs_of_pos (two_zpow_pos e), two_zpow_add, zpow_natCast, mul_comm (2 ^ e)]
  exact mul_le_mul_of_nonneg_right hunits (two_zpow_pos e).le

/-- A finite number that can be packed and is off from `q`, which is below `2^k`, by one unit at
most. -/
def Rounds (k : Int) (q : Rat) (u : UnpackedFloat) : Prop :=
  Packable u ∧ ∃ v, unpackedValue? u = some v ∧ |v - q| ≤ 2 ^ (k - 53)

theorem rounds_self {u : UnpackedFloat} {q : Rat} (k : Int) (hu : Packable u)
    (hq : unpackedValue? u = some q) : Rounds k q u := by
  refine ⟨hu, q, hq, ?_⟩
  rw [sub_self, abs_zero]
  exact (two_zpow_pos _).le

theorem rounds_roundWithAccuracy (s : Sign) {m : Nat} {e k : Int} (hm : m ≠ 0)
    (hdigits : 2 ^ 52 ≤ m ∨ e ≤ -1074) (hlow : -1021 ≤ k) (hhigh : k ≤ 1023)
    (hlt : (m : Rat) * 2 ^ e < 2 ^ k) :
    Rounds k (number s m e) (roundWithAccuracy Format.binary64 s m e .exact) := by
  have hunit := unitExponent_le hm hlow hlt
  obtain ⟨hpackable, n, r, hn, hbelow, habove, hvalue⟩ := round_spec s hm hdigits (by omega)
  refine ⟨hpackable, _, hvalue, ?_⟩
  rw [abs_number_sub, ← hn]
  rw [← hn] at hunit
  exact le_trans (abs_sub_le_of_div e hbelow habove) (two_zpow_le hunit)

/-- The same number with a smaller exponent. -/
theorem number_shiftLeft (s : Sign) (m n : Nat) (e : Int) :
    number s (m <<< n) (e - n) = number s m e := by
  have hsplit : (2 : Rat) ^ n * 2 ^ (e - n : Int) = 2 ^ e := by
    rw [← zpow_natCast, ← two_zpow_add]
    congr 1
    omega
  unfold number
  rw [Nat.shiftLeft_eq, ← hsplit]
  cases s <;> simp only [Sign.apply] <;> push_cast <;> ring

theorem rounds_round (s : Sign) {m : Nat} {e k : Int} (hm : m ≠ 0) (hlow : -1021 ≤ k)
    (hhigh : k ≤ 1023) (hlt : (m : Rat) * 2 ^ e < 2 ^ k) :
    Rounds k (number s m e) (UnpackedFloat.round Format.binary64 s m e) := by
  obtain ⟨n, hn⟩ : ∃ n : Nat, n = (e - unitExponent m e).toNat := ⟨_, rfl⟩
  have hround : UnpackedFloat.round Format.binary64 s m e =
      roundWithAccuracy Format.binary64 s (m <<< n) (e - n) .exact := by
    unfold UnpackedFloat.round decreaseExponent
    rw [targetExponent_eq, hn]
    rfl
  have hpos : m <<< n ≠ 0 := by
    rw [Nat.shiftLeft_eq]
    exact Nat.mul_ne_zero hm (Nat.two_pow_pos n).ne'
  have hdigits : 2 ^ 52 ≤ m <<< n ∨ e - n ≤ -1074 := by
    have hlog : 52 ≤ m.log2 + n ∨ e - n ≤ -1074 := by
      unfold unitExponent at hn
      omega
    refine hlog.imp_left fun h => ?_
    rw [Nat.shiftLeft_eq]
    calc
      2 ^ 52 ≤ 2 ^ (m.log2 + n) := Nat.pow_le_pow_right (by decide) h
      _ = 2 ^ m.log2 * 2 ^ n := Nat.pow_add ..
      _ ≤ m * 2 ^ n := Nat.mul_le_mul_right _ (Nat.log2_self_le hm)
  rw [hround, ← number_shiftLeft s m n e]
  refine rounds_roundWithAccuracy s hpos hdigits hlow hhigh ?_
  rwa [← abs_number s, number_shiftLeft, abs_number]

theorem rounds_normalize (zero : Sign) {m e k : Int} (hlow : -1021 ≤ k) (hhigh : k ≤ 1023)
    (hlt : |(m : Rat) * 2 ^ e| < 2 ^ k) :
    Rounds k (m * 2 ^ e) (UnpackedFloat.normalize Format.binary64 m e zero) := by
  unfold UnpackedFloat.normalize
  rcases lt_trichotomy m 0 with hneg | rfl | hpos
  · obtain ⟨n, rfl⟩ : ∃ n : Nat, m = -n := ⟨(-m).toNat, by omega⟩
    rw [Int.compare_eq_lt.2 hneg]
    have hnumber : number .negative n e = ((-n : Int) : Rat) * 2 ^ e := rfl
    rw [← hnumber, abs_number] at hlt
    simp only [Int.neg_neg, Int.toNat_natCast]
    exact rounds_round .negative (by omega) hlow hhigh hlt
  · rw [Int.compare_eq_eq.2 rfl]
    exact rounds_self k trivial (by simp [unpackedValue?])
  · obtain ⟨n, rfl⟩ : ∃ n : Nat, m = n := ⟨m.toNat, by omega⟩
    rw [Int.compare_eq_gt.2 hpos]
    have hnumber : number .positive n e = ((n : Int) : Rat) * 2 ^ e := rfl
    rw [← hnumber, abs_number] at hlt
    simp only [Int.toNat_natCast]
    exact rounds_round .positive (by omega) hlow hhigh hlt

end MediaTransport.Binary64
