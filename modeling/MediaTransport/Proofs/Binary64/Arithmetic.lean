import MediaTransport.Proofs.Binary64.Rounding

/-!
# Arithmetic in binary floating point

The sum, the difference and the product of two finite numbers are the exact ones, rounded; below
`2^k` that is a change of `2^(k-53)` at most (`rounds_add`, `rounds_sub`, `rounds_mul`). So a
computation can be followed with the exact result and a bound on the distance to it (`Near`).
Comparisons are those of the values (`lt_iff`), and a number from 0 to 255 is cut to its whole part
(`toNat_toUInt8`).
-/

namespace MediaTransport.Binary64

open Float.Model Float.Model.UnpackedFloat

/-! ## Operations on unpacked numbers -/

variable {a b : UnpackedFloat} {p q : Rat} {k : Int}

theorem apply_neg (s : Sign) (n : Int) : (-s).apply n = -s.apply n := by
  cases s with
  | positive => rfl
  | negative => exact (Int.neg_neg n).symm

theorem apply_mul (s t : Sign) (m n : Int) : (s * t).apply (m * n) = s.apply m * t.apply n := by
  cases s with
  | positive =>
    cases t with
    | positive => rfl
    | negative => exact (Int.mul_neg m n).symm
  | negative =>
    cases t with
    | positive => exact (Int.neg_mul m n).symm
    | negative => exact (Int.neg_mul_neg m n).symm

theorem number_neg (s : Sign) (m : Nat) (e : Int) : number (-s) m e = -number s m e := by
  unfold number
  rw [apply_neg, Int.cast_neg, neg_mul]

theorem number_mul (s t : Sign) (m n : Nat) (e f : Int) :
    number (s * t) (m * n) (e + f) = number s m e * number t n f := by
  unfold number
  rw [Int.natCast_mul, apply_mul, Int.cast_mul, two_zpow_add]
  ring

/-- Digits are added at the end of the mantissa to get down to an exponent. -/
theorem number_decreaseExponent (s : Sign) (m : Nat) {e f : Int} (h : f ≤ e) :
    number s (decreaseExponent m e f).1 f = number s m e := by
  have hsub : f = e - ((e - f).toNat : Int) := by omega
  have hshift := number_shiftLeft s m (e - f).toNat e
  rw [← hsub] at hshift
  exact hshift

theorem rounds_add (ha : Packable a) (hb : Packable b) (hp : unpackedValue? a = some p)
    (hq : unpackedValue? b = some q) (hlow : -1021 ≤ k) (hhigh : k ≤ 1023) (hlt : |p + q| < 2 ^ k) :
    Rounds k (p + q) (UnpackedFloat.add Format.binary64 a b) := by
  cases a with
  | infinity s => exact ha.elim
  | notANumber => exact ha.elim
  | zero s =>
    cases hp
    rw [zero_add]
    cases b with
    | infinity t => exact hb.elim
    | notANumber => exact hb.elim
    | zero t =>
      cases hq
      cases s <;> cases t <;> exact rounds_self k trivial rfl
    | finite t n f hn => exact rounds_self k hb hq
  | finite s m e hm =>
    cases b with
    | infinity t => exact hb.elim
    | notANumber => exact hb.elim
    | zero t =>
      cases hq
      rw [add_zero]
      exact rounds_self k ha hp
    | finite t n f hn =>
      cases hp
      cases hq
      have hexact : number s m e + number t n f =
          ((s.apply (decreaseExponent m e (min e f)).1 +
            t.apply (decreaseExponent n f (min e f)).1 : Int) : Rat) * 2 ^ min e f := by
        rw [← number_decreaseExponent s m (min_le_left e f),
          ← number_decreaseExponent t n (min_le_right e f)]
        unfold number
        push_cast
        ring
      rw [hexact] at hlt ⊢
      exact rounds_normalize .positive hlow hhigh hlt

/-- A difference is a sum with the second number negated. -/
theorem sub_eq_add (a b : UnpackedFloat) :
    UnpackedFloat.sub Format.binary64 a b = UnpackedFloat.add Format.binary64 a b.neg := by
  cases a with
  | finite s m e hm =>
    cases b with
    | finite t n f hn =>
      simp only [UnpackedFloat.sub, UnpackedFloat.add, UnpackedFloat.neg, apply_neg,
        Int.sub_eq_add_neg]
    | infinity | notANumber | zero => rfl
  | infinity | notANumber | zero => cases b <;> rfl

theorem rounds_sub (ha : Packable a) (hb : Packable b) (hp : unpackedValue? a = some p)
    (hq : unpackedValue? b = some q) (hlow : -1021 ≤ k) (hhigh : k ≤ 1023) (hlt : |p - q| < 2 ^ k) :
    Rounds k (p - q) (UnpackedFloat.sub Format.binary64 a b) := by
  have hneg : Packable b.neg ∧ unpackedValue? b.neg = some (-q) := by
    cases b with
    | infinity t => exact hb.elim
    | notANumber => exact hb.elim
    | zero t =>
      cases hq
      exact ⟨trivial, rfl⟩
    | finite t n f hn =>
      cases hq
      exact ⟨hb, congrArg some (number_neg t n f)⟩
  rw [sub_eq_add, sub_eq_add_neg]
  rw [sub_eq_add_neg] at hlt
  exact rounds_add ha hneg.1 hp hneg.2 hlow hhigh hlt

theorem rounds_mul (ha : Packable a) (hb : Packable b) (hp : unpackedValue? a = some p)
    (hq : unpackedValue? b = some q) (hlow : -1021 ≤ k) (hhigh : k ≤ 1023) (hlt : |p * q| < 2 ^ k) :
    Rounds k (p * q) (UnpackedFloat.mul Format.binary64 a b) := by
  cases a with
  | infinity s => exact ha.elim
  | notANumber => exact ha.elim
  | zero s =>
    cases hp
    rw [zero_mul]
    cases b with
    | infinity t => exact hb.elim
    | notANumber => exact hb.elim
    | zero t => exact rounds_self k trivial rfl
    | finite t n f hn => exact rounds_self k trivial rfl
  | finite s m e hm =>
    cases b with
    | infinity t => exact hb.elim
    | notANumber => exact hb.elim
    | zero t =>
      cases hq
      rw [mul_zero]
      exact rounds_self k trivial rfl
    | finite t n f hn =>
      cases hp
      cases hq
      rw [← number_mul] at hlt ⊢
      rw [abs_number] at hlt
      refine rounds_roundWithAccuracy (s * t) (Nat.mul_pos hm hn).ne' ?_ hlow hhigh hlt
      -- Two numbers with the least exponent have enough digits behind the point.
      rcases ha.1.normal with hlong | hleast
      · exact .inl (Nat.le_trans hlong (Nat.le_mul_of_pos_right m hn))
      · rcases hb.1.normal with hlong' | hleast'
        · exact .inl (Nat.le_trans hlong' (Nat.le_mul_of_pos_left n hm))
        · exact .inr (by omega)

/-! ## Errors -/

/-- A finite number whose value is off from `q` by `ε` at most. -/
def Near (x : Float) (q ε : Rat) : Prop := ∃ v, value? x = some v ∧ |v - q| ≤ ε

namespace Near

variable {x y : Float} {δ ε : Rat}

theorem of_value? (h : value? x = some q) : Near x q 0 := by
  refine ⟨q, h, ?_⟩
  rw [sub_self, abs_zero]

theorem mono (h : Near x q δ) (hle : δ ≤ ε) : Near x q ε := by
  obtain ⟨v, hv, herror⟩ := h
  exact ⟨v, hv, herror.trans hle⟩

/-- What an operation makes of two values is packed as it is. -/
theorem of_rounds {u : UnpackedFloat} {v : Rat} (hx : x.toModel = Float.Model.pack u)
    (h : Rounds k v u) (herror : |v - q| ≤ ε) : Near x q (ε + 2 ^ (k - 53)) := by
  obtain ⟨hpackable, w, hw, hround⟩ := h
  refine ⟨w, ?_, ?_⟩
  · unfold value?
    rw [hx, unpack_pack hpackable, hw]
  · calc
      |w - q| ≤ |w - v| + |v - q| := abs_sub_le w v q
      _ ≤ 2 ^ (k - 53) + ε := add_le_add hround herror
      _ = ε + 2 ^ (k - 53) := add_comm _ _

theorem abs_lt {v M : Rat} (herror : |v - q| ≤ ε) (hM : |q| ≤ M) (hlt : M + ε < 2 ^ k) :
    |v| < 2 ^ k := by
  have htriangle := abs_add_le (v - q) q
  rw [sub_add_cancel] at htriangle
  linarith

theorem add {M η : Rat} (hx : Near x p δ) (hy : Near y q ε) (hM : |p + q| ≤ M)
    (hk : -1021 ≤ k ∧ k ≤ 1023) (hlt : M + (δ + ε) < 2 ^ k) (hη : δ + ε + 2 ^ (k - 53) ≤ η) :
    Near (x + y) (p + q) η := by
  obtain ⟨v, hv, hδ⟩ := hx
  obtain ⟨w, hw, hε⟩ := hy
  have herror : |v + w - (p + q)| ≤ δ + ε := by
    have hsplit : v + w - (p + q) = (v - p) + (w - q) := by ring
    rw [hsplit]
    exact (abs_add_le _ _).trans (add_le_add hδ hε)
  exact (of_rounds rfl
    (rounds_add (packable_of_unpackedValue? hv) (packable_of_unpackedValue? hw) hv hw
      hk.1 hk.2 (abs_lt herror hM hlt)) herror).mono hη

theorem sub {M η : Rat} (hx : Near x p δ) (hy : Near y q ε) (hM : |p - q| ≤ M)
    (hk : -1021 ≤ k ∧ k ≤ 1023) (hlt : M + (δ + ε) < 2 ^ k) (hη : δ + ε + 2 ^ (k - 53) ≤ η) :
    Near (x - y) (p - q) η := by
  obtain ⟨v, hv, hδ⟩ := hx
  obtain ⟨w, hw, hε⟩ := hy
  have herror : |v - w - (p - q)| ≤ δ + ε := by
    have hsplit : v - w - (p - q) = (v - p) - (w - q) := by ring
    rw [hsplit]
    exact (abs_sub _ _).trans (add_le_add hδ hε)
  exact (of_rounds rfl
    (rounds_sub (packable_of_unpackedValue? hv) (packable_of_unpackedValue? hw) hv hw
      hk.1 hk.2 (abs_lt herror hM hlt)) herror).mono hη

/-- Each factor's error counts as often as the other factor is large. -/
theorem mul {P Q η : Rat} (hx : Near x p δ) (hy : Near y q ε) (hP : |p| ≤ P) (hQ : |q| ≤ Q)
    (hk : -1021 ≤ k ∧ k ≤ 1023) (hlt : P * Q + ((P + δ) * ε + δ * Q) < 2 ^ k)
    (hη : (P + δ) * ε + δ * Q + 2 ^ (k - 53) ≤ η) : Near (x * y) (p * q) η := by
  obtain ⟨v, hv, hδ⟩ := hx
  obtain ⟨w, hw, hε⟩ := hy
  have herror : |v * w - p * q| ≤ (P + δ) * ε + δ * Q := by
    have hsplit : v * w - p * q = v * (w - q) + (v - p) * q := by ring
    have hfactor : |v| ≤ P + δ := by
      have htriangle := abs_add_le (v - p) p
      rw [sub_add_cancel] at htriangle
      linarith
    rw [hsplit]
    refine (abs_add_le _ _).trans (add_le_add ?_ ?_)
    · rw [abs_mul]
      exact mul_le_mul hfactor hε (abs_nonneg _) ((abs_nonneg _).trans hfactor)
    · rw [abs_mul]
      exact mul_le_mul hδ hQ (abs_nonneg _) ((abs_nonneg _).trans hδ)
  have hsize : |p * q| ≤ P * Q := by
    rw [abs_mul]
    exact mul_le_mul hP hQ (abs_nonneg _) ((abs_nonneg _).trans hP)
  exact (of_rounds rfl
    (rounds_mul (packable_of_unpackedValue? hv) (packable_of_unpackedValue? hw) hv hw
      hk.1 hk.2 (abs_lt herror hsize hlt)) herror).mono hη

end Near

/-! ## Comparisons -/

/-- Numbers in canonical form are ordered by their exponents first. -/
theorem canonical_lt_iff {m n : Nat} {e f : Int} (hm : Canonical m e) (hn : Canonical n f) :
    (m : Rat) * 2 ^ e < n * 2 ^ f ↔ e < f ∨ e = f ∧ m < n := by
  -- With a smaller exponent the other mantissa is full, and a full mantissa is worth more than any
  -- other.
  have hexponent : ∀ {m n : Nat} {e f : Int}, Canonical m e → Canonical n f → e < f →
      (m : Rat) * 2 ^ e < n * 2 ^ f := by
    intro m n e f hm hn hlt
    have hfull : 2 ^ 52 ≤ n := hn.normal.resolve_right fun hleast => by have := hm.le; omega
    calc
      (m : Rat) * 2 ^ e < 2 ^ (53 : Int) * 2 ^ e :=
        mul_lt_mul_of_pos_right (by exact_mod_cast hm.lt) (two_zpow_pos e)
      _ = 2 ^ (53 + e) := (two_zpow_add _ _).symm
      _ ≤ 2 ^ (52 + f) := two_zpow_le (by omega)
      _ = 2 ^ (52 : Int) * 2 ^ f := two_zpow_add _ _
      _ ≤ n * 2 ^ f := mul_le_mul_of_nonneg_right (by exact_mod_cast hfull) (two_zpow_pos f).le
  rcases lt_trichotomy e f with hlt | rfl | hgt
  · exact iff_of_true (hexponent hm hn hlt) (.inl hlt)
  · rw [mul_lt_mul_iff_left₀ (two_zpow_pos e)]
    simp
  · exact iff_of_false (lt_asymm (hexponent hn hm hgt)) (by omega)

theorem number_positive (m : Nat) (e : Int) : number .positive m e = m * 2 ^ e := rfl

theorem number_negative (m : Nat) (e : Int) : number .negative m e = -(m * 2 ^ e) := by
  rw [← number_positive, ← number_neg]
  rfl

theorem size_pos {m : Nat} (hm : 0 < m) (e : Int) : 0 < (m : Rat) * 2 ^ e :=
  mul_pos (Nat.cast_pos.2 hm) (two_zpow_pos e)

theorem then_compare_eq_lt_iff {m n : Nat} {e f : Int} :
    (compare e f).then (compare m n) = .lt ↔ e < f ∨ e = f ∧ m < n := by
  rw [Ordering.then_eq_lt, Int.compare_eq_lt, Int.compare_eq_eq, Nat.compare_eq_lt]

theorem then_compare_eq_gt_iff {m n : Nat} {e f : Int} :
    (compare e f).then (compare m n) = .gt ↔ f < e ∨ f = e ∧ n < m := by
  rw [Ordering.then_eq_gt, Int.compare_eq_gt, Int.compare_eq_eq, Nat.compare_eq_gt,
    eq_comm (a := e)]

theorem compare_eq_lt_iff (ha : Packable a) (hb : Packable b) (hp : unpackedValue? a = some p)
    (hq : unpackedValue? b = some q) : a.compare b = some .lt ↔ p < q := by
  cases a with
  | infinity s => exact ha.elim
  | notANumber => exact ha.elim
  | zero s =>
    cases hp
    cases b with
    | infinity t => exact hb.elim
    | notANumber => exact hb.elim
    | zero t =>
      cases hq
      exact iff_of_false nofun (lt_irrefl _)
    | finite t n f hn =>
      cases hq
      have hpos := size_pos hn f
      cases t with
      | positive => exact iff_of_true rfl hpos
      | negative =>
        rw [number_negative]
        exact iff_of_false nofun (by linarith)
  | finite s m e hm =>
    cases hp
    have hpos := size_pos hm e
    cases b with
    | infinity t => exact hb.elim
    | notANumber => exact hb.elim
    | zero t =>
      cases hq
      cases s with
      | positive => exact iff_of_false nofun (not_lt.2 hpos.le)
      | negative =>
        rw [number_negative]
        exact iff_of_true rfl (by linarith)
    | finite t n f hn =>
      cases hq
      have hpos' := size_pos hn f
      cases s with
      | positive =>
        cases t with
        | positive =>
          rw [number_positive, number_positive, canonical_lt_iff ha.1 hb.1,
            ← then_compare_eq_lt_iff]
          exact Option.some_inj
        | negative =>
          rw [number_positive, number_negative]
          exact iff_of_false nofun (by linarith)
      | negative =>
        cases t with
        | positive =>
          rw [number_positive, number_negative]
          exact iff_of_true rfl (by linarith)
        | negative =>
          rw [number_negative, number_negative, neg_lt_neg_iff, canonical_lt_iff hb.1 ha.1,
            ← then_compare_eq_gt_iff, ← Ordering.swap_eq_lt]
          exact Option.some_inj

/-- Numbers are compared by their values. -/
theorem lt_iff {x y : Float} (hp : value? x = some p) (hq : value? y = some q) : x < y ↔ p < q := by
  rw [← compare_eq_lt_iff (packable_of_unpackedValue? hp) (packable_of_unpackedValue? hq) hp hq]
  show decide (UnpackedFloat.lt _ _ = true) = true ↔ _
  rw [decide_eq_true_iff]
  exact beq_iff_eq

/-- A number that is not finite is on the same side of all finite ones. -/
theorem lt_iff_of_value?_eq_none {x y z : Float} (hx : value? x = none) (hp : value? y = some p)
    (hq : value? z = some q) : x < y ↔ x < z := by
  have hinfinite : ∀ {y : Float} {p : Rat}, value? y = some p →
      (x < y ↔ x.toModel.unpack = .infinity .negative) := by
    intro y p hp
    show decide (UnpackedFloat.lt _ _ = true) = true ↔ _
    rw [decide_eq_true_iff]
    unfold value? at hx hp
    show x.toModel.unpack.lt y.toModel.unpack = true ↔ _
    cases hu : x.toModel.unpack with
    | zero s | finite s m e hm => rw [hu] at hx; cases hx
    | infinity s =>
      cases hv : y.toModel.unpack with
      | infinity t | notANumber => rw [hv] at hp; cases hp
      | zero t | finite t n f hn =>
        cases s with
        | positive => exact iff_of_false nofun nofun
        | negative => exact iff_of_true rfl rfl
    | notANumber => exact iff_of_false nofun nofun
  exact (hinfinite hp).trans (hinfinite hq).symm

/-! ## Whole parts -/

theorem floor_eq {z : Int} (hle : (z : Rat) ≤ q) (hlt : q < z + 1) : q.floor = z := by
  have hbelow : z ≤ q.floor := Rat.le_floor_iff.2 hle
  have habove : q.floor < z + 1 := Rat.floor_lt_iff.2 (by exact_mod_cast hlt)
  omega

theorem roundToInt_positive (m : Nat) (e : Int) :
    roundToInt .positive m e = (number .positive m e).floor := by
  symm
  rcases Int.le_total 0 e with hwhole | hparts
  · obtain ⟨n, rfl⟩ := Int.eq_ofNat_of_zero_le hwhole
    have hcut : roundToInt .positive m n = ((m * 2 ^ n : Nat) : Int) := by
      simp [roundToInt, decreaseExponent, shiftToExponent, mantissa_shiftRight,
        ExtendedMantissa.ofMantissaAndAccuracy, Sign.apply, Nat.shiftLeft_eq]
    rw [hcut, number_positive, zpow_natCast]
    refine floor_eq (by push_cast; exact le_refl _) ?_
    push_cast
    exact lt_add_one _
  · obtain ⟨n, rfl⟩ : ∃ n : Nat, e = -n := ⟨(-e).toNat, by omega⟩
    have hcut : roundToInt .positive m (-n) = ((m / 2 ^ n : Nat) : Int) := by
      simp [roundToInt, decreaseExponent, shiftToExponent, mantissa_shiftRight,
        ExtendedMantissa.ofMantissaAndAccuracy, Sign.apply]
    have hpos : (0 : Rat) < 2 ^ n := by positivity
    have hdiv := Nat.div_add_mod m (2 ^ n)
    have hmod := Nat.mod_lt m (Nat.two_pow_pos n)
    rw [hcut, number_positive, zpow_neg, zpow_natCast, ← div_eq_mul_inv]
    refine floor_eq ?_ ?_
    · rw [le_div_iff₀ hpos]
      exact_mod_cast Nat.div_mul_le_self m (2 ^ n)
    · rw [div_lt_iff₀ hpos]
      have hnext : m < (m / 2 ^ n + 1) * 2 ^ n := by
        rw [Nat.add_mul, Nat.mul_comm (m / 2 ^ n)]
        omega
      exact_mod_cast hnext

/-- A number that fits a byte is cut to its whole part. -/
theorem toNat_toUInt8 {x : Float} (hq : value? x = some q) (hle : 0 ≤ q) (hlt : q < 256) :
    (x.toUInt8.toNat : Int) = q.floor := by
  have hcut : x.toModel.unpack.toInt 0 255 = q.floor := by
    unfold value? at hq
    cases hu : x.toModel.unpack with
    | infinity s => rw [hu] at hq; cases hq
    | notANumber => rw [hu] at hq; cases hq
    | zero s =>
      rw [hu] at hq
      cases hq
      rfl
    | finite s m e hm =>
      rw [hu] at hq
      cases hq
      cases s with
      | positive => exact roundToInt_positive m e
      | negative =>
        rw [number_negative] at hle
        exact absurd (size_pos hm e) (by linarith)
  have hlow : 0 ≤ q.floor := Rat.le_floor_iff.2 (by exact_mod_cast hle)
  have hhigh : q.floor < 256 := Rat.floor_lt_iff.2 (by exact_mod_cast hlt)
  have hclamp : x.toUInt8 = UInt8.ofNatClamp (x.toModel.unpack.toInt 0 255).toNat := rfl
  have hfits : q.floor.toNat < UInt8.size := by
    show q.floor.toNat < 256
    omega
  rw [hclamp, hcut, UInt8.ofNatClamp, dif_pos hfits, UInt8.toNat_ofNatLT]
  omega

end MediaTransport.Binary64
