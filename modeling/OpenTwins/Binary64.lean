import OpenTwins.Binary32

namespace Binary64

def expo (d : UInt64) : ℕ := d.toNat / 2 ^ 52 % 2 ^ 11
def frac (d : UInt64) : ℕ := d.toNat % 2 ^ 52
def negative (d : UInt64) : Bool := decide (2 ^ 63 ≤ d.toNat)
def finite (d : UInt64) : Bool := decide (expo d < 2047)
def infinite (d : UInt64) : Bool := decide (expo d = 2047 ∧ frac d = 0)

def significand (d : UInt64) : ℕ := if expo d = 0 then frac d else 2 ^ 52 + frac d

def magnitude (d : UInt64) : ℕ := significand d * 2 ^ (expo d - 1)

def toRat (d : UInt64) : ℚ := (if negative d then -1 else 1) * (magnitude d / 2 ^ 1074)

def SameNumber (x : UInt32) (d : UInt64) : Prop :=
  (Binary32.finite x ∧ finite d ∧ toRat d = Binary32.toRat x) ∨
    (Binary32.infinite x ∧ infinite d ∧ negative d = Binary32.negative x)

theorem abs_toRat (d : UInt64) : |toRat d| = magnitude d / 2 ^ 1074 := by
  have hm : (0 : ℚ) ≤ (magnitude d : ℚ) / 2 ^ 1074 := div_nonneg (Nat.cast_nonneg _) (by positivity)
  unfold toRat
  split_ifs
  · rw [neg_one_mul, abs_neg, abs_of_nonneg hm]
  · rw [one_mul, abs_of_nonneg hm]

theorem magnitude_eq {x : UInt32} {d : UInt64} (h : toRat d = Binary32.toRat x) :
    magnitude d = Binary32.magnitude x * 2 ^ 925 := by
  have habs := congrArg abs h
  have hsplit : (2 : ℚ) ^ 1074 = 2 ^ 149 * 2 ^ 925 := by rw [← pow_add]
  rw [abs_toRat, Binary32.abs_toRat, div_eq_div_iff (by positivity) (by positivity), hsplit, mul_comm (2 ^ 149),
    ← mul_assoc] at habs
  apply Nat.cast_injective (R := ℚ)
  rw [Nat.cast_mul, Nat.cast_pow, Nat.cast_ofNat]
  exact mul_right_cancel₀ (by positivity) habs

theorem sameNumber_of_magnitude {x : UInt32} {d : UInt64} (hx : Binary32.finite x) (hd : finite d)
    (hn : negative d = Binary32.negative x) (hm : magnitude d = Binary32.magnitude x * 2 ^ 925) : SameNumber x d := by
  refine .inl ⟨hx, hd, ?_⟩
  have hsplit : (2 : ℚ) ^ 1074 = 2 ^ 149 * 2 ^ 925 := by rw [← pow_add]
  rw [toRat, Binary32.toRat, hn, hm, hsplit, Nat.cast_mul, Nat.cast_pow, Nat.cast_ofNat,
    mul_div_mul_right _ _ (by positivity)]

theorem sameNumber_of_fields {x : UInt32} {d : UInt64} (hx : Binary32.finite x) (hd : finite d)
    (hn : negative d = Binary32.negative x) (hs : significand d = Binary32.significand x * 2 ^ 29)
    (he : expo d - 1 = Binary32.expo x - 1 + 896) : SameNumber x d := by
  apply sameNumber_of_magnitude hx hd hn
  rw [magnitude, Binary32.magnitude, hs, he, Nat.mul_assoc, ← Nat.pow_add, Nat.mul_assoc, ← Nat.pow_add,
    show 29 + (Binary32.expo x - 1 + 896) = Binary32.expo x - 1 + 925 by omega]

theorem sameNumber_zero : SameNumber 0 0 := by
  apply sameNumber_of_magnitude rfl rfl rfl
  rw [show magnitude 0 = 0 from rfl, show Binary32.magnitude 0 = 0 from rfl, Nat.zero_mul]

theorem frac_of_magnitude_zero {d : UInt64} (h : magnitude d = 0) : frac d = 0 := by
  rw [magnitude, Nat.mul_eq_zero] at h
  have hs := h.resolve_right (by positivity)
  unfold significand at hs
  split_ifs at hs
  · exact hs
  · omega

theorem frac_of_short {f a m c : ℕ} (hf : f < 2 ^ 52) (hm : m < 2 ^ 24) (h : (2 ^ 52 + f) * 2 ^ a = m * 2 ^ c) :
    ∃ j, 29 ≤ j ∧ 2 ^ 52 + f = m * 2 ^ j := by
  have hca : a ≤ c := by
    by_contra hlt
    obtain ⟨k, rfl⟩ : ∃ k, a = c + k := ⟨a - c, by omega⟩
    rw [Nat.pow_add, Nat.mul_comm (2 ^ c), ← Nat.mul_assoc] at h
    have heq := Nat.eq_of_mul_eq_mul_right (by positivity) h
    have hpos : 1 ≤ 2 ^ k := Nat.one_le_two_pow
    nlinarith
  obtain ⟨j, rfl⟩ : ∃ j, c = j + a := ⟨c - a, by omega⟩
  rw [Nat.pow_add, ← Nat.mul_assoc] at h
  have heq := Nat.eq_of_mul_eq_mul_right (by positivity) h
  refine ⟨j, ?_, heq⟩
  by_contra hj
  have hle : 2 ^ j ≤ 2 ^ 28 := Nat.pow_le_pow_right (by norm_num) (by omega)
  have hlt : m * 2 ^ j < 2 ^ 24 * 2 ^ 28 := Nat.mul_lt_mul_of_lt_of_le hm hle (by positivity)
  omega

theorem toUInt32_eq_zero {d : UInt64} (h : frac d = 0) : d.toUInt32 = 0 := by
  apply UInt32.toNat_inj.mp
  rw [UInt64.toNat_toUInt32, UInt32.toNat_zero]
  unfold frac at h
  omega

theorem frac_zero_of_low {x : UInt32} {d : UInt64} {c : ℕ} (hc : 52 ≤ c)
    (hm : magnitude d = Binary32.magnitude x * 2 ^ c) (hx : Binary32.magnitude x ≠ 0) (hlow : d.toUInt32 = x) :
    frac d = 0 := by
  have hf : frac d < 2 ^ 52 := Nat.mod_lt _ (by positivity)
  have hexp : expo d ≠ 0 := by
    intro he
    rw [magnitude, significand, if_pos he, he, Nat.zero_sub, Nat.pow_zero, Nat.mul_one] at hm
    have hpow : 2 ^ 52 ≤ 2 ^ c := Nat.pow_le_pow_right (by norm_num) hc
    have := Nat.le_mul_of_pos_left (2 ^ c) (Nat.pos_of_ne_zero hx)
    omega
  rw [magnitude, significand, if_neg hexp, Binary32.magnitude, Nat.mul_assoc, ← Nat.pow_add] at hm
  obtain ⟨j, hj, hsum⟩ := frac_of_short hf (Binary32.significand_lt x) hm
  have hdvd : 2 ^ 29 ∣ 2 ^ 52 + frac d := by
    rw [hsum]
    exact (Nat.pow_dvd_pow 2 hj).mul_left _
  have hx29 : x.toNat % 2 ^ 29 = 0 := by
    rw [← hlow, UInt64.toNat_toUInt32]
    unfold frac at hdvd
    omega
  -- the fraction of `x` is empty, so both significands are powers of two
  have hfx : Binary32.frac x = 0 := by
    unfold Binary32.frac
    omega
  have hsx : Binary32.significand x = 2 ^ 23 := by
    have hne : Binary32.significand x ≠ 0 := fun h0 => hx (by rw [Binary32.magnitude, h0, Nat.zero_mul])
    unfold Binary32.significand at hne ⊢
    split_ifs at hne ⊢
    · exact absurd hfx hne
    · rw [hfx, Nat.add_zero]
  rw [hsx, ← Nat.pow_add] at hsum
  have hlt : 23 + j < 53 := by
    apply (Nat.pow_lt_pow_iff_right (a := 2) (by norm_num)).mp
    omega
  have hge : 52 ≤ 23 + j := by
    apply (Nat.pow_le_pow_iff_right (a := 2) (by norm_num)).mp
    omega
  obtain rfl : j = 29 := by omega
  omega

theorem low_eq_iff {x : UInt32} {d : UInt64} (h : SameNumber x d) : d.toUInt32 = x ↔ x = 0 := by
  constructor
  · intro hlow
    rw [← hlow]
    apply toUInt32_eq_zero
    rcases h with ⟨-, -, hr⟩ | ⟨-, hd, -⟩
    · have hm := magnitude_eq hr
      by_cases hx : Binary32.magnitude x = 0
      · apply frac_of_magnitude_zero
        rw [hm, hx, Nat.zero_mul]
      · exact frac_zero_of_low (by norm_num) hm hx hlow
    · simp only [infinite, decide_eq_true_eq] at hd
      exact hd.2
  · rintro rfl
    rcases h with ⟨-, -, hr⟩ | ⟨hx, -, -⟩
    · apply toUInt32_eq_zero
      apply frac_of_magnitude_zero
      rw [magnitude_eq hr, show Binary32.magnitude 0 = 0 from rfl, Nat.zero_mul]
    · exact absurd hx (by decide)

end Binary64
