import OpenTwins.Binary32

namespace Binary32

structure Nearest (x : ℚ) (b : UInt32) : Prop where
  finite : finite b = true
  least : ∀ c, Binary32.finite c = true → |toRat b - x| ≤ |toRat c - x|
  even : ∀ c, Binary32.finite c = true → |toRat c - x| = |toRat b - x| → toRat c ≠ toRat b → frac b % 2 = 0

theorem toRat_of_not_negative {b : UInt32} (h : negative b = false) : toRat b = magnitude b / 2 ^ 149 := by
  simp [toRat, h]

theorem toRat_zero : toRat 0 = 0 := by
  rw [toRat_of_not_negative rfl, show magnitude 0 = 0 from rfl, Nat.cast_zero, zero_div]

theorem toRat_of_pos {b : UInt32} (h : 0 < toRat b) : toRat b = magnitude b / 2 ^ 149 := by
  rw [← abs_of_pos h, abs_toRat]

theorem nearest_toRat {a b : UInt32} (ha : finite a = true) (hb : finite b = true) :
    Nearest (toRat a) b ↔ toRat a = toRat b := by
  constructor
  · intro h
    have hle := h.least a ha
    rw [sub_self, abs_zero] at hle
    exact (sub_eq_zero.mp (abs_nonpos_iff.mp hle)).symm
  · intro h
    have hb0 : toRat b - toRat a = 0 := sub_eq_zero.mpr h.symm
    constructor
    · exact hb
    · intro c _
      rw [hb0, abs_zero]
      exact abs_nonneg _
    · intro c _ hc hne
      rw [hb0, abs_zero, abs_eq_zero, sub_eq_zero] at hc
      exact absurd (hc.trans h) hne

theorem nearest_of_isNat {n : ℕ} {a b : UInt32} (ha : IsNat a n) (hb : finite b = true) :
    toRat a = toRat b ↔ Nearest n b := by
  rw [← ha.2, nearest_toRat ha.1 hb]

theorem frac_eq_significand (b : UInt32) : frac b = significand b % 2 ^ 23 := by
  have hf : frac b < 2 ^ 23 := Nat.mod_lt _ (by norm_num)
  unfold significand
  split_ifs <;> omega

theorem expo_le_of_magnitude {b c : UInt32} (h : magnitude b = magnitude c) : expo c - 1 ≤ expo b - 1 := by
  by_contra hlt
  obtain ⟨k, hk⟩ : ∃ k, expo c - 1 = expo b - 1 + (k + 1) := ⟨expo c - 1 - (expo b - 1) - 1, by omega⟩
  rw [magnitude, magnitude, hk, Nat.pow_add, Nat.mul_comm (2 ^ (expo b - 1)), ← Nat.mul_assoc] at h
  have hsig := Nat.eq_of_mul_eq_mul_right (by positivity) h
  have hnormal : 2 ^ 23 ≤ significand c := by
    rw [significand, if_neg (by omega)]
    exact Nat.le_add_right _ _
  have htwo : 2 ≤ 2 ^ (k + 1) := by
    rw [Nat.pow_succ']
    have := Nat.one_le_two_pow (n := k)
    omega
  have hle := Nat.mul_le_mul hnormal htwo
  have hlt24 := significand_lt b
  omega

theorem frac_of_magnitude {b c : UInt32} (h : magnitude b = magnitude c) : frac b = frac c := by
  have hexpo := Nat.le_antisymm (expo_le_of_magnitude h.symm) (expo_le_of_magnitude h)
  rw [magnitude, magnitude, hexpo] at h
  rw [frac_eq_significand, frac_eq_significand, Nat.eq_of_mul_eq_mul_right (by positivity) h]

theorem magnitude_of_toRat {b c : UInt32} (h : toRat b = toRat c) : magnitude b = magnitude c := by
  have habs := congrArg abs h
  rw [abs_toRat, abs_toRat, div_left_inj' (by positivity)] at habs
  exact_mod_cast habs

theorem Nearest.congr {x : ℚ} {b c : UInt32} (h : Nearest x b) (hc : Binary32.finite c = true)
    (heq : toRat c = toRat b) : Nearest x c := by
  constructor
  · exact hc
  · rw [heq]
    exact h.least
  · rw [heq, frac_of_magnitude (magnitude_of_toRat heq)]
    exact h.even

theorem toRat_grid {s : ℕ} {c : UInt32} (hlow : 2 ^ (23 + s) ≤ toRat c) (hhigh : toRat c ≤ 2 ^ (24 + s)) :
    ∃ m : ℕ, toRat c = m * 2 ^ s ∧ m % 2 = frac c % 2 := by
  have hc := toRat_of_pos (lt_of_lt_of_le (by positivity) hlow)
  have hp : (0 : ℚ) < 2 ^ 149 := by positivity
  rw [hc, le_div_iff₀ hp] at hlow
  rw [hc, div_le_iff₀ hp] at hhigh
  have hlow' : 2 ^ (23 + s) * 2 ^ 149 ≤ magnitude c := by exact_mod_cast hlow
  have hhigh' : magnitude c ≤ 2 ^ (24 + s) * 2 ^ 149 := by exact_mod_cast hhigh
  rw [← Nat.pow_add] at hlow' hhigh'
  have hs := significand_lt c
  have hexp : 23 + s + 149 < 24 + (expo c - 1) := by
    apply (Nat.pow_lt_pow_iff_right (a := 2) (by norm_num)).mp
    apply lt_of_le_of_lt hlow'
    rw [magnitude, Nat.pow_add]
    exact Nat.mul_lt_mul_of_pos_right hs (by positivity)
  have hsig : significand c = 2 ^ 23 + frac c := by rw [significand, if_neg (by omega)]
  have hexp' : 23 + (expo c - 1) ≤ 24 + s + 149 := by
    apply (Nat.pow_le_pow_iff_right (a := 2) (by norm_num)).mp
    apply le_trans _ hhigh'
    rw [magnitude, Nat.pow_add]
    exact Nat.mul_le_mul_right _ (by omega)
  rw [hc]
  suffices h : ∃ m, magnitude c = m * 2 ^ s * 2 ^ 149 ∧ m % 2 = frac c % 2 by
    obtain ⟨m, hm, hodd⟩ := h
    refine ⟨m, ?_, hodd⟩
    rw [div_eq_iff hp.ne']
    exact_mod_cast hm
  obtain he | he : expo c - 1 = s + 149 ∨ expo c - 1 = s + 149 + 1 := by omega
  · refine ⟨significand c, ?_, by omega⟩
    rw [magnitude, he, Nat.pow_add, Nat.mul_assoc]
  · have hfrac : frac c = 0 := by
      rw [magnitude, he, show 24 + s + 149 = 23 + (s + 149 + 1) by omega, Nat.pow_add 2 23] at hhigh'
      have := Nat.le_of_mul_le_mul_right hhigh' (by positivity)
      omega
    refine ⟨significand c * 2, ?_, by omega⟩
    rw [magnitude, he, Nat.pow_succ', Nat.pow_add, Nat.mul_assoc, Nat.mul_assoc]

theorem roundBits_half {n s : ℕ} (hs : s ≠ 0) :
    2 * |(roundBits n (23 + s) * 2 ^ s - n : ℤ)| ≤ 2 ^ s ∧
      (2 * |(roundBits n (23 + s) * 2 ^ s - n : ℤ)| = 2 ^ s → roundBits n (23 + s) % 2 = 0) := by
  obtain ⟨t, rfl⟩ : ∃ t, s = t + 1 := ⟨s - 1, by omega⟩
  have hdiv : (n : ℤ) = 2 ^ (t + 1) * (n / 2 ^ (t + 1) : ℕ) + (n % 2 ^ (t + 1) : ℕ) := by
    exact_mod_cast (Nat.div_add_mod n (2 ^ (t + 1))).symm
  have hlt : n % 2 ^ (t + 1) < 2 ^ (t + 1) := Nat.mod_lt _ (by positivity)
  have hdouble : 2 ^ (t + 1) = 2 * 2 ^ t := Nat.pow_succ'
  simp only [roundBits, if_neg (show ¬ 23 + (t + 1) ≤ 23 by omega), Nat.add_sub_cancel_left,
    Nat.add_sub_cancel]
  have hz : (2 : ℤ) ^ (t + 1) = ((2 ^ (t + 1) : ℕ) : ℤ) := by push_cast; rfl
  rw [hz] at hdiv ⊢
  generalize n / 2 ^ (t + 1) = q at *
  generalize n % 2 ^ (t + 1) = r at *
  generalize 2 ^ (t + 1) = e at *
  generalize 2 ^ t = f at *
  subst hdouble
  split_ifs with h
  · have hd : (((q + 1 : ℕ) : ℤ) * (2 * f : ℕ) - n) = 2 * f - r := by
      rw [hdiv]
      push_cast
      ring
    rw [hd, abs_of_nonneg (by omega)]
    omega
  · have hd : ((q : ℤ) * (2 * f : ℕ) - n) = - (r : ℤ) := by
      rw [hdiv]
      push_cast
      ring
    rw [hd, abs_neg, abs_of_nonneg (by omega)]
    omega

theorem roundBits_rat_half {n s : ℕ} (hs : s ≠ 0) :
    2 * |(roundBits n (23 + s) * 2 ^ s - n : ℚ)| ≤ 2 ^ s ∧
      (2 * |(roundBits n (23 + s) * 2 ^ s - n : ℚ)| = 2 ^ s → roundBits n (23 + s) % 2 = 0) := by
  obtain ⟨hle, heven⟩ := roundBits_half (n := n) hs
  refine ⟨by exact_mod_cast hle, ?_⟩
  intro h
  apply heven
  exact_mod_cast h

theorem grid_nearest {e x : ℚ} {r : ℕ} (he : 0 < e) (h : 2 * |r * e - x| ≤ e) (m : ℕ) :
    |r * e - x| ≤ |m * e - x| ∧
      (|m * e - x| = |r * e - x| → m = r ∨ ((m = r + 1 ∨ r = m + 1) ∧ 2 * |r * e - x| = e)) := by
  obtain ⟨h1, h2⟩ := abs_le.mp (show |r * e - x| ≤ e / 2 by linarith)
  have hzero {j : ℕ} (hj : (j : ℚ) * e = 0) : j = 0 := by
    have hcast := (mul_eq_zero.mp hj).resolve_right he.ne'
    exact_mod_cast hcast
  rcases lt_trichotomy m r with hlt | rfl | hlt
  · obtain ⟨j, rfl⟩ := Nat.exists_eq_add_of_lt hlt
    have hj : (0 : ℚ) ≤ j * e := by positivity
    push_cast at h h1 h2 ⊢
    have hm : |m * e - x| = x - m * e := by
      rw [abs_of_nonpos (by nlinarith), neg_sub]
    rw [hm]
    have hr := abs_le.mp (show |(m + j + 1) * e - x| ≤ e / 2 by linarith)
    refine ⟨by nlinarith, ?_⟩
    intro heq
    obtain rfl : j = 0 := hzero (by nlinarith)
    exact .inr ⟨.inr rfl, by nlinarith⟩
  · exact ⟨le_refl _, fun _ => .inl rfl⟩
  · obtain ⟨j, rfl⟩ := Nat.exists_eq_add_of_lt hlt
    have hj : (0 : ℚ) ≤ j * e := by positivity
    push_cast
    have hm : |(r + j + 1) * e - x| = (r + j + 1) * e - x := abs_of_nonneg (by nlinarith)
    rw [hm]
    refine ⟨by nlinarith, ?_⟩
    intro heq
    obtain rfl : j = 0 := hzero (by nlinarith)
    exact .inr ⟨.inl rfl, by nlinarith⟩

theorem toRat_near_grid {n s : ℕ} (hlow : 2 ^ (23 + s) ≤ n) (hhigh : n ≤ 2 ^ (24 + s)) (c : UInt32) :
    ∃ m : ℕ, |(m * 2 ^ s : ℚ) - n| ≤ |toRat c - n| ∧
      (|(m * 2 ^ s : ℚ) - n| = |toRat c - n| → toRat c = m * 2 ^ s ∧ m % 2 = frac c % 2) := by
  have hlow' : (2 : ℚ) ^ (23 + s) ≤ n := by exact_mod_cast hlow
  have hhigh' : (n : ℚ) ≤ 2 ^ (24 + s) := by exact_mod_cast hhigh
  by_cases h1 : 2 ^ (23 + s) ≤ toRat c
  · by_cases h2 : toRat c ≤ 2 ^ (24 + s)
    · obtain ⟨m, hm, hodd⟩ := toRat_grid h1 h2
      exact ⟨m, by rw [hm], fun _ => ⟨hm, hodd⟩⟩
    · have hlt : |((2 ^ 24 : ℕ) * 2 ^ s : ℚ) - n| < |toRat c - n| := by
        rw [Nat.cast_pow, Nat.cast_ofNat, ← pow_add, abs_of_nonneg (by linarith), abs_of_nonneg (by linarith)]
        linarith
      exact ⟨2 ^ 24, hlt.le, fun h => absurd h hlt.ne⟩
  · have hlt : |((2 ^ 23 : ℕ) * 2 ^ s : ℚ) - n| < |toRat c - n| := by
      rw [Nat.cast_pow, Nat.cast_ofNat, ← pow_add, abs_of_nonpos (by linarith), abs_of_nonpos (by linarith)]
      linarith
    exact ⟨2 ^ 23, hlt.le, fun h => absurd h hlt.ne⟩

theorem ofNat_toRat {n s : ℕ} (h0 : n ≠ 0) (hn : n < 2 ^ 64) (hk : Nat.log2 n = 23 + s) :
    toRat (ofNat n) = roundBits n (23 + s) * 2 ^ s := by
  obtain ⟨-, hs, hm, -⟩ := ofNat_rounded h0 hn
  rw [toRat_of_not_negative hs, hm, hk, show 23 + s + 126 = s + 149 by omega, Nat.pow_add,
    ← Nat.mul_assoc, div_eq_iff (by positivity)]
  push_cast
  rfl

section rounding

variable {n s r : ℕ} {b : UInt32} (hlow : 2 ^ (23 + s) ≤ n) (hhigh : n ≤ 2 ^ (24 + s))
  (hhalf : 2 * |(r * 2 ^ s - n : ℚ)| ≤ 2 ^ s) (heven : 2 * |(r * 2 ^ s - n : ℚ)| = 2 ^ s → r % 2 = 0)

include hlow hhigh hhalf heven

theorem nearest_of_multiple (hr : 2 ^ 23 ≤ r) (hr' : r ≤ 2 ^ 24) (hb : finite b = true)
    (h : (r * 2 ^ s : ℚ) = toRat b) : Nearest n b := by
  have hgrid := grid_nearest (by positivity) hhalf
  obtain ⟨m, hm, hodd⟩ : ∃ m : ℕ, toRat b = m * 2 ^ s ∧ m % 2 = frac b % 2 := by
    apply toRat_grid
    · rw [← h, pow_add]
      exact mul_le_mul_of_nonneg_right (by exact_mod_cast hr) (by positivity)
    · rw [← h, pow_add]
      exact mul_le_mul_of_nonneg_right (by exact_mod_cast hr') (by positivity)
  obtain rfl : r = m := by
    rw [hm] at h
    have hcancel := mul_right_cancel₀ (show (2 : ℚ) ^ s ≠ 0 by positivity) h
    exact_mod_cast hcancel
  constructor
  · exact hb
  · intro c _
    obtain ⟨m, hle, -⟩ := toRat_near_grid hlow hhigh c
    rw [← h]
    exact (hgrid m).1.trans hle
  · intro c _ hc hne
    obtain ⟨m, hle, heq⟩ := toRat_near_grid hlow hhigh c
    rw [← h] at hc hne
    obtain ⟨hcm, -⟩ := heq (le_antisymm hle (hc ▸ (hgrid m).1))
    rw [hcm] at hc hne
    rcases (hgrid m).2 hc with rfl | ⟨-, htie⟩
    · exact absurd rfl hne
    · exact hodd ▸ heven htie

theorem multiple_of_nearest {a : UInt32} (ha : finite a = true) (hr : toRat a = r * 2 ^ s) (h : Nearest n b) :
    (r * 2 ^ s : ℚ) = toRat b := by
  have hgrid := grid_nearest (by positivity) hhalf
  obtain ⟨m, hle, heq⟩ := toRat_near_grid hlow hhigh b
  have hleast := h.least a ha
  rw [hr] at hleast
  have hsame : |(m * 2 ^ s : ℚ) - n| = |toRat b - n| := le_antisymm hle (hleast.trans (hgrid m).1)
  obtain ⟨hbm, hodd⟩ := heq hsame
  have htwo : |(m * 2 ^ s : ℚ) - n| = |(r * 2 ^ s : ℚ) - n| := le_antisymm (hle.trans hleast) (hgrid m).1
  rcases (hgrid m).2 htwo with rfl | ⟨hnext, htie⟩
  · exact hbm.symm
  · -- of two neighbours that are equally near only one is even
    by_contra hne
    have hreven := heven htie
    have hbeven := h.even a ha (by rw [hr, ← htwo, hsame]) (by rwa [hr])
    omega

end rounding

theorem ofNat_eq_iff_nearest_of_large {n s : ℕ} {b : UInt32} (hs : s ≠ 0) (hn : n < 2 ^ 64)
    (hk : Nat.log2 n = 23 + s) (hb : finite b = true) : toRat (ofNat n) = toRat b ↔ Nearest n b := by
  have h0 : n ≠ 0 := by
    rintro rfl
    rw [Nat.log2_zero] at hk
    omega
  have hlow : 2 ^ (23 + s) ≤ n := hk ▸ Nat.log2_self_le h0
  have hhigh : n ≤ 2 ^ (24 + s) := by
    have hlt : n < 2 ^ (Nat.log2 n + 1) := Nat.lt_log2_self
    rw [hk, show 23 + s + 1 = 24 + s by omega] at hlt
    exact hlt.le
  obtain ⟨hhalf, heven⟩ := roundBits_rat_half (n := n) hs
  have hof := ofNat_toRat h0 hn hk
  obtain ⟨hb1, hb2⟩ := roundBits_bounds h0
  rw [hk] at hb1 hb2
  constructor
  · intro h
    rw [hof] at h
    exact nearest_of_multiple hlow hhigh hhalf heven hb1 hb2 hb h
  · intro h
    rw [hof]
    exact multiple_of_nearest hlow hhigh hhalf heven (ofNat_rounded h0 hn).1 hof h

theorem ofNat_eq_iff_nearest {n : ℕ} {b : UInt32} (hn : n < 2 ^ 64) (hb : finite b = true) :
    toRat (ofNat n) = toRat b ↔ Nearest n b := by
  by_cases hk : Nat.log2 n ≤ 23
  · exact nearest_of_isNat (ofNat_isNat_of_exact hn fun _ => .inl hk) hb
  · exact ofNat_eq_iff_nearest_of_large (s := Nat.log2 n - 23) (by omega) hn (by omega) hb

theorem finite_ofNat {n : ℕ} (hn : n < 2 ^ 64) : finite (ofNat n) = true := by
  by_cases h0 : n = 0
  · subst h0
    rfl
  · exact (ofNat_rounded h0 hn).1

theorem nearest_ofNat {n : ℕ} (hn : n < 2 ^ 64) : Nearest n (ofNat n) :=
  (ofNat_eq_iff_nearest hn (finite_ofNat hn)).mp rfl

theorem toRat_ofNat_pos {n : ℕ} (h0 : n ≠ 0) (hn : n < 2 ^ 64) : 0 < toRat (ofNat n) := by
  obtain ⟨-, hs, hm, -⟩ := ofNat_rounded h0 hn
  have hr : 0 < roundBits n (Nat.log2 n) := lt_of_lt_of_le (by positivity) (roundBits_bounds h0).1
  rw [toRat_of_not_negative hs, hm]
  exact div_pos (Nat.cast_pos.mpr (Nat.mul_pos hr (by positivity))) (by positivity)

end Binary32
