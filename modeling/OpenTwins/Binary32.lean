import Mathlib.Data.Nat.Log
import Mathlib.Data.Rat.Cast.Order
import Mathlib.Tactic.FieldSimp
import Mathlib.Tactic.Linarith
import Mathlib.Tactic.Ring

namespace Binary32

def expo (b : UInt32) : ℕ := b.toNat / 2 ^ 23 % 2 ^ 8
def frac (b : UInt32) : ℕ := b.toNat % 2 ^ 23
def negative (b : UInt32) : Bool := decide (2 ^ 31 ≤ b.toNat)
def finite (b : UInt32) : Bool := decide (expo b < 255)

def significand (b : UInt32) : ℕ := if expo b = 0 then frac b else 2 ^ 23 + frac b

def magnitude (b : UInt32) : ℕ := significand b * 2 ^ (expo b - 1)

def toRat (b : UInt32) : ℚ := (if negative b then -1 else 1) * (magnitude b / 2 ^ 149)

/-- Conversion to a 64-bit unsigned integer, truncating toward zero. Where the truncated
value does not fit the conversion is undefined, and `overflow` stands for what it yields. -/
def toUInt64 (overflow : UInt64) (b : UInt32) : UInt64 :=
  let q := magnitude b / 2 ^ 149
  if finite b ∧ q < 2 ^ 64 ∧ (negative b → q = 0) then UInt64.ofNat q else overflow

def roundBits (n k : ℕ) : ℕ :=
  if k ≤ 23 then n * 2 ^ (23 - k)
  else
    let s := k - 23
    let q := n / 2 ^ s
    let r := n % 2 ^ s
    if 2 ^ (s - 1) < r ∨ (r = 2 ^ (s - 1) ∧ q % 2 = 1) then q + 1 else q

def ofNat (n : ℕ) : UInt32 :=
  if n = 0 then 0
  else UInt32.ofNat ((127 + Nat.log2 n) * 2 ^ 23 + (roundBits n (Nat.log2 n) - 2 ^ 23))

def ofUInt64 (n : UInt64) : UInt32 := ofNat n.toNat

def infinite (b : UInt32) : Bool := decide (expo b = 255 ∧ frac b = 0)

theorem abs_toRat (b : UInt32) : |toRat b| = magnitude b / 2 ^ 149 := by
  have hm : (0 : ℚ) ≤ (magnitude b : ℚ) / 2 ^ 149 := div_nonneg (Nat.cast_nonneg _) (by norm_num)
  unfold toRat
  split_ifs
  · rw [neg_one_mul, abs_neg, abs_of_nonneg hm]
  · rw [one_mul, abs_of_nonneg hm]

def IsNat (b : UInt32) (n : ℕ) : Prop := finite b = true ∧ toRat b = n

theorem isNat_iff (b : UInt32) (n : ℕ) :
    IsNat b n ↔ finite b = true ∧ magnitude b = n * 2 ^ 149 ∧ (negative b = true → n = 0) := by
  unfold IsNat toRat
  apply and_congr_right
  intro _
  by_cases hs : negative b = true
  · simp only [hs, if_true, forall_true_left]
    constructor
    · intro h
      have hm : (0 : ℚ) ≤ (magnitude b : ℚ) / 2 ^ 149 := div_nonneg (Nat.cast_nonneg _) (by norm_num)
      have hn : (0 : ℚ) ≤ (n : ℚ) := Nat.cast_nonneg _
      have hn0 : (n : ℚ) = 0 := by linarith
      have hm0 : (magnitude b : ℚ) / 2 ^ 149 = 0 := by linarith
      have hz : magnitude b = 0 := by
        rcases div_eq_zero_iff.mp hm0 with h | h
        · exact_mod_cast h
        · norm_num at h
      have hnz : n = 0 := by exact_mod_cast hn0
      simp [hz, hnz]
    · rintro ⟨hm, rfl⟩
      simp [hm]
  · simp only [hs, if_false, one_mul, Bool.false_eq_true, false_implies, and_true]
    rw [div_eq_iff (by norm_num)]
    exact_mod_cast Iff.rfl

theorem toUInt64_isNat {b : UInt32} {n : ℕ} (overflow : UInt64) (h : IsNat b n) (hn : n < 2 ^ 64) :
    toUInt64 overflow b = UInt64.ofNat n := by
  obtain ⟨hf, hm, hs⟩ := (isNat_iff b n).mp h
  have hq : magnitude b / 2 ^ 149 = n := by rw [hm]; exact Nat.mul_div_cancel _ (by positivity)
  simp only [toUInt64, hq]
  rw [if_pos ⟨hf, hn, hs⟩]

theorem significand_lt (b : UInt32) : significand b < 2 ^ 24 := by
  unfold significand frac
  split_ifs <;> omega

theorem representable {b : UInt32} {n : ℕ} (hm : magnitude b = n * 2 ^ 149) (hn : n ≠ 0) :
    Nat.log2 n ≤ 23 ∨ 2 ^ (Nat.log2 n - 23) ∣ n := by
  have hs := significand_lt b
  unfold magnitude at hm
  by_cases he : expo b - 1 ≤ 149
  · left
    have hle : n ≤ significand b := by
      have hp : significand b * 2 ^ (expo b - 1) ≤ significand b * 2 ^ 149 :=
        Nat.mul_le_mul_left _ (Nat.pow_le_pow_right (by norm_num) he)
      rw [hm] at hp
      exact Nat.le_of_mul_le_mul_right hp (by positivity)
    have : Nat.log2 n < 24 := (Nat.log2_lt hn).mpr (by omega)
    omega
  · right
    obtain ⟨j, hj⟩ : ∃ j, expo b - 1 = j + 149 := ⟨expo b - 1 - 149, by omega⟩
    rw [hj, Nat.pow_add, ← Nat.mul_assoc] at hm
    have hn' : n = significand b * 2 ^ j := (Nat.eq_of_mul_eq_mul_right (by positivity) hm).symm
    have hlog : Nat.log2 n < 24 + j := by
      rw [Nat.log2_lt hn, hn', Nat.pow_add]
      exact Nat.mul_lt_mul_of_pos_right hs (by positivity)
    calc 2 ^ (Nat.log2 n - 23) ∣ 2 ^ j := Nat.pow_dvd_pow 2 (by omega)
      _ ∣ n := hn' ▸ Dvd.intro_left _ rfl

theorem roundBits_exact {n : ℕ} (h : Nat.log2 n ≤ 23 ∨ 2 ^ (Nat.log2 n - 23) ∣ n) :
    roundBits n (Nat.log2 n) * 2 ^ (Nat.log2 n) = n * 2 ^ 23 := by
  unfold roundBits
  split_ifs with hk
  · rw [Nat.mul_assoc, ← Nat.pow_add]
    congr 2
    omega
  · have hd := h.resolve_left hk
    have hr : n % 2 ^ (Nat.log2 n - 23) = 0 := Nat.mod_eq_zero_of_dvd hd
    have hpos : 0 < 2 ^ (Nat.log2 n - 23 - 1) := by positivity
    simp only [hr]
    rw [if_neg (by omega)]
    have hsplit : 2 ^ Nat.log2 n = 2 ^ (Nat.log2 n - 23) * 2 ^ 23 := by
      rw [← Nat.pow_add]; congr 1; omega
    rw [hsplit, ← Nat.mul_assoc, Nat.div_mul_cancel hd]

theorem fields_of_normal {e f : ℕ} (he : e < 255) (hf : f < 2 ^ 23) :
    expo (UInt32.ofNat (e * 2 ^ 23 + f)) = e ∧ frac (UInt32.ofNat (e * 2 ^ 23 + f)) = f ∧
      negative (UInt32.ofNat (e * 2 ^ 23 + f)) = false := by
  have hn : (UInt32.ofNat (e * 2 ^ 23 + f)).toNat = e * 2 ^ 23 + f := by
    rw [UInt32.toNat_ofNat']
    exact Nat.mod_eq_of_lt (by omega)
  unfold expo frac negative
  rw [hn]
  refine ⟨by omega, by omega, by simp; omega⟩

theorem roundBits_bounds {n : ℕ} (h0 : n ≠ 0) :
    2 ^ 23 ≤ roundBits n (Nat.log2 n) ∧ roundBits n (Nat.log2 n) ≤ 2 ^ 24 := by
  have hlow : 2 ^ Nat.log2 n ≤ n := Nat.log2_self_le h0
  have hhigh : n < 2 ^ (Nat.log2 n + 1) := Nat.lt_log2_self
  generalize Nat.log2 n = k at hlow hhigh
  by_cases hk : k ≤ 23
  · have hsplit : 2 ^ k * 2 ^ (23 - k) = 2 ^ 23 := by
      rw [← Nat.pow_add]
      congr 1
      omega
    rw [roundBits, if_pos hk]
    constructor
    · rw [← hsplit]
      exact Nat.mul_le_mul_right _ hlow
    · calc n * 2 ^ (23 - k) ≤ 2 ^ (k + 1) * 2 ^ (23 - k) := Nat.mul_le_mul_right _ hhigh.le
        _ = 2 ^ 24 := by rw [Nat.pow_succ', Nat.mul_assoc, hsplit, ← Nat.pow_succ']
  · obtain ⟨s, rfl⟩ : ∃ s, k = 23 + s := ⟨k - 23, by omega⟩
    rw [Nat.pow_add] at hlow
    rw [Nat.add_right_comm, Nat.pow_add] at hhigh
    have hq1 : 2 ^ 23 ≤ n / 2 ^ s := (Nat.le_div_iff_mul_le (by positivity)).mpr hlow
    have hq2 : n / 2 ^ s < 2 ^ (23 + 1) := (Nat.div_lt_iff_lt_mul (by positivity)).mpr hhigh
    simp only [roundBits, if_neg hk, Nat.add_sub_cancel_left]
    split_ifs <;> omega

theorem ofNat_rounded {n : ℕ} (h0 : n ≠ 0) (hn : n < 2 ^ 64) :
    finite (ofNat n) = true ∧ negative (ofNat n) = false ∧
      magnitude (ofNat n) = roundBits n (Nat.log2 n) * 2 ^ (Nat.log2 n + 126) ∧
      frac (ofNat n) % 2 = roundBits n (Nat.log2 n) % 2 := by
  obtain ⟨hb1, hb2⟩ := roundBits_bounds h0
  have hk : Nat.log2 n < 64 := (Nat.log2_lt h0).mpr hn
  rw [ofNat, if_neg h0]
  generalize roundBits n (Nat.log2 n) = r at hb1 hb2
  generalize Nat.log2 n = k at hk
  rcases Nat.lt_or_eq_of_le hb2 with hlt | rfl
  · obtain ⟨he, hf, hs⟩ := fields_of_normal (e := 127 + k) (f := r - 2 ^ 23) (by omega) (by omega)
    rw [finite, magnitude, significand, he, hf, hs, if_neg (by omega),
      show 2 ^ 23 + (r - 2 ^ 23) = r by omega, show 127 + k - 1 = k + 126 by omega]
    refine ⟨decide_eq_true (by omega), rfl, rfl, by omega⟩
  · obtain ⟨he, hf, hs⟩ := fields_of_normal (e := 128 + k) (f := 0) (by omega) (by omega)
    have hcarry : (127 + k) * 2 ^ 23 + (2 ^ 24 - 2 ^ 23) = (128 + k) * 2 ^ 23 + 0 := by omega
    rw [hcarry, finite, magnitude, significand, he, hf, hs, if_neg (by omega),
      show 128 + k - 1 = (k + 126) + 1 by omega, Nat.pow_succ']
    refine ⟨decide_eq_true (by omega), rfl, by omega, rfl⟩

theorem ofNat_isNat_of_exact {n : ℕ} (hn : n < 2 ^ 64)
    (h : n ≠ 0 → Nat.log2 n ≤ 23 ∨ 2 ^ (Nat.log2 n - 23) ∣ n) : IsNat (ofNat n) n := by
  rw [isNat_iff]
  by_cases h0 : n = 0
  · subst h0
    decide
  · obtain ⟨hf, hs, hm, -⟩ := ofNat_rounded h0 hn
    refine ⟨hf, ?_, fun h => absurd (hs ▸ h) (by decide)⟩
    rw [hm, Nat.pow_add, ← Nat.mul_assoc, roundBits_exact (h h0), Nat.mul_assoc, ← Nat.pow_add]

theorem ofNat_isNat {b : UInt32} {n : ℕ} (h : IsNat b n) (hn : n < 2 ^ 64) : IsNat (ofNat n) n := by
  obtain ⟨_, hm, _⟩ := (isNat_iff b n).mp h
  exact ofNat_isNat_of_exact hn (representable hm)

def IsInt (b : UInt32) (z : ℤ) : Prop := finite b = true ∧ toRat b = z

theorem IsInt.magnitude {b : UInt32} {z : ℤ} (h : IsInt b z) : magnitude b = z.natAbs * 2 ^ 149 := by
  have habs := abs_toRat b
  rw [h.2, eq_div_iff (by norm_num), ← Int.cast_abs, ← Int.natCast_natAbs] at habs
  exact_mod_cast habs.symm

theorem isInt_pattern_iff {b : UInt32} {z : ℤ} (hb : (b.toNat : ℤ) = z % 2 ^ 32) (hz : z.natAbs ≤ 2 ^ 24) :
    IsInt b z ↔ z = 0 := by
  constructor
  · intro h
    have hm := h.magnitude
    have hfin : expo b < 255 := of_decide_eq_true h.1
    have hs := significand_lt b
    rcases lt_trichotomy z 0 with hneg | hzero | hpos
    · have hexp : expo b = 254 := by
        unfold expo at hfin ⊢
        omega
      have hlow : 2 ^ 23 ≤ significand b := by
        rw [significand, hexp, if_neg (by norm_num)]
        exact Nat.le_add_right _ _
      rw [Binary32.magnitude, hexp, show 254 - 1 = 104 + 149 from rfl, Nat.pow_add, ← Nat.mul_assoc] at hm
      have heq : significand b * 2 ^ 104 = z.natAbs := Nat.eq_of_mul_eq_mul_right (by positivity) hm
      omega
    · exact hzero
    · have hexp : expo b ≤ 2 := by
        unfold expo
        omega
      have hle : 2 ^ (expo b - 1) ≤ 2 ^ 1 := Nat.pow_le_pow_right (by norm_num) (by omega)
      have hlt : Binary32.magnitude b < 1 * 2 ^ 149 :=
        calc significand b * 2 ^ (expo b - 1) ≤ 2 ^ 24 * 2 ^ 1 := Nat.mul_le_mul hs.le hle
          _ < 1 * 2 ^ 149 := by norm_num
      rw [hm] at hlt
      have := Nat.lt_of_mul_lt_mul_right hlt
      omega
  · rintro rfl
    obtain rfl : b = 0 := UInt32.toNat_inj.mp (by rw [UInt32.toNat_zero]; omega)
    exact ⟨rfl, by simp [toRat, show Binary32.magnitude 0 = 0 from rfl]⟩

theorem ofUInt64_toUInt64 {b : UInt32} {n : ℕ} (overflow : UInt64) (h : IsNat b n) (hn : n < 2 ^ 64) :
    IsNat (ofUInt64 (toUInt64 overflow b)) n := by
  rw [toUInt64_isNat overflow h hn, ofUInt64, UInt64.toNat_ofNat', Nat.mod_eq_of_lt hn]
  exact ofNat_isNat h hn

end Binary32
