import Mathlib.Algebra.Order.Floor.Ring
import Mathlib.Data.Int.Log
import Mathlib.Data.Rat.Floor
import Mathlib.Tactic.FieldSimp
import Mathlib.Tactic.Linarith
import Mathlib.Tactic.NormNum
import Mathlib.Tactic.Ring

/-!
# Double precision numbers

The value of a `float` is a rational, and an operation rounds its exact result to
53 binary digits, halfway to the even one. Infinities and subnormal numbers are
left out: nothing here is near either of them.
-/

namespace Outreach.Library.Binary64

set_option autoImplicit false

/-- The nearest integer, the even one of two. -/
def halfEven (q : ℚ) : ℤ :=
  if q - ⌊q⌋ < 1 / 2 then ⌊q⌋
  else if q - ⌊q⌋ = 1 / 2 ∧ ⌊q⌋ % 2 = 0 then ⌊q⌋
  else ⌊q⌋ + 1

/-- The last of the 53 places. -/
def place (q : ℚ) : ℚ := 2 ^ (Int.log 2 |q| - 52)

def round (q : ℚ) : ℚ := halfEven (q / place q) * place q

/-! ## Integers -/

theorem halfEven_intCast (n : ℤ) : halfEven n = n := by
  simp [halfEven]

theorem halfEven_floor (q : ℚ) : halfEven q = ⌊q⌋ ∨ halfEven q = ⌊q⌋ + 1 := by
  unfold halfEven
  split
  · exact Or.inl rfl
  · split
    · exact Or.inl rfl
    · exact Or.inr rfl

/-- When the number is rounded down. -/
theorem halfEven_eq_floor {q : ℚ} :
    halfEven q = ⌊q⌋ ↔ q - ⌊q⌋ < 1 / 2 ∨ (q - ⌊q⌋ = 1 / 2 ∧ ⌊q⌋ % 2 = 0) := by
  unfold halfEven
  split
  · rename_i hless
    exact iff_of_true rfl (Or.inl hless)
  · rename_i hless
    rw [or_iff_right hless]
    split
    · rename_i htie
      exact iff_of_true rfl htie
    · rename_i htie
      exact iff_of_false (by omega) htie

theorem halfEven_mono {x y : ℚ} (h : x ≤ y) : halfEven x ≤ halfEven y := by
  have hfloor : ⌊x⌋ ≤ ⌊y⌋ := Int.floor_mono h
  rcases eq_or_lt_of_le hfloor with hsame | hless
  · rcases halfEven_floor y with hy | hy
    · have hx : halfEven x = ⌊x⌋ := by
        rw [halfEven_eq_floor, hsame]
        have hle : x - ⌊y⌋ ≤ y - ⌊y⌋ := sub_le_sub_right h _
        rcases halfEven_eq_floor.mp hy with hdown | ⟨htie, heven⟩
        · exact Or.inl (hle.trans_lt hdown)
        · rcases eq_or_lt_of_le (hle.trans_eq htie) with hx | hx
          · exact Or.inr ⟨hx, heven⟩
          · exact Or.inl hx
      rw [hx, hy, hsame]
    · rcases halfEven_floor x with hx | hx <;> omega
  · rcases halfEven_floor x with hx | hx <;> rcases halfEven_floor y with hy | hy <;> omega

/-! ## Rounding -/

theorem place_pos (q : ℚ) : 0 < place q := zpow_pos (by norm_num) _

theorem round_zero : round 0 = 0 := by
  have h : halfEven 0 = 0 := halfEven_intCast 0
  simp [round, h]

theorem lt_place {q : ℚ} : |q| < 2 ^ (53 : ℕ) * place q := by
  have hlog : |q| < (2 : ℚ) ^ (Int.log 2 |q| + 1) := by
    exact_mod_cast Int.lt_zpow_succ_log_self (by norm_num) |q|
  have hplaces : (2 : ℚ) ^ (Int.log 2 |q| + 1) = 2 ^ (53 : ℕ) * place q := by
    rw [place, ← zpow_natCast, ← zpow_add₀ (by norm_num)]
    congr 1
    push_cast
    ring
  rwa [hplaces] at hlog

theorem place_le {q : ℚ} (h : q ≠ 0) : 2 ^ (52 : ℕ) * place q ≤ |q| := by
  have hlog : (2 : ℚ) ^ Int.log 2 |q| ≤ |q| := by
    exact_mod_cast Int.zpow_log_le_self (b := 2) (by norm_num) (abs_pos.mpr h)
  have hplaces : (2 : ℚ) ^ Int.log 2 |q| = 2 ^ (52 : ℕ) * place q := by
    rw [place, ← zpow_natCast, ← zpow_add₀ (by norm_num)]
    congr 1
    push_cast
    ring
  rwa [hplaces] at hlog

theorem round_of_eq_mul {q : ℚ} {m : ℤ} (h : q = m * place q) : round q = q := by
  have hquotient : q / place q = m := (div_eq_iff (place_pos q).ne').mpr h
  rw [round, hquotient, halfEven_intCast]
  exact h.symm

/-- The last place is no coarser than the unit of `k`, unless `k` has one digit too many. -/
theorem place_mul_zpow {k e p : ℤ} (h : |k| ≤ 2 ^ 53) (hk : k ≠ 0)
    (hp : place (k * 2 ^ e) = 2 ^ p) : p ≤ e ∨ (p = e + 1 ∧ |k| = 2 ^ 53) := by
  have hpos : (0 : ℚ) < 2 ^ e := zpow_pos (by norm_num) e
  have hne : (k : ℚ) * 2 ^ e ≠ 0 := mul_ne_zero (Int.cast_ne_zero.mpr hk) hpos.ne'
  have hle : (2 : ℚ) ^ (52 + p) ≤ |(k : ℚ)| * 2 ^ e := by
    have hplace := place_le hne
    rw [hp, abs_mul, abs_of_pos hpos] at hplace
    rw [zpow_add₀ (by norm_num)]
    exact_mod_cast hplace
  have habs : |(k : ℚ)| ≤ 2 ^ (53 : ℤ) := by exact_mod_cast h
  have hpow : (2 : ℚ) ^ (52 + p) ≤ 2 ^ (53 + e) := by
    rw [zpow_add₀ (by norm_num) 53 e]
    exact hle.trans (mul_le_mul_of_nonneg_right habs hpos.le)
  have hexp := (zpow_le_zpow_iff_right₀ (by norm_num : (1 : ℚ) < 2)).mp hpow
  rcases le_or_gt p e with hfine | hcoarse
  · exact Or.inl hfine
  · obtain rfl : p = e + 1 := by omega
    refine Or.inr ⟨rfl, le_antisymm h ?_⟩
    have hsum : (52 : ℤ) + (e + 1) = 53 + e := by ring
    rw [hsum, zpow_add₀ (by norm_num)] at hle
    exact_mod_cast le_of_mul_le_mul_right hle hpos

/-- A number with at most 53 digits is not changed. -/
theorem round_mul_zpow {k e : ℤ} (h : |k| ≤ 2 ^ 53) : round (k * 2 ^ e) = k * 2 ^ e := by
  rcases eq_or_ne k 0 with rfl | hk
  · rw [Int.cast_zero, zero_mul, round_zero]
  obtain ⟨p, hp⟩ : ∃ p : ℤ, place (k * 2 ^ e) = 2 ^ p := ⟨_, rfl⟩
  rcases place_mul_zpow h hk hp with hfine | ⟨rfl, hfull⟩
  · obtain ⟨n, rfl⟩ := Int.le.dest hfine
    refine round_of_eq_mul (m := k * 2 ^ n) ?_
    rw [hp, zpow_add₀ (by norm_num), zpow_natCast]
    push_cast
    ring
  · obtain ⟨m, rfl⟩ : ∃ m, k = 2 * m := by
      rcases abs_eq_abs.mp (hfull.trans (abs_of_pos (by norm_num)).symm) with hk | hk
      · exact ⟨2 ^ 52, hk⟩
      · exact ⟨-2 ^ 52, hk⟩
    refine round_of_eq_mul (m := m) ?_
    rw [hp, zpow_add_one₀ (by norm_num)]
    push_cast
    ring

theorem round_intCast {n : ℤ} (h : |n| ≤ 2 ^ 53) : round n = n := by
  have hone : (n : ℚ) * 2 ^ (0 : ℤ) = n := by rw [zpow_zero, mul_one]
  rw [← hone]
  exact round_mul_zpow h

/-- Rounding moves no number past an integer number of its places. -/
theorem abs_halfEven_le (q : ℚ) : |halfEven (q / place q)| ≤ 2 ^ 53 := by
  have hplace : |q / place q| < 2 ^ (53 : ℕ) := by
    rw [abs_div, abs_of_pos (place_pos q), div_lt_iff₀ (place_pos q)]
    exact lt_place
  obtain ⟨hlow, hhigh⟩ := abs_lt.mp hplace
  have hfull : halfEven ((2 ^ 53 : ℤ) : ℚ) = 2 ^ 53 := halfEven_intCast _
  have hnegative : halfEven ((-2 ^ 53 : ℤ) : ℚ) = -2 ^ 53 := halfEven_intCast _
  refine abs_le.mpr ⟨?_, ?_⟩
  · rw [← hnegative]
    refine halfEven_mono ?_
    exact_mod_cast hlow.le
  · rw [← hfull]
    refine halfEven_mono ?_
    exact_mod_cast hhigh.le

theorem round_round (q : ℚ) : round (round q) = round q :=
  round_mul_zpow (abs_halfEven_le q)

theorem round_nonneg {q : ℚ} (h : 0 ≤ q) : 0 ≤ round q := by
  have hzero : halfEven 0 = 0 := halfEven_intCast 0
  have hhalf : 0 ≤ halfEven (q / place q) := by
    rw [← hzero]
    exact halfEven_mono (div_nonneg h (place_pos q).le)
  exact mul_nonneg (by exact_mod_cast hhalf) (place_pos q).le

/-- Nothing that is not zero is rounded to zero. -/
theorem round_pos {q : ℚ} (h : 0 < q) : 0 < round q := by
  have hfull : halfEven ((2 ^ 52 : ℤ) : ℚ) = 2 ^ 52 := halfEven_intCast _
  have hhalf : 2 ^ 52 ≤ halfEven (q / place q) := by
    rw [← hfull]
    refine halfEven_mono ?_
    rw [le_div_iff₀ (place_pos q)]
    have hplace := place_le h.ne'
    rw [abs_of_pos h] at hplace
    exact_mod_cast hplace
  have hpos : 0 < halfEven (q / place q) := lt_of_lt_of_le (by norm_num) hhalf
  exact mul_pos (by exact_mod_cast hpos) (place_pos q)

/-- Rounding keeps the order; between two binades their common bound is in between. -/
theorem round_mono {x y : ℚ} (hx : 0 ≤ x) (h : x ≤ y) : round x ≤ round y := by
  rcases eq_or_lt_of_le hx with rfl | hpos
  · rw [round_zero]
    exact round_nonneg h
  have hlog : Int.log 2 |x| ≤ Int.log 2 |y| := by
    rw [abs_of_pos hpos, abs_of_pos (hpos.trans_le h)]
    exact Int.log_mono_right hpos h
  rcases eq_or_lt_of_le hlog with hsame | hless
  · have hplace : place x = place y := by rw [place, place, hsame]
    rw [round, round, hplace]
    refine mul_le_mul_of_nonneg_right ?_ (place_pos y).le
    exact_mod_cast halfEven_mono (div_le_div_of_nonneg_right h (place_pos y).le)
  · have hlow : round x ≤ 2 ^ (53 : ℕ) * place x := by
      refine mul_le_mul_of_nonneg_right ?_ (place_pos x).le
      exact_mod_cast (abs_le.mp (abs_halfEven_le x)).2
    have hbinade : (2 : ℚ) ^ (53 : ℕ) * place x ≤ 2 ^ (52 : ℕ) * place y := by
      rw [place, place, ← zpow_natCast, ← zpow_natCast, ← zpow_add₀ (by norm_num),
        ← zpow_add₀ (by norm_num)]
      refine zpow_le_zpow_right₀ (by norm_num) ?_
      push_cast
      omega
    have hfull : halfEven ((2 ^ 52 : ℤ) : ℚ) = 2 ^ 52 := halfEven_intCast _
    have hhigh : 2 ^ (52 : ℕ) * place y ≤ round y := by
      refine mul_le_mul_of_nonneg_right ?_ (place_pos y).le
      have hy := place_le (hpos.trans_le h).ne'
      rw [abs_of_pos (hpos.trans_le h)] at hy
      have hhalf : halfEven ((2 ^ 52 : ℤ) : ℚ) ≤ halfEven (y / place y) := by
        refine halfEven_mono ?_
        rw [le_div_iff₀ (place_pos y)]
        exact_mod_cast hy
      rw [hfull] at hhalf
      exact_mod_cast hhalf
    exact hlow.trans (hbinade.trans hhigh)

end Outreach.Library.Binary64
