import Mathlib

/-!
# Opening hours

Time is counted in ticks, `hour` of them to the hour, from the midnight before a
Monday. The open ticks of an interval are those from Monday to Friday between two
hours of the day; the ones of a single date are an interval again.
-/

namespace Outreach.Library.Calendar

set_option autoImplicit false

section Count

variable (hour opens closes : ℤ)

def date (x : ℤ) : ℤ := x / (24 * hour)

/-- Monday to Friday, from the hour `opens` to the hour `closes`. -/
def Open (x : ℤ) : Prop :=
  date hour x % 7 < 5 ∧ opens * hour ≤ x % (24 * hour) ∧ x % (24 * hour) < closes * hour

instance (x : ℤ) : Decidable (Open hour opens closes x) := by
  unfold Open
  infer_instance

/-- The open ticks of an interval. -/
noncomputable def ticks (S E : ℤ) : ℕ := ((Finset.Ico S E).filter (Open hour opens closes)).card

/-- The open ticks of an interval on one date. -/
noncomputable def dayTicks (S E d : ℤ) : ℕ :=
  ((Finset.Ico S E).filter fun x => Open hour opens closes x ∧ date hour x = d).card

end Count

section Facts

variable {hour opens closes : ℤ}

theorem date_mono (hhour : 0 < hour) {x y : ℤ} (h : x ≤ y) : date hour x ≤ date hour y :=
  Int.ediv_le_ediv (by omega) h

theorem ticks_eq_sum (hhour : 0 < hour) (S E : ℤ) :
    ticks hour opens closes S E =
      ∑ d ∈ Finset.Icc (date hour S) (date hour E), dayTicks hour opens closes S E d := by
  have hdates : ∀ x ∈ (Finset.Ico S E).filter (Open hour opens closes),
      date hour x ∈ Finset.Icc (date hour S) (date hour E) := by
    intro x hx
    obtain ⟨hlow, hhigh⟩ := Finset.mem_Ico.mp (Finset.mem_filter.mp hx).1
    exact Finset.mem_Icc.mpr ⟨date_mono hhour hlow, date_mono hhour hhigh.le⟩
  rw [ticks, Finset.card_eq_sum_card_fiberwise hdates]
  refine Finset.sum_congr rfl fun d _ => ?_
  rw [Finset.filter_filter, dayTicks]

/-- Two intervals that meet. -/
theorem ticks_add {S M E : ℤ} (h : S ≤ M) (h' : M ≤ E) :
    ticks hour opens closes S M + ticks hour opens closes M E = ticks hour opens closes S E := by
  unfold ticks
  rw [← Finset.Ico_union_Ico_eq_Ico h h', Finset.filter_union, Finset.card_union_of_disjoint]
  exact Finset.disjoint_filter_filter (Finset.Ico_disjoint_Ico_consecutive S M E)

theorem ticks_eq_zero {S E : ℤ} (h : E ≤ S ∨ closes ≤ opens) (hhour : 0 < hour) :
    ticks hour opens closes S E = 0 := by
  rw [ticks, Finset.card_eq_zero, Finset.filter_eq_empty_iff]
  intro x hx hopen
  rcases h with h | h
  · rw [Finset.Ico_eq_empty (not_lt.mpr h)] at hx
    exact absurd hx (Finset.notMem_empty x)
  · have hhours : closes * hour ≤ opens * hour := mul_le_mul_of_nonneg_right h hhour.le
    exact absurd hopen.2.2 (not_lt.mpr (hhours.trans hopen.2.1))

theorem dayTicks_mono {S S' E E' : ℤ} (hS : S' ≤ S) (hE : E ≤ E') (d : ℤ) :
    dayTicks hour opens closes S E d ≤ dayTicks hour opens closes S' E' d := by
  refine Finset.card_le_card (Finset.filter_subset_filter _ ?_)
  exact Finset.Ico_subset_Ico hS hE

theorem dayTicks_le_ticks (S E d : ℤ) :
    dayTicks hour opens closes S E d ≤ ticks hour opens closes S E := by
  rw [dayTicks, ← Finset.filter_filter]
  exact Finset.card_filter_le _ _

theorem ticks_le (S E : ℤ) : ticks hour opens closes S E ≤ (E - S).toNat := by
  rw [← Int.card_Ico]
  exact Finset.card_filter_le _ _

theorem dayTicks_eq_zero (hhour : 0 < hour) {S E d : ℤ}
    (h : d < date hour S ∨ date hour E < d) : dayTicks hour opens closes S E d = 0 := by
  rw [dayTicks, Finset.card_eq_zero, Finset.filter_eq_empty_iff]
  intro x hx hopen
  obtain ⟨hlow, hhigh⟩ := Finset.mem_Ico.mp hx
  have hfirst := date_mono hhour hlow
  have hlast := date_mono hhour hhigh.le
  have hdate := hopen.2
  omega

theorem emod_of_date {x d : ℤ} (h : date hour x = d) :
    x % (24 * hour) = x - d * (24 * hour) := by
  rw [Int.emod_def, mul_comm d, ← h]
  rfl

/-- The open ticks of a weekday are those between its two hours. -/
theorem open_on_weekday (hhour : 0 < hour) (hopens : 0 ≤ opens) (hcloses : closes ≤ 24) {d : ℤ}
    (hd : d % 7 < 5) (x : ℤ) :
    Open hour opens closes x ∧ date hour x = d ↔
      d * (24 * hour) + opens * hour ≤ x ∧ x < d * (24 * hour) + closes * hour := by
  have hfrom : 0 ≤ opens * hour := mul_nonneg hopens hhour.le
  have huntil : closes * hour ≤ 24 * hour := mul_le_mul_of_nonneg_right hcloses hhour.le
  constructor
  · intro h
    obtain ⟨⟨-, hlow, hhigh⟩, hdate⟩ := h
    rw [emod_of_date hdate] at hlow hhigh
    omega
  · intro h
    have hdate : date hour x = d := (Int.ediv_eq_iff_of_pos (by omega)).mpr (by omega)
    refine ⟨⟨hdate ▸ hd, ?_, ?_⟩, hdate⟩
    · rw [emod_of_date hdate]
      omega
    · rw [emod_of_date hdate]
      omega

/-- The opening hours of a weekday, cut at both ends. -/
theorem dayTicks_weekday (hhour : 0 < hour) (hopens : 0 ≤ opens) (hcloses : closes ≤ 24)
    (S E : ℤ) {d : ℤ} (hd : d % 7 < 5) :
    dayTicks hour opens closes S E d =
      (min E (d * (24 * hour) + closes * hour) - max S (d * (24 * hour) + opens * hour)).toNat := by
  rw [← Int.card_Ico, dayTicks]
  congr 1
  ext x
  rw [Finset.mem_filter, open_on_weekday hhour hopens hcloses hd, Finset.mem_Ico, Finset.mem_Ico]
  omega

theorem dayTicks_weekend {S E d : ℤ} (hd : ¬ d % 7 < 5) : dayTicks hour opens closes S E d = 0 := by
  rw [dayTicks, Finset.card_eq_zero, Finset.filter_eq_empty_iff]
  intro x _ hopen
  exact hd (hopen.2 ▸ hopen.1.1)

theorem date_scale {k : ℤ} (hk : 0 < k) (x : ℤ) : date (k * hour) (k * x) = date hour x := by
  have hday : 24 * (k * hour) = k * (24 * hour) := by ring
  rw [date, hday, Int.mul_ediv_mul_of_pos _ _ hk, date]

/-- With `k` ticks for each one, `k` times as many are open. -/
theorem dayTicks_scale (hhour : 0 < hour) (hopens : 0 ≤ opens) (hcloses : closes ≤ 24) {k : ℤ}
    (hk : 0 < k) (S E d : ℤ) :
    (dayTicks (k * hour) opens closes (k * S) (k * E) d : ℤ) =
      k * dayTicks hour opens closes S E d := by
  by_cases hd : d % 7 < 5
  · rw [dayTicks_weekday (mul_pos hk hhour) hopens hcloses _ _ hd,
      dayTicks_weekday hhour hopens hcloses _ _ hd]
    have hclose : d * (24 * (k * hour)) + closes * (k * hour) =
        k * (d * (24 * hour) + closes * hour) := by ring
    have hopen : d * (24 * (k * hour)) + opens * (k * hour) =
        k * (d * (24 * hour) + opens * hour) := by ring
    rw [hclose, hopen, ← mul_min_of_nonneg _ _ hk.le, ← mul_max_of_nonneg _ _ hk.le, ← mul_sub,
      Int.toNat_eq_max, Int.toNat_eq_max, mul_max_of_nonneg _ _ hk.le, mul_zero]
  · rw [dayTicks_weekend hd, dayTicks_weekend hd, Nat.cast_zero, mul_zero]

end Facts

end Outreach.Library.Calendar
