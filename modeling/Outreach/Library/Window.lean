import Mathlib.Data.List.Basic
import Mathlib.Algebra.Order.Group.Int
import Mathlib.Order.Basic

/-!
# Sliding windows over a list of times

A limiter that looks back one width before each event bounds every window of
that width, wherever the window starts.
-/

namespace Outreach.Library

set_option autoImplicit false

/-- How many of the times are not before `since`. -/
def countSince (ts : List Int) (since : Int) : Nat := ts.countP fun t => decide (since ≤ t)

/-- How many of the times are in the closed window. -/
def countWithin (ts : List Int) (a b : Int) : Nat :=
  ts.countP fun t => decide (a ≤ t) && decide (t ≤ b)

variable {ts us : List Int} {width : Int} {limit : Nat}

theorem countSince_append (since : Int) :
    countSince (ts ++ us) since = countSince ts since + countSince us since := List.countP_append

theorem countSince_le_length (since : Int) : countSince ts since ≤ ts.length :=
  List.countP_le_length

theorem countSince_eq_zero {since : Int} (h : ∀ t ∈ ts, t < since) : countSince ts since = 0 :=
  List.countP_eq_zero.mpr fun t ht hs => absurd (of_decide_eq_true hs) (Int.not_le.mpr (h t ht))

theorem countSince_anti {since since' : Int} (h : since ≤ since') :
    countSince ts since' ≤ countSince ts since :=
  List.countP_mono_left fun _ _ hs => decide_eq_true (h.trans (of_decide_eq_true hs))

theorem countWithin_le_countSince (a b : Int) : countWithin ts a b ≤ countSince ts a :=
  List.countP_mono_left fun _ _ h => (Bool.and_eq_true_iff.mp h).1

/-- The windows stay within the limit when the width before a new event leaves room for it. -/
theorem countWithin_snoc_le (hts : ∀ a, countWithin ts a (a + width) ≤ limit) {t : Int}
    (ht : countSince ts (t - width) < limit) (a : Int) :
    countWithin (ts ++ [t]) a (a + width) ≤ limit := by
  have hsplit : countWithin (ts ++ [t]) a (a + width) =
      countWithin ts a (a + width) + countWithin [t] a (a + width) := List.countP_append
  by_cases hin : a ≤ t ∧ t ≤ a + width
  · have hone : countWithin [t] a (a + width) ≤ 1 := List.countP_le_length
    have hback : countWithin ts a (a + width) ≤ countSince ts (t - width) :=
      (countWithin_le_countSince _ _).trans (countSince_anti (by omega))
    omega
  · have hnone : countWithin [t] a (a + width) = 0 := by
      refine List.countP_eq_zero.mpr fun x hx hs => hin ?_
      obtain rfl := List.mem_singleton.mp hx
      simpa using hs
    have := hts a
    omega

end Outreach.Library
