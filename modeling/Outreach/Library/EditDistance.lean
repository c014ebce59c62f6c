import Mathlib.Data.List.Basic

/-!
# Levenshtein distance

The distance is computed row by row: `editRow x prev` is the row of `x :: a` when
`prev` is the row of `a`. What the rest needs of it is that it changes by one at
most when one of the lists changes by one symbol, and that erasing a class of
symbols from both lists never takes them apart.
-/

namespace Outreach.Library

set_option autoImplicit false

section EditDistance

variable {α : Type*} [DecidableEq α]

def editRow (x : α) (prev : List α → Nat) : List α → Nat
  | [] => prev [] + 1
  | y :: b => min (min (prev (y :: b) + 1) (editRow x prev b + 1))
      (prev b + if x = y then 0 else 1)

def levenshtein : List α → List α → Nat
  | [] => List.length
  | x :: a => editRow x (levenshtein a)

@[simp] theorem levenshtein_nil_left (b : List α) : levenshtein [] b = b.length := rfl

@[simp] theorem levenshtein_nil_right (a : List α) : levenshtein a [] = a.length := by
  induction a with
  | nil => rfl
  | cons x a ih => exact congrArg (· + 1) ih

theorem levenshtein_cons_cons (x y : α) (a b : List α) :
    levenshtein (x :: a) (y :: b) =
      min (min (levenshtein a (y :: b) + 1) (levenshtein (x :: a) b + 1))
        (levenshtein a b + if x = y then 0 else 1) := rfl

/-- A symbol more on the left costs one at most. -/
theorem levenshtein_cons_left_le (x : α) (a b : List α) :
    levenshtein (x :: a) b ≤ levenshtein a b + 1 := by
  cases b with
  | nil => simp
  | cons y b =>
    rw [levenshtein_cons_cons]
    omega

theorem levenshtein_cons_right_le (y : α) (a b : List α) :
    levenshtein a (y :: b) ≤ levenshtein a b + 1 := by
  cases a with
  | nil => simp
  | cons x a =>
    rw [levenshtein_cons_cons]
    omega

/-- A symbol less on the left costs one at most. -/
theorem levenshtein_le_cons_left (x : α) (a b : List α) :
    levenshtein a b ≤ levenshtein (x :: a) b + 1 := by
  induction b with
  | nil =>
    simp only [levenshtein_nil_right, List.length_cons]
    omega
  | cons y b ih =>
    have hright := levenshtein_cons_right_le y a b
    rw [levenshtein_cons_cons]
    split <;> omega

theorem levenshtein_le_cons_right (y : α) (a b : List α) :
    levenshtein a b ≤ levenshtein a (y :: b) + 1 := by
  induction a with
  | nil =>
    simp only [levenshtein_nil_left, List.length_cons]
    omega
  | cons x a ih =>
    have hleft := levenshtein_cons_left_le x a b
    rw [levenshtein_cons_cons]
    split <;> omega

/-- Equal first symbols are matched with each other. -/
@[simp] theorem levenshtein_cons_self (x : α) (a b : List α) :
    levenshtein (x :: a) (x :: b) = levenshtein a b := by
  have hleft := levenshtein_le_cons_left x a b
  have hright := levenshtein_le_cons_right x a b
  rw [levenshtein_cons_cons, if_pos rfl]
  omega

theorem levenshtein_cons_ne {x y : α} (h : x ≠ y) (a b : List α) :
    levenshtein (x :: a) (y :: b) =
      min (min (levenshtein a (y :: b)) (levenshtein (x :: a) b)) (levenshtein a b) + 1 := by
  rw [levenshtein_cons_cons, if_neg h]
  omega

theorem levenshtein_eq_zero {a b : List α} : levenshtein a b = 0 ↔ a = b := by
  induction a generalizing b with
  | nil => simp [eq_comm]
  | cons x a ih =>
    cases b with
    | nil => simp
    | cons y b =>
      by_cases hxy : x = y
      · subst hxy
        rw [levenshtein_cons_self, ih, List.cons.injEq, and_iff_right rfl]
      · simp [levenshtein_cons_ne hxy, hxy]

theorem levenshtein_self (a : List α) : levenshtein a a = 0 := levenshtein_eq_zero.mpr rfl

theorem levenshtein_comm (a b : List α) : levenshtein a b = levenshtein b a := by
  induction a generalizing b with
  | nil => simp
  | cons x a iha =>
    induction b with
    | nil => simp
    | cons y b ihb =>
      by_cases hxy : x = y
      · subst hxy
        rw [levenshtein_cons_self, levenshtein_cons_self, iha]
      · rw [levenshtein_cons_ne hxy, levenshtein_cons_ne (Ne.symm hxy), iha, ihb, iha]
        omega

theorem length_le_levenshtein (a b : List α) : a.length ≤ b.length + levenshtein a b := by
  induction a generalizing b with
  | nil => simp
  | cons x a ih =>
    induction b with
    | nil => simp
    | cons y b ihb =>
      have hboth := ih b
      have hleft := ih (y :: b)
      rw [levenshtein_cons_cons]
      simp only [List.length_cons] at hleft ihb ⊢
      split <;> omega

/-- Where the first symbols differ, one edit is the replacement, the deletion or the
insertion of the first symbol. -/
theorem levenshtein_cons_ne_le_one {x y : α} (h : x ≠ y) {a b : List α} :
    levenshtein (x :: a) (y :: b) ≤ 1 ↔ a = y :: b ∨ x :: a = b ∨ a = b := by
  rw [levenshtein_cons_ne h, ← levenshtein_eq_zero, ← levenshtein_eq_zero,
    ← levenshtein_eq_zero (a := a) (b := b)]
  omega

theorem levenshtein_map {β : Type*} [DecidableEq β] {f : α → β} (hf : Function.Injective f)
    (a b : List α) : levenshtein (a.map f) (b.map f) = levenshtein a b := by
  induction a generalizing b with
  | nil => exact List.length_map f
  | cons x a iha =>
    induction b with
    | nil => simp
    | cons y b ihb =>
      rw [List.map_cons] at ihb
      rw [List.map_cons, List.map_cons, levenshtein_cons_cons, levenshtein_cons_cons,
        ← List.map_cons, iha, ihb, iha]
      simp only [hf.eq_iff]

/-- Erasing a class of symbols from both lists takes them no further apart. -/
theorem levenshtein_filter_le (p : α → Bool) (a b : List α) :
    levenshtein (a.filter p) (b.filter p) ≤ levenshtein a b := by
  induction a generalizing b with
  | nil => exact List.length_filter_le p b
  | cons x a iha =>
    induction b with
    | nil =>
      rw [List.filter_nil, levenshtein_nil_right, levenshtein_nil_right]
      exact List.length_filter_le p (x :: a)
    | cons y b ihb =>
      by_cases hxy : x = y
      · subst hxy
        rw [levenshtein_cons_self]
        cases hp : p x with
        | true => simpa [List.filter_cons, hp] using iha b
        | false => simpa [List.filter_cons, hp] using iha b
      · have hleft := iha (y :: b)
        have hboth := iha b
        -- the erased lists are one symbol away at most from their tails
        have hx : ∀ c, levenshtein ((x :: a).filter p) c ≤ levenshtein (a.filter p) c + 1 := by
          intro c
          rw [List.filter_cons]
          split
          · exact levenshtein_cons_left_le x _ c
          · exact Nat.le_succ _
        have hy : ∀ c, levenshtein c ((y :: b).filter p) ≤ levenshtein c (b.filter p) + 1 := by
          intro c
          rw [List.filter_cons]
          split
          · exact levenshtein_cons_right_le y c _
          · exact Nat.le_succ _
        have hreplace : levenshtein ((x :: a).filter p) ((y :: b).filter p) ≤
            levenshtein (a.filter p) (b.filter p) + 1 := by
          cases hpx : p x with
          | false =>
            rw [List.filter_cons_of_neg (by simp [hpx])]
            exact hy _
          | true =>
            cases hpy : p y with
            | false =>
              rw [List.filter_cons_of_neg (a := y) (by simp [hpy])]
              exact hx _
            | true =>
              rw [List.filter_cons_of_pos hpx, List.filter_cons_of_pos hpy,
                levenshtein_cons_ne hxy]
              omega
        have hfirst := hx ((y :: b).filter p)
        have hsecond := hy ((x :: a).filter p)
        rw [levenshtein_cons_ne hxy]
        omega

end EditDistance

end Outreach.Library
