import Outreach.Library.CodePoints
import Mathlib.Data.List.Dedup
import Mathlib.Data.List.Sort

/-!
# Sorted texts

Texts are compared number by number: code points in Python, UTF-16 code units
in Java. The sorted list of a set does not depend on the order the set is
walked in.
-/

namespace Outreach.Library

set_option autoImplicit false

/-- The lexicographic order. -/
def lexLe : List Nat → List Nat → Bool
  | [], _ => true
  | _ :: _, [] => false
  | x :: a, y :: b => if x = y then lexLe a b else decide (x < y)

theorem lexLe_cons_cons {x y : Nat} {a b : List Nat} :
    lexLe (x :: a) (y :: b) = true ↔ x < y ∨ x = y ∧ lexLe a b = true := by
  rw [lexLe]
  split
  · rename_i h
    simp [h]
  · rename_i h
    simp [h]

theorem lexLe_total (a b : List Nat) : lexLe a b = true ∨ lexLe b a = true := by
  induction a generalizing b with
  | nil => exact Or.inl rfl
  | cons x a ih =>
    cases b with
    | nil => exact Or.inr rfl
    | cons y b =>
      rw [lexLe_cons_cons, lexLe_cons_cons]
      have hab := ih b
      rcases Nat.lt_trichotomy x y with h | h | h
      · exact Or.inl (Or.inl h)
      · exact hab.imp (fun hle => Or.inr ⟨h, hle⟩) fun hle => Or.inr ⟨h.symm, hle⟩
      · exact Or.inr (Or.inl h)

theorem lexLe_trans {a b c : List Nat} (hab : lexLe a b = true) (hbc : lexLe b c = true) :
    lexLe a c = true := by
  induction a generalizing b c with
  | nil => rfl
  | cons x a ih =>
    cases b with
    | nil => exact absurd hab Bool.false_ne_true
    | cons y b =>
      cases c with
      | nil => exact absurd hbc Bool.false_ne_true
      | cons z c =>
        rw [lexLe_cons_cons] at hab hbc ⊢
        rcases hab with hxy | ⟨rfl, hab⟩
        · refine Or.inl ?_
          rcases hbc with hyz | ⟨rfl, -⟩ <;> omega
        · rcases hbc with hyz | ⟨rfl, hbc⟩
          · exact Or.inl hyz
          · exact Or.inr ⟨rfl, ih hab hbc⟩

theorem lexLe_antisymm {a b : List Nat} (hab : lexLe a b = true) (hba : lexLe b a = true) :
    a = b := by
  induction a generalizing b with
  | nil =>
    cases b with
    | nil => rfl
    | cons y b => exact absurd hba Bool.false_ne_true
  | cons x a ih =>
    cases b with
    | nil => exact absurd hab Bool.false_ne_true
    | cons y b =>
      rw [lexLe_cons_cons] at hab hba
      rcases hab with hxy | ⟨rfl, hab⟩
      · exfalso
        rcases hba with hyx | ⟨hyx, -⟩ <;> omega
      · rcases hba with hlt | ⟨-, hba⟩
        · exact absurd hlt (Nat.lt_irrefl x)
        · rw [ih hab hba]

/-! ## Sorting by a key -/

section SortOn

variable {α : Type*} (key : α → List Nat)

def sortOn (l : List α) : List α := l.insertionSort fun a b => lexLe (key a) (key b) = true

theorem sortOn_perm (l : List α) : (sortOn key l).Perm l := List.perm_insertionSort _ l

theorem pairwise_sortOn (l : List α) :
    (sortOn key l).Pairwise fun a b => lexLe (key a) (key b) = true := by
  have : Std.Total fun a b : α => lexLe (key a) (key b) = true :=
    ⟨fun a b => lexLe_total (key a) (key b)⟩
  have : IsTrans α fun a b => lexLe (key a) (key b) = true := ⟨fun _ _ _ => lexLe_trans⟩
  exact List.pairwise_insertionSort _ l

variable {key}

theorem sortOn_eq_of_perm (hkey : Function.Injective key) {l m : List α} (h : l.Perm m) :
    sortOn key l = sortOn key m :=
  List.Perm.eq_of_pairwise (fun _ _ _ _ hab hba => hkey (lexLe_antisymm hab hba))
    (pairwise_sortOn key l) (pairwise_sortOn key m)
    ((sortOn_perm key l).trans (h.trans (sortOn_perm key m).symm))

/-- Two lists hold the same elements just if their elements are sorted to the same list. -/
theorem sortOn_dedup_eq_iff [DecidableEq α] (hkey : Function.Injective key) {l m : List α} :
    sortOn key l.dedup = sortOn key m.dedup ↔ ∀ a, a ∈ l ↔ a ∈ m := by
  have hmem : ∀ (l : List α) a, a ∈ sortOn key l.dedup ↔ a ∈ l := fun l a =>
    (sortOn_perm key l.dedup).mem_iff.trans List.mem_dedup
  constructor
  · intro h a
    rw [← hmem l, h, hmem m]
  · intro h
    refine sortOn_eq_of_perm hkey ?_
    rw [List.perm_ext_iff_of_nodup (List.nodup_dedup l) (List.nodup_dedup m)]
    intro a
    rw [List.mem_dedup, List.mem_dedup, h]

end SortOn

/-! ## Two keys of a text -/

/-- The key of Python's order. -/
def Str.points (s : Str) : List Nat := s.map CodePoint.toNat

theorem Str.points_injective : Function.Injective Str.points :=
  List.map_injective_iff.mpr fun _ _ => CodePoint.toNat_injective

theorem utf16_append_inj {c d : Char} {s t : List Nat} (h : utf16 c ++ s = utf16 d ++ t) :
    c = d ∧ s = t := by
  have hc : c.toNat < 0xD800 ∨ 0xDFFF < c.toNat ∧ c.toNat < 0x110000 := c.valid
  have hd : d.toNat < 0xD800 ∨ 0xDFFF < d.toNat ∧ d.toNat < 0x110000 := d.valid
  simp only [utf16] at h
  split_ifs at h with hsmall hsmall' hsmall'
  · obtain ⟨hcd, hst⟩ := List.cons.inj h
    exact ⟨Char.toNat_inj.mp hcd, hst⟩
  · -- a unit alone is no surrogate
    have hunit := (List.cons.inj h).1
    omega
  · have hunit := (List.cons.inj h).1
    omega
  · obtain ⟨hhigh, hrest⟩ := List.cons.inj h
    obtain ⟨hlow, hst⟩ := List.cons.inj hrest
    exact ⟨Char.toNat_inj.mp (by omega), hst⟩

/-- The key of Java's order. -/
theorem utf16s_injective : Function.Injective utf16s := by
  intro s t h
  have hne : ∀ c : Char, utf16 c ≠ [] := fun c => by
    rw [utf16]
    split <;> exact List.cons_ne_nil _ _
  induction s generalizing t with
  | nil =>
    cases t with
    | nil => rfl
    | cons d t => exact absurd (List.append_eq_nil_iff.mp h.symm).1 (hne d)
  | cons c s ih =>
    cases t with
    | nil => exact absurd (List.append_eq_nil_iff.mp h).1 (hne c)
    | cons d t =>
      obtain ⟨rfl, hst⟩ := utf16_append_inj h
      rw [ih hst]

end Outreach.Library
