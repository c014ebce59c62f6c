import Outreach.Guardrails.Port
import Outreach.Library.CodePoints
import Outreach.Library.EditDistance

/-!
# The edit-distance tests, index by index

`within_edit_distance_1` of `guardrails/text.py` and `withinEditDistance1` of
`OutreachGuardrails.cls` with the indices their loops use, over strings with
lone surrogates too. `none` is an index outside a string: an `IndexError` there,
a `StringException` here.
-/

namespace Outreach.Guardrails

open Outreach.Library

set_option autoImplicit false

section Scan

variable {α : Type} [DecidableEq α]

/-- The loop over the common prefix, from the index `i` on. -/
def scanFrom (a b : List α) (i : Nat) : Option Nat :=
  if i < a.length then
    match a[i]?, b[i]? with
    | some x, some y => if x = y then scanFrom a b (i + 1) else some i
    | _, _ => none
  else some i
termination_by a.length - i

/-- The loop that counts the places at which the two differ. -/
def countFrom (a b : List α) (i found : Nat) : Option Nat :=
  if i < a.length then
    match a[i]?, b[i]? with
    | some x, some y => countFrom a b (i + 1) (if x = y then found else found + 1)
    | _, _ => none
  else some found
termination_by a.length - i

/-- `s.substring(i)`; a slice in Python raises nothing, and is held to the same bound here. -/
def substringFrom (s : List α) (i : Nat) : Option (List α) :=
  if i ≤ s.length then some (s.drop i) else none

/-- The end of the test, for `a` the shorter string; `same` compares the two rests. -/
def scanRest (same : List α → List α → Bool) (a b : List α) : Option Bool := do
  let i ← scanFrom a b 0
  let s ← substringFrom a i
  let t ← substringFrom b (i + 1)
  return same s t

def Reference.scanEditDistance1 (a b : List α) : Option Bool :=
  if a = b then some true
  else if a.length + 1 < b.length ∨ b.length + 1 < a.length then some false
  else if a.length = b.length then some (((a.zip b).filter fun p => p.1 != p.2).length == 1)
  else
    let (a, b) := if b.length < a.length then (b, a) else (a, b)
    scanRest (fun s t => decide (s = t)) a b

def Port.scanEditDistance1 (a b : Port.ApexString) : Option Bool :=
  if Port.sameText a b then some true
  else if a.length + 1 < b.length ∨ b.length + 1 < a.length then some false
  else if a.length = b.length then (countFrom a b 0 0).map fun found => found == 1
  else
    let (a, b) := if b.length < a.length then (b, a) else (a, b)
    scanRest Port.sameText a b

/-- The number of places at which two texts of one length differ. -/
def diffs (a b : List α) : Nat := ((a.zip b).filter fun p => p.1 != p.2).length

/-- Both tests without their indices. -/
def oneEdit (same : List α → List α → Bool) (a b : List α) : Bool :=
  if same a b then true
  else if a.length + 1 < b.length ∨ b.length + 1 < a.length then false
  else if a.length = b.length then diffs a b == 1
  else
    let (a, b) := if b.length < a.length then (b, a) else (a, b)
    same (a.drop (Reference.commonPrefix a b)) (b.drop (Reference.commonPrefix a b + 1))

theorem Reference.withinEditDistance1_eq (a b : Text) :
    Reference.withinEditDistance1 a b = oneEdit (fun s t => decide (s = t)) a b := by
  simp only [Reference.withinEditDistance1, oneEdit, decide_eq_true_eq]
  rfl

theorem Port.withinEditDistance1_eq (a b : Port.ApexString) :
    Port.withinEditDistance1 a b = oneEdit Port.sameText a b := rfl

/-! ## The indices stay inside -/

theorem diffs_cons (x y : α) (a b : List α) :
    diffs (x :: a) (y :: b) = diffs a b + if x = y then 0 else 1 := by
  rw [diffs, List.zip_cons_cons, List.filter_cons]
  by_cases h : x = y
  · simp [h, diffs]
  · simp [h, diffs]

theorem commonPrefix_le (a b : List α) : Reference.commonPrefix a b ≤ a.length := by
  induction a generalizing b with
  | nil => exact Nat.le_refl _
  | cons x a ih =>
    cases b with
    | nil => exact Nat.zero_le _
    | cons y b =>
      have htail := ih b
      rw [Reference.commonPrefix, List.length_cons]
      split <;> omega

theorem drop_cons_of_lt {β : Type} {a : List β} {i : Nat} (hi : i < a.length) :
    ∃ x, a[i]? = some x ∧ a.drop i = x :: a.drop (i + 1) :=
  ⟨a[i], List.getElem?_eq_getElem hi, List.drop_eq_getElem_cons hi⟩

/-- The scan stops at the end of the common prefix, inside both strings. -/
theorem scanFrom_eq {a b : List α} (h : a.length ≤ b.length) (i : Nat) (hi : i ≤ a.length) :
    scanFrom a b i = some (i + Reference.commonPrefix (a.drop i) (b.drop i)) := by
  induction i using (measure fun i => a.length - i).wf.induction with
  | _ i ih =>
    rw [scanFrom]
    by_cases hlt : i < a.length
    · obtain ⟨x, hx, hxs⟩ := drop_cons_of_lt hlt
      obtain ⟨y, hy, hys⟩ := drop_cons_of_lt (Nat.lt_of_lt_of_le hlt h)
      have hnext : a.length - (i + 1) < a.length - i := by omega
      rw [if_pos hlt, hx, hy, hxs, hys, Reference.commonPrefix]
      by_cases hxy : x = y
      · simp only [hxy, if_true]
        rw [ih (i + 1) hnext hlt]
        exact congrArg some (by omega)
      · simp only [hxy, if_false, Nat.add_zero]
    · have hend : a.drop i = [] := List.drop_eq_nil_of_le (Nat.le_of_not_lt hlt)
      rw [if_neg hlt, hend, Reference.commonPrefix, Nat.add_zero]

theorem countFrom_eq {a b : List α} (h : a.length ≤ b.length) (i found : Nat)
    (hi : i ≤ a.length) :
    countFrom a b i found = some (found + diffs (a.drop i) (b.drop i)) := by
  induction i using (measure fun i => a.length - i).wf.induction generalizing found with
  | _ i ih =>
    rw [countFrom]
    by_cases hlt : i < a.length
    · obtain ⟨x, hx, hxs⟩ := drop_cons_of_lt hlt
      obtain ⟨y, hy, hys⟩ := drop_cons_of_lt (Nat.lt_of_lt_of_le hlt h)
      have hnext : a.length - (i + 1) < a.length - i := by omega
      rw [if_pos hlt, hx, hy, hxs, hys, diffs_cons]
      simp only
      rw [ih (i + 1) hnext _ hlt]
      refine congrArg some ?_
      split <;> omega
    · have hend : a.drop i = [] := List.drop_eq_nil_of_le (Nat.le_of_not_lt hlt)
      rw [if_neg hlt, hend]
      rfl

theorem scanRest_eq (same : List α → List α → Bool) {a b : List α}
    (h : b.length = a.length + 1) :
    scanRest same a b = some (same (a.drop (Reference.commonPrefix a b))
      (b.drop (Reference.commonPrefix a b + 1))) := by
  have hle := commonPrefix_le a b
  have hscan : scanFrom a b 0 = some (Reference.commonPrefix a b) := by
    simpa using scanFrom_eq (a := a) (b := b) (by omega) 0 (Nat.zero_le _)
  have hleft : substringFrom a (Reference.commonPrefix a b) =
      some (a.drop (Reference.commonPrefix a b)) := if_pos hle
  have hright : substringFrom b (Reference.commonPrefix a b + 1) =
      some (b.drop (Reference.commonPrefix a b + 1)) := if_pos (by omega)
  rw [scanRest, hscan]
  simp only [Option.bind_eq_bind, Option.bind_some, hleft, hright]
  rfl


theorem Reference.scanEditDistance1_eq (a b : List α) :
    Reference.scanEditDistance1 a b = some (oneEdit (fun s t => decide (s = t)) a b) := by
  simp only [Reference.scanEditDistance1, oneEdit, decide_eq_true_eq]
  split_ifs with heq hfar hlen hswap
  · rfl
  · rfl
  · rfl
  · exact scanRest_eq _ (show a.length = b.length + 1 by omega)
  · exact scanRest_eq _ (show b.length = a.length + 1 by omega)

/-! ## One edit -/

theorem diffs_eq_zero {a b : List α} (h : a.length = b.length) : diffs a b = 0 ↔ a = b := by
  induction a generalizing b with
  | nil =>
    cases b with
    | nil => simp [diffs]
    | cons y b => exact nomatch h
  | cons x a ih =>
    cases b with
    | nil => exact nomatch h
    | cons y b =>
      rw [diffs_cons, Nat.add_eq_zero_iff, ih (Nat.succ.inj h), List.cons.injEq, and_comm]
      refine and_congr_left fun _ => ?_
      split <;> simp_all

theorem levenshtein_le_one_of_length_eq {a b : List α} (h : a.length = b.length) :
    levenshtein a b ≤ 1 ↔ diffs a b ≤ 1 := by
  induction a generalizing b with
  | nil =>
    cases b with
    | nil => simp [diffs]
    | cons y b => exact absurd h.symm (Nat.succ_ne_zero _)
  | cons x a ih =>
    cases b with
    | nil => exact absurd h (Nat.succ_ne_zero _)
    | cons y b =>
      have hlen : a.length = b.length := Nat.succ.inj h
      rw [diffs_cons]
      by_cases hxy : x = y
      · subst hxy
        rw [levenshtein_cons_self, ih hlen, if_pos rfl, Nat.add_zero]
      · have hleft : a ≠ y :: b := fun he => by simp [he] at hlen
        have hright : x :: a ≠ b := fun he => by simp [← he] at hlen
        rw [levenshtein_cons_ne_le_one hxy, if_neg hxy, or_iff_right hleft, or_iff_right hright,
          ← diffs_eq_zero hlen]
        omega

/-- With one symbol more on the right, one edit is the insertion of the symbol after the
common prefix. -/
theorem levenshtein_le_one_of_length_succ {a b : List α} (h : b.length = a.length + 1) :
    levenshtein a b ≤ 1 ↔
      a.drop (Reference.commonPrefix a b) = b.drop (Reference.commonPrefix a b + 1) := by
  induction a generalizing b with
  | nil =>
    cases b with
    | nil => exact absurd h.symm (Nat.succ_ne_zero _)
    | cons y b =>
      have hnil : b = [] := List.length_eq_zero_iff.mp (Nat.succ.inj h)
      simp [hnil, Reference.commonPrefix]
  | cons x a ih =>
    cases b with
    | nil => exact absurd h.symm (Nat.succ_ne_zero _)
    | cons y b =>
      have hlen : b.length = a.length + 1 := Nat.succ.inj h
      by_cases hxy : x = y
      · subst hxy
        rw [levenshtein_cons_self, ih hlen, Reference.commonPrefix, if_pos rfl, List.drop_succ_cons,
          List.drop_succ_cons]
      · have hleft : a ≠ y :: b := by
          rintro rfl
          rw [List.length_cons] at hlen
          omega
        have hboth : a ≠ b := fun he => by simp [he] at hlen
        rw [levenshtein_cons_ne_le_one hxy, Reference.commonPrefix, if_neg hxy, or_iff_right hleft,
          or_iff_left hboth]
        rfl

/-- `b` is `a` with one symbol more; `same` compares what follows the symbol. -/
def Inserted (same : List α → List α → Prop) (a b : List α) : Prop :=
  ∃ u c v w, a = u ++ v ∧ b = u ++ c :: w ∧ same v w

section Inserted

variable {same : List α → List α → Prop} (hlen : ∀ {v w}, same v w → v.length = w.length)
  (htail : ∀ {x y v w}, same (x :: v) (y :: w) → same v w)

include hlen

omit [DecidableEq α] in
theorem Inserted.length {a b : List α} (h : Inserted same a b) : b.length = a.length + 1 := by
  obtain ⟨u, c, v, w, rfl, rfl, hsame⟩ := h
  simp [hlen hsame, Nat.add_assoc]

omit hlen

include htail

/-- The symbol may as well be the one after the common prefix. -/
theorem inserted_iff {a b : List α} (h : b.length = a.length + 1) :
    Inserted same a b ↔ same (a.drop (Reference.commonPrefix a b))
      (b.drop (Reference.commonPrefix a b + 1)) := by
  induction a generalizing b with
  | nil =>
    obtain ⟨y, rfl⟩ := List.length_eq_one_iff.mp h
    constructor
    · rintro ⟨u, c, v, w, ha, hb, hsame⟩
      obtain ⟨rfl, rfl⟩ := List.append_eq_nil_iff.mp ha.symm
      obtain ⟨rfl, rfl⟩ := List.cons.inj hb
      exact hsame
    · exact fun hsame => ⟨[], y, [], [], rfl, rfl, hsame⟩
  | cons x a ih =>
    cases b with
    | nil => exact absurd h.symm (Nat.succ_ne_zero _)
    | cons y b =>
      have hb : b.length = a.length + 1 := Nat.succ.inj h
      by_cases hxy : x = y
      · subst hxy
        rw [Reference.commonPrefix, if_pos rfl, List.drop_succ_cons, List.drop_succ_cons, ← ih hb]
        constructor
        · rintro ⟨u, c, v, w, ha, hw, hsame⟩
          cases u with
          | nil =>
            -- the symbol moves past `x`, and past the symbol after it
            obtain ⟨rfl, rfl⟩ := List.cons.inj hw
            subst ha
            cases b with
            | nil => exact absurd hb.symm (Nat.succ_ne_zero _)
            | cons z b => exact ⟨[], z, a, b, rfl, rfl, htail hsame⟩
          | cons z u =>
            exact ⟨u, c, v, w, (List.cons.inj ha).2, (List.cons.inj hw).2, hsame⟩
        · rintro ⟨u, c, v, w, rfl, rfl, hsame⟩
          exact ⟨x :: u, c, v, w, rfl, rfl, hsame⟩
      · rw [Reference.commonPrefix, if_neg hxy]
        constructor
        · rintro ⟨u, c, v, w, ha, hw, hsame⟩
          cases u with
          | nil =>
            obtain ⟨rfl, rfl⟩ := List.cons.inj hw
            subst ha
            exact hsame
          | cons z u =>
            exact absurd ((List.cons.inj ha).1.trans (List.cons.inj hw).1.symm) hxy
        · exact fun hsame => ⟨[], y, x :: a, b, rfl, rfl, hsame⟩

end Inserted

omit [DecidableEq α] in
theorem Inserted.length_eq {a b : List α} (h : Inserted Eq a b) : b.length = a.length + 1 :=
  Inserted.length (fun hvw => congrArg List.length hvw) h

/-- One edit is a replacement, an insertion or a deletion, anywhere. -/
theorem levenshtein_le_one_iff (a b : List α) :
    levenshtein a b ≤ 1 ↔
      (a.length = b.length ∧ diffs a b ≤ 1) ∨ Inserted Eq a b ∨ Inserted Eq b a := by
  have hab := length_le_levenshtein a b
  have hba := length_le_levenshtein b a
  rw [levenshtein_comm] at hba
  have hone : ∀ s t : List α, t.length = s.length + 1 →
      (levenshtein s t ≤ 1 ↔ Inserted Eq s t) := fun s t h =>
    (levenshtein_le_one_of_length_succ h).trans
      (inserted_iff (fun hxy => (List.cons.inj hxy).2) h).symm
  by_cases heq : a.length = b.length
  · have hright : ¬ Inserted Eq a b := fun h => by have := h.length_eq; omega
    have hleft : ¬ Inserted Eq b a := fun h => by have := h.length_eq; omega
    rw [levenshtein_le_one_of_length_eq heq]
    simp only [heq, hright, hleft, true_and, or_false]
  rw [or_iff_right fun h => heq h.1]
  by_cases hright : b.length = a.length + 1
  · have hleft : ¬ Inserted Eq b a := fun h => by have := h.length_eq; omega
    rw [or_iff_left hleft, hone a b hright]
  have hnot : ¬ Inserted Eq a b := fun h => hright h.length_eq
  rw [or_iff_right hnot]
  by_cases hleft : a.length = b.length + 1
  · rw [levenshtein_comm, hone b a hleft]
  · refine iff_of_false (fun h => ?_) fun h => hleft h.length_eq
    omega

/-- What the greedy scan finds is there whichever way it looks. -/
theorem oneEdit_iff {same : List α → List α → Bool}
    (hlen : ∀ {v w}, same v w = true → v.length = w.length)
    (htail : ∀ {x y v w}, same (x :: v) (y :: w) = true → same v w = true) (a b : List α) :
    oneEdit same a b = true ↔
      same a b = true ∨ (a.length = b.length ∧ diffs a b = 1) ∨
        Inserted (fun v w => same v w = true) a b ∨ Inserted (fun v w => same v w = true) b a := by
  have hnone : ∀ {s t : List α}, t.length ≠ s.length + 1 →
      ¬ Inserted (fun v w => same v w = true) s t := fun h hins => h (Inserted.length hlen hins)
  have hrest : ∀ {s t : List α}, t.length = s.length + 1 →
      (Inserted (fun v w => same v w = true) s t ↔
        same (s.drop (Reference.commonPrefix s t)) (t.drop (Reference.commonPrefix s t + 1)) =
          true) := inserted_iff htail
  unfold oneEdit
  split_ifs with hsame hfar heq hswap
  · simp [hsame]
  · have hne : a.length ≠ b.length := by omega
    have hright := hnone (s := a) (t := b) (by omega)
    have hleft := hnone (s := b) (t := a) (by omega)
    simp [hsame, hne, hright, hleft]
  · have hright := hnone (s := a) (t := b) (by omega)
    have hleft := hnone (s := b) (t := a) (by omega)
    simp [hsame, heq, hright, hleft]
  · rw [or_iff_right hsame, or_iff_right fun h => heq h.1,
      or_iff_right (hnone (by omega)), hrest (by omega)]
  · rw [or_iff_right hsame, or_iff_right fun h => heq h.1,
      or_iff_left (hnone (by omega)), hrest (by omega)]

theorem oneEdit_eq_iff (a b : List α) :
    oneEdit (fun s t => decide (s = t)) a b = true ↔ levenshtein a b ≤ 1 := by
  rw [levenshtein_le_one_iff, oneEdit_iff (fun h => congrArg List.length (of_decide_eq_true h))
    fun h => decide_eq_true (List.cons.inj (of_decide_eq_true h)).2]
  simp only [decide_eq_true_eq]
  rw [← or_assoc]
  refine or_congr_left ?_
  constructor
  · rintro (rfl | ⟨hlen, hone⟩)
    · have hzero : diffs a a = 0 := (diffs_eq_zero rfl).mpr rfl
      exact ⟨rfl, by omega⟩
    · exact ⟨hlen, Nat.le_of_eq hone⟩
  · rintro ⟨hlen, hle⟩
    rw [← diffs_eq_zero hlen]
    omega

end Scan

/-- The test without a matrix is the Levenshtein distance. -/
theorem withinEditDistance1_iff (a b : Text) :
    Reference.withinEditDistance1 a b = true ↔ levenshtein a b ≤ 1 := by
  rw [Reference.withinEditDistance1_eq, oneEdit_eq_iff]

/-! ## The port on ASCII text -/

namespace Port

theorem scanEditDistance1_eq (a b : ApexString) :
    scanEditDistance1 a b = some (withinEditDistance1 a b) := by
  have hcount : a.length = b.length → countFrom a b 0 0 = some (diffs a b) := fun h => by
    simpa using countFrom_eq (Nat.le_of_eq h) 0 0 (Nat.zero_le _)
  rw [withinEditDistance1_eq]
  unfold scanEditDistance1 oneEdit
  split_ifs with hsame hfar heq hswap
  · rfl
  · rfl
  · rw [hcount heq]
    rfl
  · exact scanRest_eq _ (show a.length = b.length + 1 by omega)
  · exact scanRest_eq _ (show b.length = a.length + 1 by omega)

theorem sameText_iff {a b : ApexString} :
    sameText a b = true ↔ a.map lowerUnit = b.map lowerUnit := decide_eq_true_iff

theorem sameText_length {a b : ApexString} (h : sameText a b = true) : a.length = b.length := by
  simpa using congrArg List.length (sameText_iff.mp h)

/-- No difference of case hides a second edit. -/
structure CaseHidesNothing (a b : ApexString) : Prop where
  whole : sameText a b = true → diffs a b ≤ 1
  right : Inserted (fun v w => sameText v w = true) a b → Inserted Eq a b
  left : Inserted (fun v w => sameText v w = true) b a → Inserted Eq b a

theorem inserted_sameText {a b : ApexString} (h : Inserted Eq a b) :
    Inserted (fun v w => sameText v w = true) a b := by
  obtain ⟨u, c, v, w, ha, hb, rfl⟩ := h
  exact ⟨u, c, v, v, ha, hb, sameText_iff.mpr rfl⟩

/-- The port takes strings that `==` takes for equal for the same string. -/
theorem withinEditDistance1_iff_levenshtein (a b : ApexString) :
    withinEditDistance1 a b = decide (levenshtein a b ≤ 1) ↔ CaseHidesNothing a b := by
  have hport := oneEdit_iff sameText_length
    (fun h => sameText_iff.mpr (List.cons.inj (sameText_iff.mp h)).2) a b
  rw [← withinEditDistance1_eq] at hport
  rw [Bool.eq_iff_iff, decide_eq_true_iff, hport, levenshtein_le_one_iff]
  have hlen : ∀ {s t : ApexString}, Inserted (fun v w => sameText v w = true) s t →
      t.length = s.length + 1 := Inserted.length sameText_length
  constructor
  · intro h
    refine ⟨fun hsame => ?_, fun hins => ?_, fun hins => ?_⟩
    · have heq := sameText_length hsame
      rcases h.mp (Or.inl hsame) with hone | hins | hins
      · exact hone.2
      · have := hins.length_eq
        omega
      · have := hins.length_eq
        omega
    · have hlonger := hlen hins
      rcases h.mp (Or.inr (Or.inr (Or.inl hins))) with hone | hfound | hfound
      · have := hone.1
        omega
      · exact hfound
      · have := hfound.length_eq
        omega
    · have hlonger := hlen hins
      rcases h.mp (Or.inr (Or.inr (Or.inr hins))) with hone | hfound | hfound
      · have := hone.1
        omega
      · have := hfound.length_eq
        omega
      · exact hfound
  · rintro ⟨whole, right, left⟩
    constructor
    · rintro (hsame | ⟨heq, hone⟩ | hins | hins)
      · exact Or.inl ⟨sameText_length hsame, whole hsame⟩
      · exact Or.inl ⟨heq, Nat.le_of_eq hone⟩
      · exact Or.inr (Or.inl (right hins))
      · exact Or.inr (Or.inr (left hins))
    · rintro (⟨heq, hone⟩ | hins | hins)
      · by_cases hzero : diffs a b = 0
        · obtain rfl := (diffs_eq_zero heq).mp hzero
          exact Or.inl (sameText_iff.mpr rfl)
        · exact Or.inr (Or.inl ⟨heq, by omega⟩)
      · exact Or.inr (Or.inr (Or.inl (inserted_sameText hins)))
      · exact Or.inr (Or.inr (Or.inr (inserted_sameText hins)))

/-- A text without capital letters hides nothing. -/
theorem CaseHidesNothing.of_lower {a b : ApexString} (ha : a.map lowerUnit = a)
    (hb : b.map lowerUnit = b) : CaseHidesNothing a b := by
  have hsame : ∀ {v w : ApexString}, v.map lowerUnit = v → w.map lowerUnit = w →
      sameText v w = true → v = w := fun hv hw h => by rw [← hv, ← hw, sameText_iff.mp h]
  have hins : ∀ {s t : ApexString}, s.map lowerUnit = s → t.map lowerUnit = t →
      Inserted (fun v w => sameText v w = true) s t → Inserted Eq s t := by
    rintro s t hs ht ⟨u, c, v, w, rfl, rfl, h⟩
    simp only [List.map_append, List.map_cons] at hs ht
    obtain ⟨-, hv⟩ := List.append_inj hs (List.length_map _)
    obtain ⟨-, hw⟩ := List.append_inj ht (List.length_map _)
    exact ⟨u, c, v, w, rfl, rfl, hsame hv (List.cons.inj hw).2 h⟩
  refine ⟨fun h => ?_, hins ha hb, hins hb ha⟩
  obtain rfl := hsame ha hb h
  have hzero : diffs a a = 0 := (diffs_eq_zero rfl).mpr rfl
  omega

end Port

def AsciiStr (s : Str) : Prop := ∀ c ∈ s, c.toNat < 128

/-- The code units of an ASCII string. -/
def asciiUnits (s : Str) : Port.ApexString := s.map CodePoint.toNat

/-- Both tests for any two strings: no index leaves a string, the reference answers whether one
edit leads from one to the other, either way round, and the port answers the same on ASCII strings
just where no difference of case hides a second edit. -/
theorem scanEditDistance1_exact (a b : Str) :
    (∃ answer, Reference.scanEditDistance1 a b = some answer ∧
      (answer = true ↔ levenshtein a b ≤ 1)) ∧
    Reference.scanEditDistance1 b a = Reference.scanEditDistance1 a b ∧
    (∃ answer, Port.scanEditDistance1 (asciiUnits a) (asciiUnits b) = some answer) ∧
    (AsciiStr a → AsciiStr b →
      (Port.scanEditDistance1 (asciiUnits a) (asciiUnits b) =
          Reference.scanEditDistance1 a b ↔
        Port.CaseHidesNothing (asciiUnits a) (asciiUnits b))) := by
  have href : ∀ s t : Str, Reference.scanEditDistance1 s t =
      some (decide (levenshtein s t ≤ 1)) := fun s t => by
    rw [Reference.scanEditDistance1_eq, Option.some_inj, Bool.eq_iff_iff, oneEdit_eq_iff,
      decide_eq_true_iff]
  refine ⟨⟨_, href a b, decide_eq_true_iff⟩, ?_, ⟨_, Port.scanEditDistance1_eq _ _⟩, ?_⟩
  · rw [href, href, levenshtein_comm]
  · intro _ _
    have hcodes : levenshtein (asciiUnits a) (asciiUnits b) = levenshtein a b :=
      levenshtein_map (fun _ _ => CodePoint.toNat_injective) a b
    rw [href, Port.scanEditDistance1_eq, Option.some_inj, ← hcodes,
      Port.withinEditDistance1_iff_levenshtein]

/-- `STOP` and `stop` differ in four places; `==` says that they are equal. -/
theorem scanEditDistance1_case :
    ¬ ∀ a b : Str, AsciiStr a → AsciiStr b →
      Port.scanEditDistance1 (asciiUnits a) (asciiUnits b) =
        Reference.scanEditDistance1 a b := by
  intro h
  have hascii : ∀ s : Str, s.all (fun c => decide (c.toNat < 128)) = true → AsciiStr s :=
    fun s hs c hc => of_decide_eq_true (List.all_eq_true.mp hs c hc)
  have hsame := h (Str.ofString "STOP") (Str.ofString "stop") (hascii _ (by decide))
    (hascii _ (by decide))
  rw [Reference.scanEditDistance1_eq, Port.scanEditDistance1_eq] at hsame
  exact absurd hsame (by decide)

end Outreach.Guardrails
