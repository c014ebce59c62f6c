import Outreach.Library.Words

/-!
# Normalization around a character that composes with nothing

Such a character cuts a text in two that are normalized apart. What a normalized
text holds comes from a decomposition, or is a composite. Case folding works
character by character, so it keeps the places of a character that only it folds
to.
-/

namespace Outreach.Library

set_option autoImplicit false

namespace UnicodeData

variable (U : UnicodeData)

/-! ## What normalization can bring in -/

theorem mem_insertMark {c d : Char} {marks : Text} :
    d ∈ U.insertMark c marks ↔ d = c ∨ d ∈ marks := by
  induction marks with
  | nil => exact List.mem_singleton.trans (or_iff_left List.not_mem_nil).symm
  | cons m ms ih =>
    rw [insertMark]
    split
    · exact List.mem_cons
    · rw [List.mem_cons, List.mem_cons, ih]
      exact or_left_comm

theorem mem_reorder {d : Char} {marks s : Text} :
    d ∈ U.reorder marks s ↔ d ∈ marks ∨ d ∈ s := by
  induction s generalizing marks with
  | nil => exact (or_iff_left List.not_mem_nil).symm
  | cons c cs ih =>
    rw [reorder]
    split
    · rw [List.mem_append, List.mem_cons, List.mem_cons, ih, or_iff_right List.not_mem_nil]
    · rw [ih, mem_insertMark, List.mem_cons]
      tauto

section Composites

variable {P : Char → Prop} (hcomposite : ∀ a b d, U.compose a b = some d → P d)
include hcomposite

theorem forall_composeFrom {s : Char} {marks cs : Text} (hs : P s) (hmarks : ∀ m ∈ marks, P m)
    (hcs : ∀ c ∈ cs, P c) : ∀ c ∈ U.composeFrom s marks cs, P c := by
  induction cs generalizing s marks with
  | nil => exact List.forall_mem_cons.mpr ⟨hs, hmarks⟩
  | cons c cs ih =>
    obtain ⟨hc, hcs⟩ := List.forall_mem_cons.mp hcs
    rw [composeFrom]
    split
    · rename_i d hd
      have hd : U.compose s c = some d := by
        split at hd
        · cases hd
        · exact hd
      exact ih (hcomposite s c d hd) hmarks hcs
    · split
      · apply List.forall_mem_cons.mpr ⟨hs, _⟩
        exact List.forall_mem_append.mpr ⟨hmarks, ih hc (List.forall_mem_nil _) hcs⟩
      · exact ih hs (List.forall_mem_append.mpr ⟨hmarks, List.forall_mem_singleton.mpr hc⟩) hcs

theorem forall_composeAll {s : Text} (hs : ∀ c ∈ s, P c) : ∀ c ∈ U.composeAll s, P c := by
  induction s with
  | nil => exact hs
  | cons c cs ih =>
    obtain ⟨hc, hcs⟩ := List.forall_mem_cons.mp hs
    rw [composeAll]
    split
    · exact U.forall_composeFrom hcomposite hc (List.forall_mem_nil _) hcs
    · exact List.forall_mem_cons.mpr ⟨hc, ih hcs⟩

/-- A property of all composites holds of a normalized text if it holds of the decomposed one. -/
theorem forall_nfkc {s : Text} (hs : ∀ c ∈ s, ∀ d ∈ U.decomp c, P d) : ∀ c ∈ U.nfkc s, P c := by
  apply U.forall_composeAll hcomposite
  intro d hd
  rw [mem_reorder, or_iff_right List.not_mem_nil] at hd
  obtain ⟨c, hc, hd⟩ := List.mem_flatMap.mp hd
  exact hs c hc d hd

end Composites

/-! ## Cutting a text in two -/

/-- A starter that takes part in no composite. -/
structure Inert (a : Char) : Prop where
  decomp : U.decomp a = [a]
  ccc : U.ccc a = 0
  before : ∀ b, U.compose a b = none
  after : ∀ b, U.compose b a = none

variable {U} {a : Char} (ha : U.Inert a)
include ha

theorem reorder_append (marks s t : Text) :
    U.reorder marks (s ++ a :: t) = U.reorder marks s ++ a :: U.reorder [] t := by
  induction s generalizing marks with
  | nil => exact if_pos ha.ccc
  | cons c s ih =>
    rw [List.cons_append, reorder, reorder]
    split
    · rw [ih, List.append_assoc, List.cons_append]
    · exact ih _

/-- Nothing composes with the character, so what follows it is composed by itself. -/
theorem composeFrom_inert_left (marks t : Text) :
    U.composeFrom a marks t = a :: (marks ++ U.composeAll t) := by
  induction t generalizing marks with
  | nil => rw [composeFrom, composeAll, List.append_nil]
  | cons c t ih =>
    have hnone : (if U.blocked marks c then none else U.compose a c) = none := by
      rw [ha.before, ite_self]
    rw [composeFrom, hnone, composeAll]
    simp only
    split
    · rfl
    · rw [ih, List.append_assoc, List.singleton_append]

theorem composeFrom_append (s : Char) (marks cs t : Text) :
    U.composeFrom s marks (cs ++ a :: t) = U.composeFrom s marks cs ++ a :: U.composeAll t := by
  induction cs generalizing s marks with
  | nil =>
    have hnone : (if U.blocked marks a then none else U.compose s a) = none := by
      rw [ha.after, ite_self]
    simp only [List.nil_append, composeFrom, hnone, ha.ccc, if_true, composeFrom_inert_left ha,
      List.cons_append]
  | cons c cs ih =>
    rw [List.cons_append, composeFrom, composeFrom]
    split
    · exact ih _ _
    · split
      · rw [ih, List.cons_append, List.append_assoc]
      · exact ih _ _

theorem composeAll_append (s t : Text) :
    U.composeAll (s ++ a :: t) = U.composeAll s ++ a :: U.composeAll t := by
  induction s with
  | nil =>
    have hstart : U.composeAll (a :: t) = U.composeFrom a [] t := if_pos ha.ccc
    rw [List.nil_append, hstart, composeFrom_inert_left ha]
    rfl
  | cons c s ih =>
    rw [List.cons_append, composeAll, composeAll]
    split
    · exact composeFrom_append ha c [] s t
    · rw [ih, List.cons_append]

theorem nfkc_append (s t : Text) : U.nfkc (s ++ a :: t) = U.nfkc s ++ a :: U.nfkc t := by
  rw [nfkc, nfkc, nfkc, List.flatMap_append, List.flatMap_cons, ha.decomp, List.singleton_append,
    reorder_append ha, composeAll_append ha]

end UnicodeData

/-! ## Pieces of a text that is mapped character by character -/

section FlatMap

variable {α : Type*} [DecidableEq α]

theorem rpartition_append {sep : α} {s : List α} (hs : sep ∉ s) (t : List α) :
    rpartition sep (s ++ t) = (rpartition sep t).map fun p => (s ++ p.1, p.2) := by
  induction s with
  | nil => exact Option.map_id'.symm
  | cons c s ih =>
    rw [List.mem_cons, not_or] at hs
    rw [List.cons_append, rpartition, ih hs.2]
    cases rpartition sep t with
    | none => exact if_neg (Ne.symm hs.1)
    | some p => rfl

theorem rpartition_eq_none {sep : α} {s : List α} : rpartition sep s = none ↔ sep ∉ s := by
  induction s with
  | nil => exact iff_of_true rfl List.not_mem_nil
  | cons c s ih =>
    rw [rpartition, List.mem_cons, not_or, ← ih]
    cases rpartition sep s with
    | some p =>
      exact iff_of_false (Option.some_ne_none (c :: p.1, p.2)) (fun h => Option.some_ne_none p h.2)
    | none =>
      by_cases hc : c = sep
      · simp [hc]
      · simp [hc, Ne.symm hc]

/-- The text is cut at its last separator. -/
theorem rpartition_eq_some {sep : α} {s before after : List α} :
    rpartition sep s = some (before, after) ↔ s = before ++ sep :: after ∧ sep ∉ after := by
  constructor
  · intro h
    induction s generalizing before with
    | nil => exact nomatch h
    | cons c s ih =>
      rw [rpartition] at h
      split at h
      · rename_i hp
        cases h
        obtain ⟨rfl, hafter⟩ := ih hp
        exact ⟨rfl, hafter⟩
      · rename_i hp
        split at h
        · rename_i hc
          cases h
          exact ⟨congrArg (· :: _) hc, rpartition_eq_none.mp hp⟩
        · cases h
  · rintro ⟨rfl, hafter⟩
    induction before with
    | nil => rw [List.nil_append, rpartition, rpartition_eq_none.mpr hafter, if_pos rfl]
    | cons c before ih => rw [List.cons_append, rpartition, ih]

variable {f : α → List α} {sep : α} (hsep : f sep = [sep]) (honly : ∀ c, sep ∈ f c → sep = c)
include hsep honly

theorem rpartition_flatMap (s : List α) :
    rpartition sep (s.flatMap f) =
      (rpartition sep s).map fun p => (p.1.flatMap f, p.2.flatMap f) := by
  induction s with
  | nil => rfl
  | cons c s ih =>
    rw [List.flatMap_cons, rpartition]
    by_cases hc : c = sep
    · subst hc
      rw [hsep, List.singleton_append, rpartition, ih]
      cases rpartition c s with
      | none => simp
      | some p => simp [hsep]
    · rw [rpartition_append (fun h => hc (honly c h).symm), ih]
      cases rpartition sep s with
      | none => simp [hc]
      | some p => simp

theorem takeWhile_flatMap (s : List α) :
    (s.flatMap f).takeWhile (fun c => c != sep) = (s.takeWhile fun c => c != sep).flatMap f := by
  induction s with
  | nil => rfl
  | cons c s ih =>
    rw [List.flatMap_cons]
    by_cases hc : c = sep
    · subst hc
      rw [hsep, List.takeWhile_cons, List.singleton_append, List.takeWhile_cons]
      simp
    · have hpiece : ∀ d ∈ f c, (d != sep) = true := by
        intro d hd
        apply bne_iff_ne.mpr
        rintro rfl
        exact hc (honly c hd).symm
      rw [List.takeWhile_append_of_pos hpiece, ih, List.takeWhile_cons,
        if_pos (bne_iff_ne.mpr hc), List.flatMap_cons]

end FlatMap

end Outreach.Library
