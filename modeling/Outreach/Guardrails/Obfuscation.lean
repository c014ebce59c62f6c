import Outreach.Guardrails.Alphabet
import Mathlib.Logic.Relation

/-!
# Disguised bodies fold alike

An obfuscation recases letters, widens characters, swaps spaces and letters for
their lookalikes and inserts zero-width characters, in any number and order. All
of it stays in the alphabet, where the fold works one character at a time, so
each edit is undone on the spot.
-/

namespace Outreach.Guardrails

open Outreach.Library

set_option autoImplicit false

/-- Upper case of one character of the alphabet. -/
def upperChar (c : Char) : Char :=
  let n := c.toNat
  if (0x61 ≤ n ∧ n ≤ 0x7A) ∨ (0xFF41 ≤ n ∧ n ≤ 0xFF5A) ∨ (0x3B1 ≤ n ∧ n ≤ 0x3BF) ∨
      (0x430 ≤ n ∧ n ≤ 0x44F) then Char.ofNat (n - 0x20)
  else if 0x450 ≤ n ∧ n ≤ 0x45F then Char.ofNat (n - 0x50)
  else c

/-- `d` may stand for `c` in a disguised body. -/
inductive Disguise (c : Char) : Char → Prop
  | lower : Disguise c (lowerChar c)
  | upper : Disguise c (upperChar c)
  | fullwidth (h : 0x21 ≤ c.toNat ∧ c.toNat ≤ 0x7E) : Disguise c (Char.ofNat (c.toNat + 0xFEE0))
  | noBreakSpace (h : c = ' ') : Disguise c '\u00a0'
  | ideographicSpace (h : c = ' ') : Disguise c '\u3000'
  | confusable {d : Char} (h : (d, lowerChar (compat c)) ∈ Reference.confusables) : Disguise c d
  | confusableCapital {d : Char} (h : (d, lowerChar (compat c)) ∈ Reference.confusables) :
      Disguise c (upperChar d)

/-- One edit, at any place. -/
inductive Edit : Text → Text → Prop
  | replace (s t : Text) {c d : Char} (h : Disguise c d) : Edit (s ++ c :: t) (s ++ d :: t)
  | insert (s t : Text) {z : Char} (h : z ∈ Reference.zeroWidth) : Edit (s ++ t) (s ++ z :: t)

/-- Any number of edits. -/
def Obfuscates : Text → Text → Prop := Relation.ReflTransGen Edit

/-- The alphabet beyond ASCII and fullwidth ASCII. -/
def specials : List Char :=
  ['\u00a0', '\u3000'] ++ Reference.zeroWidth ++ Reference.confusables.map Prod.fst ++
    confusableCapitals

/-- Membership in the alphabet, by ranges. -/
def inAlphabet (c : Char) : Bool :=
  isAscii c || (0xFF01 ≤ c.toNat && c.toNat ≤ 0xFF5E) || specials.contains c

theorem mem_alphabet {c : Char} (h : inAlphabet c = true) : c ∈ alphabet := by
  rw [inAlphabet, Bool.or_eq_true, Bool.or_eq_true, Bool.and_eq_true, decide_eq_true_eq,
    decide_eq_true_eq, List.contains_iff_mem] at h
  simp only [alphabet, List.append_assoc, List.mem_append (s := (List.range 128).map Char.ofNat),
    List.mem_append (s := (List.range 94).map fun i => Char.ofNat (0xFF01 + i))]
  rcases h with (hascii | hwide) | hrest
  · have hlt : c.toNat < 128 := of_decide_eq_true hascii
    exact Or.inl (List.mem_map.mpr ⟨c.toNat, List.mem_range.mpr hlt, Char.ofNat_toNat c⟩)
  · refine Or.inr (Or.inl (List.mem_map.mpr ⟨c.toNat - 0xFF01, List.mem_range.mpr ?_, ?_⟩))
    · omega
    · rw [Nat.add_sub_cancel' hwide.1, Char.ofNat_toNat]
  · exact Or.inr (Or.inr (by simpa only [specials, List.append_assoc] using hrest))

theorem mem_alphabet_of_ascii {c : Char} (h : isAscii c = true) : c ∈ alphabet :=
  mem_alphabet (by rw [inAlphabet, h, Bool.true_or, Bool.true_or])

/-! ## One character -/

/-- `d` is in the alphabet and folds to what `c` folds to. -/
def foldsTo (c d : Char) : Bool := inAlphabet d && foldChar d = foldChar c

theorem foldsTo_spec {c d : Char} (h : foldsTo c d = true) :
    d ∈ alphabet ∧ foldChar d = foldChar c := by
  rw [foldsTo, Bool.and_eq_true, decide_eq_true_eq] at h
  exact ⟨mem_alphabet h.1, h.2⟩

theorem recased_spec : ∀ c ∈ alphabet, foldsTo c (lowerChar c) = true ∧ foldsTo c (upperChar c) = true :=
  List.all_iff_forall_prop.mp (by decide +kernel)

theorem fullwidth_spec : ∀ c ∈ alphabet, 0x21 ≤ c.toNat ∧ c.toNat ≤ 0x7E →
    foldsTo c (Char.ofNat (c.toNat + 0xFEE0)) = true :=
  List.all_iff_forall_prop.mp (by decide +kernel)

theorem space_spec : ∀ d ∈ ['\u00a0', '\u3000'], foldsTo ' ' d = true :=
  List.all_iff_forall_prop.mp (by decide +kernel)

/-- Each listed lookalike and its capital fold as its letter does, and the letter folds to
itself. -/
theorem confusable_spec : ∀ p ∈ Reference.confusables,
    (foldsTo p.2 p.1 = true ∧ foldsTo p.2 (upperChar p.1) = true) ∧ foldChar p.2 = some p.2 ∧
      Reference.confuse p.2 = p.2 ∧ Reference.zeroWidth.contains p.2 = false :=
  List.all_iff_forall_prop.mp (by decide +kernel)

theorem zeroWidth_spec : ∀ z ∈ Reference.zeroWidth, inAlphabet z = true ∧ foldChar z = none :=
  List.all_iff_forall_prop.mp (by decide +kernel)

theorem foldChar_of_confusable {c d : Char}
    (h : (d, lowerChar (compat c)) ∈ Reference.confusables) :
    foldChar c = foldChar (lowerChar (compat c)) := by
  obtain ⟨-, hletter, hconfuse, hwidth⟩ := confusable_spec _ h
  rw [hletter, foldChar]
  simp only [hconfuse, hwidth, Bool.false_eq_true, if_false]

theorem Disguise.spec {c d : Char} (h : Disguise c d) (hc : c ∈ alphabet) :
    d ∈ alphabet ∧ foldChar d = foldChar c := by
  cases h with
  | lower => exact foldsTo_spec (recased_spec c hc).1
  | upper => exact foldsTo_spec (recased_spec c hc).2
  | fullwidth hrange => exact foldsTo_spec (fullwidth_spec c hc hrange)
  | noBreakSpace hspace => exact hspace ▸ foldsTo_spec (space_spec _ (by decide))
  | ideographicSpace hspace => exact hspace ▸ foldsTo_spec (space_spec _ (by decide))
  | confusable hmem =>
    rw [foldChar_of_confusable hmem]
    exact foldsTo_spec (confusable_spec _ hmem).1.1
  | confusableCapital hmem =>
    rw [foldChar_of_confusable hmem]
    exact foldsTo_spec (confusable_spec _ hmem).1.2

/-! ## Whole bodies -/

/-- What every disguise of the body keeps. -/
def FoldsLike (body body' : Text) : Prop :=
  (∀ c ∈ body', c ∈ alphabet) ∧ body'.filterMap foldChar = body.filterMap foldChar

theorem Edit.foldsLike {body s t : Text} (h : Edit s t) (hs : FoldsLike body s) :
    FoldsLike body t := by
  obtain ⟨hmem, hfold⟩ := hs
  cases h with
  | replace s t hcd =>
    rename_i c d
    have hall := List.forall_mem_append.mp hmem
    obtain ⟨hc, ht⟩ := List.forall_mem_cons.mp hall.2
    obtain ⟨hd, hsame⟩ := hcd.spec hc
    refine ⟨List.forall_mem_append.mpr ⟨hall.1, List.forall_mem_cons.mpr ⟨hd, ht⟩⟩, ?_⟩
    rw [← hfold, List.filterMap_append, List.filterMap_append, List.filterMap_cons,
      List.filterMap_cons, hsame]
  | insert s t hz =>
    rename_i z
    have hall := List.forall_mem_append.mp hmem
    obtain ⟨hin, hnone⟩ := zeroWidth_spec z hz
    have hmemz := mem_alphabet hin
    refine ⟨List.forall_mem_append.mpr ⟨hall.1, List.forall_mem_cons.mpr ⟨hmemz, hall.2⟩⟩, ?_⟩
    rw [← hfold, List.filterMap_append, List.filterMap_append, List.filterMap_cons_none hnone]

theorem Obfuscates.foldsLike {body body' : Text} (h : Obfuscates body body')
    (hb : AsciiText body) : FoldsLike body body' := by
  induction h with
  | refl => exact ⟨fun c hc => mem_alphabet_of_ascii (hb c hc), rfl⟩
  | tail _ hedit ih => exact hedit.foldsLike ih

/-- No obfuscation of an ASCII body changes its fold, nor then what becomes of it. -/
theorem obfuscation_invariant (U : UnicodeData) (hU : Conforms U) (body body' : Text)
    (hb : AsciiText body) (h : Obfuscates body body') :
    Reference.fold U body' = Reference.fold U body ∧
      ∀ (thread : List Message) (channel : Text),
        Reference.evaluate U body' thread channel = Reference.evaluate U body thread channel := by
  have hlike := h.foldsLike hb
  have hfold : Reference.fold U body' = Reference.fold U body := by
    rw [fold_reference hU hlike.1, hlike.2,
      fold_reference hU fun c hc => mem_alphabet_of_ascii (hb c hc)]
  refine ⟨hfold, fun thread channel => ?_⟩
  simp only [Reference.evaluate, Reference.canonicalize, hfold]

/-- A stop with a fullwidth capital, a Cyrillic capital and a zero-width space in it. -/
theorem obfuscation_invariant_stop :
    Reference.fold alphabetTables ['Ｓ', 't', '\u200b', 'О', 'p'] =
        Reference.fold alphabetTables ['s', 't', 'o', 'p'] ∧
      ∀ (thread : List Message) (channel : Text),
        Reference.evaluate alphabetTables ['Ｓ', 't', '\u200b', 'О', 'p'] thread channel =
          Reference.evaluate alphabetTables ['s', 't', 'o', 'p'] thread channel := by
  have hascii : AsciiText ['s', 't', 'o', 'p'] := List.all_iff_forall_prop.mp (by decide)
  refine obfuscation_invariant alphabetTables alphabetTables_conforms _ _ hascii ?_
  have hcase : Edit ['s', 't', 'o', 'p'] ['S', 't', 'o', 'p'] := .replace [] _ .upper
  have hwide : Edit ['S', 't', 'o', 'p'] ['Ｓ', 't', 'o', 'p'] :=
    .replace [] _ (.fullwidth (by decide))
  have hcyrillic : Edit ['Ｓ', 't', 'o', 'p'] ['Ｓ', 't', 'О', 'p'] :=
    .replace ['Ｓ', 't'] ['p'] (.confusableCapital (d := 'о') (by decide))
  have hzero : Edit ['Ｓ', 't', 'О', 'p'] ['Ｓ', 't', '\u200b', 'О', 'p'] :=
    .insert ['Ｓ', 't'] ['О', 'p'] (by decide)
  exact .tail (.tail (.tail (.single hcase) hwide) hcyrillic) hzero

end Outreach.Guardrails
