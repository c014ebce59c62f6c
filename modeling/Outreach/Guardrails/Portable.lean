import Outreach.Guardrails.Alphabet

/-!
# How far the Apex opt-out control follows the reference

The Apex fold is a hand-picked subset of NFKC and case folding. It is compared
here with the reference one character at a time. A body is portable when NFKC
acts on it one character at a time and no character of it folds to different
words in the two languages. On a portable body whatever the reference suppresses
the port suppresses. A ligature is not portable.
-/

namespace Outreach.Guardrails

open Outreach.Library

set_option autoImplicit false

/-- What the reference suppresses, the port suppresses. -/
def MissesNothing (U : UnicodeData) (body : Text) : Prop :=
  ∀ (thread : List Message) (channel : Text), channel ∈ Reference.channels →
    ∀ r, Reference.evaluate U body thread channel = some r → r.action = .suppressAndStop →
      ∃ r', Port.evaluate U (some body) (some (Reference.autoReplyCount thread))
        (codes channel) = some r' ∧ r'.action = .suppressAndStop

/-- The two folds of one character agree once separators are collapsed. -/
def PortableChar (U : UnicodeData) (c : Char) : Prop :=
  collapse Port.isKeyUnit 32 (Port.fold U [c]) =
    codes (collapse Reference.isKeyChar ' ' (Reference.fold U [c]))

instance (U : UnicodeData) (c : Char) : Decidable (PortableChar U c) :=
  inferInstanceAs (Decidable (_ = _))

structure Portable (U : UnicodeData) (body : Text) : Prop where
  nfkc : U.nfkc body = body.flatMap fun c => U.nfkc [c]
  char : ∀ c ∈ body, PortableChar U c

section Fold

variable (U : UnicodeData)

theorem translate_flatMap (f : Char → Text) (s : Text) :
    Reference.translate (s.flatMap f) = s.flatMap fun c => Reference.translate (f c) := by
  simp only [Reference.translate, List.map_flatMap, List.filter_flatMap]

theorem reference_fold_flatMap {body : Text}
    (h : U.nfkc body = body.flatMap fun c => U.nfkc [c]) :
    Reference.fold U body = body.flatMap fun c => Reference.fold U [c] := by
  have hcase : U.casefold (body.flatMap fun c => U.nfkc [c]) =
      body.flatMap fun c => U.casefold (U.nfkc [c]) := List.flatMap_assoc
  rw [Reference.fold, h, hcase, translate_flatMap]
  rfl

/-- The lower case of a sigma depends on its neighbours, but neither sigma is a key unit. -/
theorem collapse_sigma (b : Bool) :
    collapse Port.isKeyUnit 32 ((utf16s [if b then 'ς' else 'σ']).filterMap Port.foldUnit) =
      [32] := by
  cases b <;> decide

theorem collapse_port_fold (before body : Text) :
    collapse Port.isKeyUnit 32 ((utf16s (U.lowerFrom before body)).filterMap Port.foldUnit) =
      collapse Port.isKeyUnit 32 (body.flatMap fun c => Port.fold U [c]) := by
  induction body generalizing before with
  | nil => rfl
  | cons c cs ih =>
    rw [UnicodeData.lowerFrom, utf16s, List.flatMap_append, List.filterMap_append,
      List.flatMap_cons]
    refine collapse_append_congr (by decide) ?_ (ih (c :: before))
    by_cases hc : c = 'Σ'
    · subst hc
      have hl : U.lower ['Σ'] = [if U.finalSigma [] [] then 'ς' else 'σ'] := rfl
      rw [if_pos rfl, Port.fold, hl]
      exact (collapse_sigma _).trans (collapse_sigma _).symm
    · have hl : U.lower [c] = U.lowerCase c := by
        rw [UnicodeData.lower, UnicodeData.lowerFrom, if_neg hc, UnicodeData.lowerFrom,
          List.append_nil]
      rw [if_neg hc, Port.fold, hl, utf16s]

/-- On a portable body the two canonical forms are the same words. -/
theorem Portable.canonicalize {body : Text} (hb : Portable U body) :
    Port.canonicalize (Port.fold U body) = codes (Reference.canonicalize U body) := by
  have hpieces : collapse Port.isKeyUnit 32 (body.flatMap fun c => Port.fold U [c]) =
      collapse Port.isKeyUnit 32 (body.flatMap fun c => codes (Reference.fold U [c])) := by
    refine collapse_flatMap_congr (by decide) fun c hc => (hb.char c hc).trans ?_
    exact (@collapse_map _ _ Reference.isKeyChar ' ' Char.toNat Port.isKeyUnit _
      fun _ _ => rfl).symm
  have hcodes : (body.flatMap fun c => codes (Reference.fold U [c])) =
      codes (Reference.fold U body) := by
    rw [reference_fold_flatMap U hb.nfkc, codes, List.map_flatMap]
  have hport := collapse_port_fold U [] body
  rw [hpieces, hcodes] at hport
  have hcanon := canonicalize_codes (Reference.fold U body)
  rw [Port.canonicalize] at hcanon ⊢
  rw [Port.fold, UnicodeData.lower, hport, hcanon]
  rfl

end Fold

/-- Over the alphabet every body is portable. -/
theorem portable_of_alphabet {U : UnicodeData} (hU : Conforms U) {body : Text}
    (hb : ∀ c ∈ body, c ∈ alphabet) : Portable U body where
  nfkc := by
    have hinert : ∀ s : Text, (∀ c ∈ s, c ∈ alphabet) → U.nfkc s = s.map compat := fun s hs =>
      U.nfkc_of_inert compat s (fun c hc => hU.decomp c (hs c hc))
        (fun c hc => hU.ccc c (hs c hc)) fun a ha b hb' => hU.compose a (hs a ha) b (hs b hb')
    rw [hinert body hb, ← List.flatMap_singleton' (body.map compat), List.flatMap_map]
    refine List.flatMap_congr fun c hc => (hinert [c] fun d hd => ?_).symm
    rw [List.mem_singleton.mp hd]
    exact hb c hc
  char := by
    intro c hc
    have hs : ∀ d ∈ [c], d ∈ alphabet := fun d hd => List.mem_singleton.mp hd ▸ hb c hc
    rw [PortableChar, fold_agrees hU hs]
    exact @collapse_map _ _ Reference.isKeyChar ' ' Char.toNat Port.isKeyUnit _ fun _ _ => rfl

/-- The port suppresses every portable body that the reference suppresses. -/
theorem portable_suppressed (U : UnicodeData) (body : Text) (hb : Portable U body) :
    MissesNothing U body := by
  intro thread channel hch r hr hsup
  have hc := keyText_canonicalize U body
  have hmatch := Option.isSome_iff_exists.mp ((Reference.suppresses_iff hr).mp hsup)
  obtain ⟨t, ht⟩ := hmatch
  refine ⟨⟨.suppressAndStop, some .optOut, some (codes t)⟩, ?_, rfl⟩
  rw [Port.evaluate, (channel_known hch).1, if_neg Bool.false_ne_true]
  simp only [Option.getD_some, hb.canonicalize U, matchOptOut_codes U hc, ht, Option.map_some]

theorem portable_suppressed_stop :
    MissesNothing alphabetTables ['Ｓ', 'т', '\u200b', 'О', '\u3000', 'p'] :=
  portable_suppressed alphabetTables _ (portable_of_alphabet alphabetTables_conforms
    (List.all_iff_forall_prop.mp (by decide +kernel)))

/-- The tables of the alphabet with the rows of the ligature `ﬆ` (U+FB06), which
decomposes and folds to two letters and has no lower case. -/
def ligatureTables : UnicodeData where
  decompTable c := if c = '\ufb06' then "st".toList else [compat c]
  cccTable _ := 0
  composeTable _ _ := none
  foldCaseTable c := if c = '\ufb06' then "st".toList else [lowerChar c]
  lowerCaseTable c := [lowerChar c]
  cased _ := false
  caseIgnorable _ := false
  alnumTable c := c = '\ufb06'
  letterOrDigitTable c := c = '\ufb06'
  decimalTable _ := false

/-- The reference reads `ﬆop` as a stop, the port as the word `op`. -/
theorem ligature_missed : ¬ ∀ body, MissesNothing ligatureTables body := by
  intro h
  obtain ⟨r', hr', hsup⟩ := h ['\ufb06', 'o', 'p'] [] "sms".toList (by decide)
    ⟨.suppressAndStop, some .optOut, some "stop".toList⟩ (by decide +kernel) rfl
  have hport : Port.evaluate ligatureTables (some ['\ufb06', 'o', 'p'])
      (some (Reference.autoReplyCount [])) (codes "sms".toList) =
        some ⟨.proceed, none, none⟩ := by decide +kernel
  rw [hport, Option.some.injEq] at hr'
  rw [← hr'] at hsup
  exact nomatch hsup

end Outreach.Guardrails
