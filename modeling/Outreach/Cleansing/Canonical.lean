import Outreach.Cleansing.Pipeline
import Outreach.Library.NormalForm
import Mathlib.Data.List.TakeWhile

/-!
# Normalizing an address twice

Normalization cleans, folds and cuts. Cleaning takes zero-width characters out of
a text that is normalized already, and folding rewrites its letters: either can
bring a letter next to a mark that it composes with. A second normalization
composes them.
-/

namespace Outreach.Cleansing

open Outreach.Library Outreach.Suppression

set_option autoImplicit false

/-- White space, the zero-width characters, and the signs that an address is cut at. -/
def isSpecial (c : Char) : Bool :=
  isSpace c || zeroWidth.contains c || decide (c = '+') || decide (c = '@')

/-- What Unicode says of these characters. -/
structure KeepsSpecial (U : UnicodeData) : Prop where
  /-- a character folds to a special one only if it is that one -/
  fold (c s : Char) : isSpecial s = true → s ∈ U.foldCase c → s = c
  /-- so does what is normalized and folded decompose -/
  decomp (t : Text) (c d s : Char) : c ∈ U.nfkc t → d ∈ U.foldCase c → isSpecial s = true →
    s ∈ U.decomp d → s = d
  composite (a b s : Char) : U.compose a b = some s → isSpecial s = false
  /-- no mark composes with the sign of an address -/
  sign (b : Char) : U.compose '@' b = none

section Twice

variable (U : UnicodeData)

/-- What is kept of a text: up to the tag, and behind the last sign. -/
def addressParts (raw : Text) : Option (Text × Text) :=
  (rpartition '@' (clean U raw)).map fun p => (p.1.takeWhile fun c => c != '+', p.2)

/-- The part is as normalization and folding leave it, once it is folded. -/
def Settled (part : Text) : Prop := U.casefold (U.nfkc (U.casefold part)) = U.casefold part

variable {U}

theorem mem_clean {raw : Text} {c : Char} (h : c ∈ clean U raw) :
    c ∈ U.nfkc raw ∧ zeroWidth.contains c = false := by
  have hmem := List.mem_filter.mp (mem_stripBy h)
  exact ⟨hmem.1, (Bool.not_eq_true' _).mp hmem.2⟩

/-- A text without zero-width characters or white space once it is normalized. -/
theorem clean_of_plain {raw : Text} (h : ∀ c ∈ U.nfkc raw, isSpace c = false ∧
    zeroWidth.contains c = false) : clean U raw = U.nfkc raw := by
  have hfilter : (U.nfkc raw).filter (fun c => !zeroWidth.contains c) = U.nfkc raw := by
    apply List.filter_eq_self.mpr
    intro c hc
    rw [(h c hc).2]
    rfl
  rw [clean, hfilter, stripBy_of_none fun c hc => (h c hc).1]

/-- The address that is made of two parts. -/
theorem normalizeEmail_eq_some (hU : KeepsSpecial U) {raw n : Text} :
    normalizeEmail U (some raw) = some n ↔ ∃ user domain,
      addressParts U raw = some (user, domain) ∧
      (∀ c ∈ U.casefold (clean U raw), isSpace c = false) ∧ '.' ∈ U.casefold domain ∧
      U.casefold user ≠ [] ∧ n = U.casefold user ++ '@' :: U.casefold domain := by
  have hparts : rpartition '@' (U.casefold (clean U raw)) =
      (rpartition '@' (clean U raw)).map fun p => (U.casefold p.1, U.casefold p.2) :=
    rpartition_flatMap rfl (fun c => hU.fold c '@' rfl) _
  have hcut (whole : Text) : (U.casefold whole).takeWhile (fun c => c != '+') =
      U.casefold (whole.takeWhile fun c => c != '+') :=
    takeWhile_flatMap rfl (fun c => hU.fold c '+' rfl) _
  simp only [normalizeEmail, addressParts, Option.bind_eq_bind, Option.bind_some, hparts]
  cases hclean : rpartition '@' (clean U raw) with
  | none =>
    apply iff_of_false
    · split
      · exact fun h => nomatch h
      · exact fun h => nomatch h
    · intro h
      obtain ⟨_, _, h, -⟩ := h
      exact nomatch h
  | some p =>
    obtain ⟨whole, domain⟩ := p
    simp only [Option.map_some, Option.bind_some, hcut]
    constructor
    · intro h
      split at h
      · exact nomatch h
      rename_i htext
      split at h
      · exact nomatch h
      rename_i hdomain
      split at h
      · exact nomatch h
      rename_i huser
      rw [not_or, Bool.not_eq_true, List.any_eq_false] at htext
      rw [not_or, not_not] at hdomain
      refine ⟨_, _, rfl, fun c hc => ?_, hdomain.2, huser, (Option.some.inj h).symm⟩
      exact (Bool.not_eq_true _).mp (htext.2 c hc)
    · intro h
      obtain ⟨_, _, ⟨⟩, hspace, hdot, huser, rfl⟩ := h
      have htext : U.casefold (clean U raw) ≠ [] := by
        intro hnil
        rw [hclean, hnil] at hparts
        exact nomatch hparts
      have hany : ¬ (U.casefold (clean U raw) = [] ∨
          (U.casefold (clean U raw)).any isSpace = true) := by
        rw [not_or, Bool.not_eq_true, List.any_eq_false]
        exact ⟨htext, fun c hc => (Bool.not_eq_true _).mpr (hspace c hc)⟩
      have hdomain : ¬ (U.casefold domain = [] ∨ '.' ∉ U.casefold domain) := by
        rw [not_or, not_not]
        exact ⟨List.ne_nil_of_mem hdot, hdot⟩
      rw [if_neg hany, if_neg hdomain, if_neg huser]

theorem special_of_space {c : Char} (h : isSpace c = true) : isSpecial c = true := by
  rw [isSpecial, h]
  rfl

theorem special_of_zeroWidth {c : Char} (h : zeroWidth.contains c = true) :
    isSpecial c = true := by
  rw [isSpecial, h, Bool.or_true]
  rfl

theorem casefold_address (user domain : Text) :
    U.casefold (user ++ '@' :: domain) = U.casefold user ++ '@' :: U.casefold domain :=
  List.flatMap_append

/-- The parts of an address are cut out of the clean text. -/
theorem mem_addressParts {raw user domain : Text} (h : addressParts U raw = some (user, domain)) :
    (∀ c ∈ user, c ∈ clean U raw ∧ c ≠ '+') ∧ ∀ c ∈ domain, c ∈ clean U raw ∧ c ≠ '@' := by
  obtain ⟨⟨whole, _⟩, hcut, hparts⟩ := Option.map_eq_some_iff.mp h
  cases hparts
  obtain ⟨hclean, hsign⟩ := rpartition_eq_some.mp hcut
  rw [hclean]
  constructor
  · intro c hc
    have hwhole := (List.takeWhile_sublist _).subset hc
    have htag := List.mem_takeWhile_imp hc
    exact ⟨List.mem_append_left _ hwhole, bne_iff_ne.mp htag⟩
  · intro c hc
    refine ⟨List.mem_append_right _ (List.mem_cons_of_mem _ hc), ?_⟩
    rintro rfl
    exact hsign hc

section Again

variable (hU : KeepsSpecial U) {raw user domain : Text}
include hU

theorem mem_casefold_special {t : Text} {s : Char} (hs : isSpecial s = true)
    (h : s ∈ U.casefold t) : s ∈ t := by
  obtain ⟨c, hc, hfold⟩ := List.mem_flatMap.mp h
  exact hU.fold c s hs hfold ▸ hc

/-- Normalizing a folded part again brings in no special character. -/
theorem mem_nfkc_special {part : Text} (hpart : ∀ c ∈ part, c ∈ U.nfkc raw) {s : Char}
    (hs : isSpecial s = true) (h : s ∈ U.nfkc (U.casefold part)) : s ∈ U.casefold part := by
  have hcomposite (a b d : Char) (hd : U.compose a b = some d) (hspecial : isSpecial d = true) :
      d ∈ U.casefold part := by
    rw [hU.composite a b d hd] at hspecial
    exact nomatch hspecial
  apply U.forall_nfkc (P := fun c => isSpecial c = true → c ∈ U.casefold part) hcomposite _ s h hs
  intro d hd c hc hspecial
  obtain ⟨x, hx, hfold⟩ := List.mem_flatMap.mp hd
  rwa [hU.decomp raw x d c (hpart x hx) hfold hspecial hc]

/-- So a part of the clean text has neither white space nor zero-width characters in it. -/
theorem nfkc_part_plain (hspace : ∀ c ∈ U.casefold (clean U raw), isSpace c = false) {part : Text}
    (hpart : ∀ c ∈ part, c ∈ clean U raw) :
    ∀ c ∈ U.nfkc (U.casefold part), isSpace c = false ∧ zeroWidth.contains c = false := by
  have hmem {c : Char} (hs : isSpecial c = true) (hc : c ∈ U.nfkc (U.casefold part)) :
      c ∈ U.casefold part := mem_nfkc_special hU (fun d hd => (mem_clean (hpart d hd)).1) hs hc
  intro c hc
  constructor
  · apply Bool.eq_false_iff.mpr
    intro h
    obtain ⟨d, hd, hfold⟩ := List.mem_flatMap.mp (hmem (special_of_space h) hc)
    have hnone := hspace c (List.mem_flatMap.mpr ⟨d, hpart d hd, hfold⟩)
    exact nomatch hnone.symm.trans h
  · apply Bool.eq_false_iff.mpr
    intro h
    have hs := special_of_zeroWidth h
    have hclean := mem_clean (hpart c (mem_casefold_special hU hs (hmem hs hc)))
    exact nomatch hclean.2.symm.trans h

/-- The second cleaning finds the parts as the first has left them, and composes them. -/
theorem clean_again (hparts : addressParts U raw = some (user, domain))
    (hspace : ∀ c ∈ U.casefold (clean U raw), isSpace c = false) :
    clean U (U.casefold user ++ '@' :: U.casefold domain) =
      U.nfkc (U.casefold user) ++ '@' :: U.nfkc (U.casefold domain) := by
  have hsign : U.Inert '@' := ⟨rfl, rfl, hU.sign, fun _ => rfl⟩
  obtain ⟨huser, hdomain⟩ := mem_addressParts hparts
  rw [clean_of_plain, U.nfkc_append hsign]
  rw [U.nfkc_append hsign]
  intro c hc
  rcases List.mem_append.mp hc with hc | hc
  · exact nfkc_part_plain hU hspace (fun d hd => (huser d hd).1) c hc
  · rcases List.mem_cons.mp hc with rfl | hc
    · exact ⟨rfl, rfl⟩
    · exact nfkc_part_plain hU hspace (fun d hd => (hdomain d hd).1) c hc

theorem addressParts_again (hparts : addressParts U raw = some (user, domain))
    (hspace : ∀ c ∈ U.casefold (clean U raw), isSpace c = false) :
    addressParts U (U.casefold user ++ '@' :: U.casefold domain) =
      some (U.nfkc (U.casefold user), U.nfkc (U.casefold domain)) := by
  obtain ⟨huser, hdomain⟩ := mem_addressParts hparts
  have hsign : '@' ∉ U.nfkc (U.casefold domain) := by
    intro h
    have hmem := mem_nfkc_special hU (fun d hd => (mem_clean (hdomain d hd).1).1) rfl h
    exact (hdomain _ (mem_casefold_special hU rfl hmem)).2 rfl
  have htag : (U.nfkc (U.casefold user)).takeWhile (fun c => c != '+') =
      U.nfkc (U.casefold user) := by
    apply List.takeWhile_eq_self_iff.mpr
    intro c hc
    apply bne_iff_ne.mpr
    rintro rfl
    have hmem := mem_nfkc_special hU (fun d hd => (mem_clean (huser d hd).1).1) rfl hc
    exact (huser _ (mem_casefold_special hU rfl hmem)).2 rfl
  rw [addressParts, clean_again hU hparts hspace, rpartition_eq_some.mpr ⟨rfl, hsign⟩,
    Option.map_some, htag]

/-- A second normalization gives the address back exactly if its parts were settled. -/
theorem normalizeEmail_twice {n : Text} (hn : normalizeEmail U (some raw) = some n)
    (hparts : addressParts U raw = some (user, domain)) :
    normalizeEmail U (some n) = some n ↔ Settled U user ∧ Settled U domain := by
  obtain ⟨_, _, hsame, hspace, hdot, huser, rfl⟩ := (normalizeEmail_eq_some hU).mp hn
  cases hparts.symm.trans hsame
  obtain ⟨huserClean, hdomain⟩ := mem_addressParts hparts
  have hagain := addressParts_again hU hparts hspace
  rw [normalizeEmail_eq_some hU]
  constructor
  · intro h
    obtain ⟨_, _, hfound, -, -, -, heq⟩ := h
    cases hagain.symm.trans hfound
    have hsign : '@' ∉ U.casefold domain := fun h =>
      (hdomain _ (mem_casefold_special hU rfl h)).2 rfl
    have hsign' : '@' ∉ U.casefold (U.nfkc (U.casefold domain)) := by
      intro h
      have hmem := mem_nfkc_special hU (fun d hd => (mem_clean (hdomain d hd).1).1) rfl
        (mem_casefold_special hU rfl h)
      exact hsign hmem
    have hcut := rpartition_eq_some.mpr ⟨heq, hsign'⟩
    rw [rpartition_eq_some.mpr ⟨rfl, hsign⟩] at hcut
    obtain ⟨huserEq, hdomainEq⟩ := Prod.mk.inj (Option.some.inj hcut)
    exact ⟨huserEq.symm, hdomainEq.symm⟩
  · intro h
    obtain ⟨huserSettled, hdomainSettled⟩ := h
    rw [Settled] at huserSettled hdomainSettled
    have hfold : U.casefold (clean U (U.casefold user ++ '@' :: U.casefold domain)) =
        U.casefold user ++ '@' :: U.casefold domain := by
      rw [clean_again hU hparts hspace, casefold_address, huserSettled, hdomainSettled]
    refine ⟨_, _, hagain, ?_, ?_, ?_, ?_⟩
    · rw [hfold]
      intro c hc
      rcases List.mem_append.mp hc with hc | hc
      · obtain ⟨d, hd, hfold⟩ := List.mem_flatMap.mp hc
        exact hspace c (List.mem_flatMap.mpr ⟨d, (huserClean d hd).1, hfold⟩)
      · rcases List.mem_cons.mp hc with rfl | hc
        · rfl
        · obtain ⟨d, hd, hfold⟩ := List.mem_flatMap.mp hc
          exact hspace c (List.mem_flatMap.mpr ⟨d, (hdomain d hd).1, hfold⟩)
    · rwa [hdomainSettled]
    · rwa [huserSettled]
    · rw [huserSettled, hdomainSettled]

end Again

/-! ## The suppression list -/

variable {ν : Type} (P : PhoneNumbers ν)

/-- What is suppressed under this address is found under `n`, whatever else is in the log. -/
def FoundBySuppress (U : UnicodeData) (raw n : Text) : Prop :=
  ∀ log reason source occurredAt eventId e phone now, '@' ∈ raw →
    newEvent U P raw reason source occurredAt eventId = .ok e →
    ∃ result store, SuppressionStore.init.isSuppressed U P (log ++ [e]) now phone (some n) =
      some (result, store) ∧ result.Reports n

variable {P}

theorem found_of_fixed {raw n : Text} (hn : normalizeEmail U (some raw) = some n)
    (hfixed : normalizeEmail U (some n) = some n) : FoundBySuppress P U raw n := by
  intro log reason source occurredAt eventId e phone now hsign he
  obtain ⟨at', m, -, hm, rfl⟩ := newEvent_eq_ok.mp he
  have hkind : kindOf raw = .email := if_pos hsign
  rw [if_pos hkind, hn] at hm
  cases hm
  have hid : ¬ (phone = none ∧ some n = none) := fun h => nomatch h.2
  obtain ⟨store, -, hcheck⟩ :=
    isSuppressed_follows U P (SuppressionStore.init_follows (log ++ [_])) now hid
  refine ⟨_, store, hcheck, report_reports.mpr ⟨?_, (n, some n), ?_, rfl⟩⟩
  · exact mem_keys_currentSet.mpr ⟨_, List.mem_append_right _ List.mem_cons_self, rfl⟩
  · exact mem_provided.mpr (Or.inr ⟨rfl, hfixed.symm⟩)

/-- Normalization is idempotent on an address, and the list finds it, exactly if normalizing its
folded parts once more would leave them as they are. -/
theorem canonical_iff_settled (hU : KeepsSpecial U) {raw n : Text}
    (hn : normalizeEmail U (some raw) = some n) :
    (normalizeEmail U (some n) = some n ∧ FoundBySuppress P U raw n) ↔
      ∃ user domain, addressParts U raw = some (user, domain) ∧ Settled U user ∧
        Settled U domain := by
  obtain ⟨user, domain, hparts, -⟩ := (normalizeEmail_eq_some hU).mp hn
  have htwice := normalizeEmail_twice hU hn hparts
  constructor
  · intro h
    exact ⟨user, domain, hparts, htwice.mp h.1⟩
  · intro h
    obtain ⟨_, _, hsame, hsettled⟩ := h
    cases hparts.symm.trans hsame
    have hfixed := htwice.mpr hsettled
    exact ⟨hfixed, found_of_fixed hn hfixed⟩

end Twice

/-! ## An accent behind a zero-width space -/

/-- Tables with one composite: `e` and the acute accent. -/
def acute : UnicodeData :=
  { UnicodeData.plain with
    decompTable := fun c => if c = 'é' then ['e', '\u0301'] else [c]
    cccTable := fun c => if c = '\u0301' then 230 else 0
    composeTable := fun a b => if a = 'e' ∧ b = '\u0301' then some 'é' else none }

theorem acute_keepsSpecial : KeepsSpecial acute where
  fold c s hs h := by
    rw [UnicodeData.foldCase] at h
    split at h
    · rename_i hc
      have hall : ∀ k < 128, isSpecial (Char.ofNat k).toLower = true →
          (Char.ofNat k).toLower = Char.ofNat k := by
        decide +kernel
      rw [List.mem_singleton.mp h] at hs ⊢
      have hlower := hall c.toNat (of_decide_eq_true hc)
      rw [Char.ofNat_toNat] at hlower
      exact hlower hs
    · exact List.mem_singleton.mp h
  decomp t c d s _ _ hs h := by
    rw [UnicodeData.decomp] at h
    split at h
    · exact List.mem_singleton.mp h
    · change s ∈ (if d = 'é' then ['e', '\u0301'] else [d]) at h
      split at h
      · rcases List.mem_pair.mp h with rfl | rfl
        · exact absurd hs (by decide)
        · exact absurd hs (by decide)
      · exact List.mem_singleton.mp h
  composite a b s h := by
    rw [UnicodeData.compose] at h
    split at h
    · exact nomatch h
    · change (if a = 'e' ∧ b = '\u0301' then some 'é' else none) = some s at h
      split at h
      · cases h
        decide
      · exact nomatch h
  sign b := by
    rw [UnicodeData.compose]
    split
    · rfl
    · show (if '@' = 'e' ∧ b = '\u0301' then some 'é' else none) = none
      exact if_neg fun h => absurd h.1 (by decide)

theorem tag_canonical :
    normalizeEmail acute (some "ana@x.co".toList) = some "ana@x.co".toList ∧
      FoundBySuppress PhoneNumbers.e164 acute "Ana+news@x.co".toList "ana@x.co".toList := by
  have hn : normalizeEmail acute (some "Ana+news@x.co".toList) = some "ana@x.co".toList := by
    decide +kernel
  apply (canonical_iff_settled acute_keepsSpecial hn).mpr
  refine ⟨"Ana".toList, "x.co".toList, ?_, ?_, ?_⟩
  · decide +kernel
  · rw [Settled]
    decide +kernel
  · rw [Settled]
    decide +kernel

/-- The event that adds the accented address. -/
def accentEvent : Except AddError Event :=
  newEvent acute PhoneNumbers.e164 "e\u200b\u0301@x.co".toList "stop".toList "sms".toList
    ⟨0, some 0⟩ "1".toList

/-- The accent meets its letter in the first normalization and is composed in the second: the
check does not find what was added. -/
theorem accent_not_found :
    normalizeEmail acute (some "e\u200b\u0301@x.co".toList) = some "e\u0301@x.co".toList ∧
      normalizeEmail acute (some "e\u0301@x.co".toList) = some "é@x.co".toList ∧
      ∃ e, accentEvent = .ok e ∧
        (report acute PhoneNumbers.e164 (currentSet [e]) none
          (some "e\u0301@x.co".toList)).suppressed = false := by
  refine ⟨by decide +kernel, by decide +kernel, _, rfl, ?_⟩
  decide +kernel

end Outreach.Cleansing
