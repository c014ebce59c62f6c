import Outreach.Guardrails.EditScan
import Mathlib.Data.Bool.AllAny

/-!
# The five matchers agree on canonical text

The Apex matchers run over code units, the Python ones over code points. On
canonical text (`KeyText`) and on ASCII folded text the two compute the same
hit, unit for character. No assumption on the Unicode tables is used: ASCII is
outside them. That the two folds produce the same text is a separate matter.
-/

namespace Outreach.Guardrails

open Outreach.Library

set_option autoImplicit false

/-- The code units of a text of the basic plane. -/
abbrev codes (s : Text) : List Nat := s.map Char.toNat

theorem toNat_injective : Function.Injective Char.toNat := fun _ _ h => Char.toNat_inj.mp h

def AsciiText (s : Text) : Prop := ∀ c ∈ s, isAscii c = true

/-- Text over `[a-z0-9 ]`, the range of both `canonicalize` functions. -/
def KeyText (s : Text) : Prop := ∀ c ∈ s, Reference.isKeyChar c = true ∨ c = ' '

instance (s : Text) : Decidable (KeyText s) := List.decidableBAll _ s

theorem keyChar_range {c : Char} (h : Reference.isKeyChar c = true ∨ c = ' ') :
    (97 ≤ c.toNat ∧ c.toNat ≤ 122) ∨ (48 ≤ c.toNat ∧ c.toNat ≤ 57) ∨ c.toNat = 32 := by
  rcases h with h | rfl
  · simp only [Reference.isKeyChar, Bool.or_eq_true, Bool.and_eq_true, decide_eq_true_eq] at h
    omega
  · exact Or.inr (Or.inr rfl)

theorem KeyText.ascii {s : Text} (h : KeyText s) : AsciiText s := by
  intro c hc
  have := keyChar_range (h c hc)
  simp only [isAscii, decide_eq_true_eq]
  omega

theorem KeyText.drop {s : Text} (h : KeyText s) (n : Nat) : KeyText (s.drop n) :=
  fun c hc => h c (List.mem_of_mem_drop hc)

theorem KeyText.despace {s : Text} (h : KeyText s) : KeyText (Reference.despace s) :=
  fun c hc => h c (List.mem_of_mem_filter hc)

theorem keyText_canonicalize (U : UnicodeData) (body : Text) :
    KeyText (Reference.canonicalize U body) :=
  fun _ hc => mem_collapseFrom (mem_stripBy hc)

/-! ## Equality and edit distance -/

theorem lowerUnit_key {c : Char} (h : Reference.isKeyChar c = true ∨ c = ' ') :
    Port.lowerUnit c.toNat = c.toNat := by
  have := keyChar_range h
  exact if_neg (by omega)

theorem map_lowerUnit {s : Text} (h : KeyText s) : (codes s).map Port.lowerUnit = codes s := by
  rw [List.map_map]
  exact List.map_congr_left fun c hc => lowerUnit_key (h c hc)

theorem sameText_codes {a b : Text} (ha : KeyText a) (hb : KeyText b) :
    Port.sameText (codes a) (codes b) = decide (a = b) := by
  rw [Port.sameText, map_lowerUnit ha, map_lowerUnit hb,
    decide_eq_decide, (List.map_injective_iff.mpr toNat_injective).eq_iff]

theorem withinEditDistance1_codes {a b : Text} (ha : KeyText a) (hb : KeyText b) :
    Port.withinEditDistance1 (codes a) (codes b) = Reference.withinEditDistance1 a b := by
  have hcase := Port.CaseHidesNothing.of_lower (map_lowerUnit ha) (map_lowerUnit hb)
  have hport := (Port.withinEditDistance1_iff_levenshtein (codes a) (codes b)).mpr hcase
  rw [hport, levenshtein_map toNat_injective, Bool.eq_iff_iff, decide_eq_true_iff,
    withinEditDistance1_iff]

theorem fuzzyWholeMatch_codes {text keyword : Text} (ht : KeyText text) (hk : KeyText keyword) :
    Port.fuzzyWholeMatch (codes text) (codes keyword) =
      Reference.fuzzyWholeMatch text keyword := by
  rw [Port.fuzzyWholeMatch, Reference.fuzzyWholeMatch, sameText_codes ht hk,
    withinEditDistance1_codes ht hk, List.length_map]
  by_cases h : text = keyword
  · simp [h]
  · simp only [h, decide_false, Bool.false_eq_true, if_false]
    rfl

theorem despace_codes (s : Text) : Port.despace (codes s) = codes (Reference.despace s) := by
  rw [Port.despace, List.filter_map]
  refine congrArg codes (List.filter_congr fun c _ => ?_)
  have h : c.toNat = 32 ↔ c = ' ' := toNat_injective.eq_iff (b := ' ')
  rw [Function.comp_apply, Bool.eq_iff_iff, bne_iff_ne, bne_iff_ne, Ne, Ne, h]

/-! ## Patterns -/

theorem word_codes (U : UnicodeData) (c : Char) (hc : isAscii c = true) :
    Port.word U c.toNat = Reference.word U.alnum c := by
  have h : c.toNat = 95 ↔ c = '_' := toNat_injective.eq_iff (b := '_')
  simp only [Port.word, Reference.word, Char.ofNat_toNat, UnicodeData.letterOrDigit,
    UnicodeData.alnum, hc, if_true, h]

theorem codePoints_codes {s : Text} (hs : AsciiText s) : Port.codePoints (codes s) = codes s := by
  induction s with
  | nil => rfl
  | cons c cs ih =>
    have hrest := ih fun d hd => hs d (List.mem_cons_of_mem c hd)
    have hc := hs c List.mem_cons_self
    simp only [isAscii, decide_eq_true_eq] at hc
    cases cs with
    | nil => rfl
    | cons d ds =>
      simp only [codes, List.map_cons] at hrest ⊢
      rw [Port.codePoints, if_neg (by omega), hrest]

open Pattern in
theorem stopImperative_agree :
    Agree Char.toNat (isAscii · = true) Reference.stopImperative Port.stopImperative :=
  .seq (.opt (.literal toNat_injective _)) (.seq (.literal toNat_injective _)
    (.seq (.oneOf toNat_injective _) .boundary))

theorem digit_codes (U : UnicodeData) (c : Char) (hc : isAscii c = true) :
    Port.digit c.toNat = U.decimal c := by
  rw [UnicodeData.decimal, if_pos hc, Port.digit, Char.isDigit, Bool.eq_iff_iff]
  simp only [Bool.and_eq_true, decide_eq_true_eq]
  exact Iff.rfl

open Pattern in
theorem dsnCode_agree (U : UnicodeData) :
    Agree Char.toNat (isAscii · = true) (Reference.dsnCode U) Port.dsnCode := by
  have hd : Agree Char.toNat (isAscii · = true) (.sat U.decimal) (.sat Port.digit) :=
    .sat fun c hc => digit_codes U c hc
  exact .seq .boundary (.seq (.literal toNat_injective _) (.seq hd
    (.seq (.literal toNat_injective _) (.seq hd (.seq (.opt (.seq hd (.opt hd))) .boundary)))))

open Pattern in
theorem smtpCode_agree :
    Agree Char.toNat (isAscii · = true) Reference.smtpCode Port.smtpCode :=
  .seq .boundary (.seq (.literal toNat_injective _) (.seq (.sat fun _ _ => rfl) .boundary))

theorem find_codes (U : UnicodeData) {p : Pattern Char} {q : Pattern Nat}
    (h : Pattern.Agree Char.toNat (isAscii · = true) p q) {s : Text} (hs : AsciiText s) :
    q.find (Port.word U) (Port.codePoints (codes s)) =
      (p.find (Reference.word U.alnum) s).map codes := by
  rw [codePoints_codes hs]
  exact Pattern.find_map (word_codes U) h hs

/-! ## The rules -/

theorem find?_map_congr {α β : Type*} {f : α → β} {p : α → Bool} {q : β → Bool} {l : List α}
    (h : ∀ x ∈ l, q (f x) = p x) : (l.map f).find? q = (l.find? p).map f := by
  induction l with
  | nil => rfl
  | cons x l ih =>
    rw [List.map_cons, List.find?_cons, List.find?_cons, h x List.mem_cons_self,
      ih fun y hy => h y (List.mem_cons_of_mem x hy)]
    cases p x <;> rfl

theorem phrases_codes (phrases : List Text) (canon : Text) :
    (phrases.map codes).find? (fun phrase => hasInfix phrase (codes canon)) =
      (phrases.find? fun phrase => hasInfix phrase canon).map codes :=
  find?_map_congr fun phrase _ => hasInfix_map toNat_injective phrase canon

theorem optOutKeywords_keyText : ∀ k ∈ Reference.optOutKeywords, KeyText k := by decide

theorem matchOptOut_codes (U : UnicodeData) {canon : Text} (hc : KeyText canon) :
    Port.matchOptOut U (codes canon) = (Reference.matchOptOut U canon).map codes := by
  have hkeys : Port.optOutKeywords.find? (fun keyword =>
        Port.fuzzyWholeMatch (codes canon) keyword ||
          Port.fuzzyWholeMatch (Port.despace (codes canon)) (Port.despace keyword)) =
      (Reference.optOutKeywords.find? fun keyword =>
        Reference.fuzzyWholeMatch canon keyword ||
          Reference.fuzzyWholeMatch (Reference.despace canon) (Reference.despace keyword)).map
        codes := by
    refine find?_map_congr (f := codes) (l := Reference.optOutKeywords) fun k hk => ?_
    have hkey := optOutKeywords_keyText k hk
    rw [fuzzyWholeMatch_codes hc hkey, despace_codes, despace_codes,
      fuzzyWholeMatch_codes hc.despace hkey.despace]
  have himp := Pattern.matchStart_map (word_codes U) stopImperative_agree hc.ascii
  rw [Port.matchOptOut, Reference.matchOptOut, hkeys, codePoints_codes hc.ascii, himp]
  cases Reference.optOutKeywords.find? _ <;> rfl

theorem legalHit_codes (token : Text) :
    Port.legalHit (codes token) = (Reference.legalHit token).map codes := by
  have hmem : codes token ∈ Port.legalTokens ↔ token ∈ Reference.legalTokens :=
    List.mem_map_of_injective (List.map_injective_iff.mpr toNat_injective) (l := Reference.legalTokens)
  have hpre : Port.legalPrefixes.find? (fun p => p.isPrefixOf (codes token)) =
      (Reference.legalPrefixes.find? fun p => p.isPrefixOf token).map codes :=
    find?_map_congr (f := codes) (l := Reference.legalPrefixes) fun p _ =>
      isPrefixOf_map toNat_injective p token
  rw [Port.legalHit, Reference.legalHit, hpre]
  by_cases h : token ∈ Reference.legalTokens
  · rw [if_pos (hmem.mpr h), if_pos h]
    rfl
  · rw [if_neg (mt hmem.mp h), if_neg h]

/-- A space is the only white space of a canonical text. -/
theorem KeyText.isSpace {s : Text} (h : KeyText s) :
    ∀ c ∈ s, Library.isSpace c = decide (c = ' ') := by
  intro c hc
  rcases h c hc with hk | rfl
  · have hr := keyChar_range (Or.inl hk)
    have hne : c ≠ ' ' := fun he => by rw [he] at hk; exact absurd hk (by decide)
    have hn : c.toNat ≠ 32 := fun he => hne (toNat_injective he)
    simp only [Library.isSpace, hne, decide_false, Bool.or_eq_false_iff, Bool.and_eq_false_iff,
      decide_eq_false_iff_not]
    omega
  · rfl

theorem findSome?_filter {α β : Type*} {h : α → Option β} {p : α → Bool} {l : List α}
    (hp : ∀ x ∈ l, p x = false → h x = none) : (l.filter p).findSome? h = l.findSome? h := by
  induction l with
  | nil => rfl
  | cons x l ih =>
    have hl := ih fun y hy => hp y (List.mem_cons_of_mem x hy)
    cases hx : p x with
    | true => rw [List.filter_cons, hx, if_pos rfl, List.findSome?_cons, List.findSome?_cons, hl]
    | false =>
      rw [List.filter_cons, hx, if_neg Bool.false_ne_true, List.findSome?_cons,
        hp x List.mem_cons_self hx, hl]

/-- The token loops agree: the empty pieces of the Apex split are never hits. -/
theorem tokens_codes {h : Text → Option Text} {h' : List Nat → Option (List Nat)}
    (hh : ∀ w, h' (codes w) = (h w).map codes) (hnil : h [] = none) {canon : Text}
    (hc : KeyText canon) :
    (javaSplit 32 (codes canon)).findSome? h' =
      ((splitWords isSpace canon).findSome? h).map codes := by
  rw [splitWords_eq_filter hc.isSpace, findSome?_filter]
  · have hs : javaSplit 32 (codes canon) = (javaSplit ' ' canon).map codes :=
      javaSplit_map toNat_injective ' ' canon
    rw [hs, List.findSome?_map]
    induction javaSplit ' ' canon with
    | nil => rfl
    | cons w ws ih =>
      rw [List.findSome?_cons, List.findSome?_cons, Function.comp_apply, hh w, ih]
      cases h w <;> rfl
  · intro w _ hw
    rw [Bool.not_eq_false', List.isEmpty_iff] at hw
    exact hw ▸ hnil

theorem matchLegal_codes {canon : Text} (hc : KeyText canon) :
    Port.matchLegal (codes canon) = (Reference.matchLegal canon).map codes := by
  have hp : Port.legalPhrases.find? (fun phrase => hasInfix phrase (codes canon)) =
      (Reference.legalPhrases.find? fun phrase => hasInfix phrase canon).map codes :=
    phrases_codes Reference.legalPhrases canon
  have ht := tokens_codes legalHit_codes (by decide) hc
  rw [Port.matchLegal, Reference.matchLegal, hp, ht]
  cases Reference.legalPhrases.find? _ <;> rfl

theorem find?_eq_findSome? {α : Type*} (p : α → Bool) (l : List α) :
    l.find? p = l.findSome? fun x => if p x then some x else none := by
  induction l with
  | nil => rfl
  | cons x l ih =>
    rw [List.find?_cons, List.findSome?_cons, ih]
    cases p x <;> rfl

theorem matchHostility_codes {canon : Text} (hc : KeyText canon) :
    Port.matchHostility (codes canon) = (Reference.matchHostility canon).map codes := by
  have hp : Port.hostilityPhrases.find? (fun phrase => hasInfix phrase (codes canon)) =
      (Reference.hostilityPhrases.find? fun phrase => hasInfix phrase canon).map codes :=
    phrases_codes Reference.hostilityPhrases canon
  have hmem : ∀ w : Text, codes w ∈ Port.hostilityWords ↔ w ∈ Reference.hostilityWords :=
    fun w => List.mem_map_of_injective (List.map_injective_iff.mpr toNat_injective)
      (l := Reference.hostilityWords)
  have ht : (javaSplit 32 (codes canon)).find? (fun token => decide (token ∈ Port.hostilityWords)) =
      ((splitWords isSpace canon).find? fun token =>
        decide (token ∈ Reference.hostilityWords)).map codes := by
    rw [find?_eq_findSome?, find?_eq_findSome?]
    refine tokens_codes (fun w => ?_) (by decide) hc
    by_cases h : w ∈ Reference.hostilityWords <;> simp [hmem w, h]
  rw [Port.matchHostility, Reference.matchHostility, hp, ht]
  cases Reference.hostilityPhrases.find? _ <;> rfl

theorem matchBounceOrAutoreply_codes (U : UnicodeData) {canon folded channel : Text}
    (hf : AsciiText folded) (hch : KeyText channel) :
    Port.matchBounceOrAutoreply U (codes canon) (codes folded) (codes channel) =
      (Reference.matchBounceOrAutoreply U canon folded channel).map codes := by
  have hmark : Port.autoreplyMarkers.find? (fun marker => hasInfix marker (codes canon)) =
      (Reference.autoreplyMarkers.find? fun marker => hasInfix marker canon).map codes :=
    phrases_codes Reference.autoreplyMarkers canon
  have hphr : Port.bouncePhrases.find? (fun phrase => hasInfix phrase (codes canon)) =
      (Reference.bouncePhrases.find? fun phrase => hasInfix phrase canon).map codes :=
    phrases_codes Reference.bouncePhrases canon
  have hemail : Port.sameText (codes channel) (Port.units "email") =
      decide (channel = "email".toList) := sameText_codes hch (by decide)
  rw [Port.matchBounceOrAutoreply, Reference.matchBounceOrAutoreply, hmark, hphr, hemail,
    find_codes U (dsnCode_agree U) hf, find_codes U smtpCode_agree hf]
  cases Reference.autoreplyMarkers.find? _ with
  | some marker => rfl
  | none =>
    by_cases h : channel = "email".toList
    · simp only [h, decide_true, if_true, Option.map_none]
      cases Reference.bouncePhrases.find? _ with
      | some phrase => rfl
      | none => cases (Reference.dsnCode U).find _ folded <;> rfl
    · simp only [h, decide_false, Bool.false_eq_true, if_false, Option.map_none]

end Outreach.Guardrails
