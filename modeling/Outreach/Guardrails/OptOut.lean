import Outreach.Guardrails.Matching
import Mathlib.Data.List.Find

/-!
# What counts as an opt-out

The loop of `_match_opt_out` compares every keyword twice, as it is written and
without spaces. Erasing the spaces on both sides brings no two texts further
apart, so the first comparison is redundant: the keyword that is reported depends
on the body without its spaces only.
-/

namespace Outreach.Guardrails

open Outreach.Library

set_option autoImplicit false

/-! ## The keywords -/

namespace Reference

/-- The loop of `_match_opt_out`. -/
def keywordHit (canon : Text) : Option Text :=
  optOutKeywords.find? fun keyword =>
    fuzzyWholeMatch canon keyword || fuzzyWholeMatch (despace canon) (despace keyword)

/-- The same loop without the first comparison. -/
def despacedHit (despaced : Text) : Option Text :=
  optOutKeywords.find? fun keyword => fuzzyWholeMatch despaced (despace keyword)

def contactVerbs : List Text :=
  ["texting".toList, "sending".toList, "messaging".toList, "contacting".toList,
    "emailing".toList, "calling".toList]

end Reference

/-- An optional `please `, then `stop ` and a contact verb at a word end. -/
def StopsContact (canon : Text) : Prop :=
  ∃ opening ∈ [[], "please ".toList], ∃ verb ∈ Reference.contactVerbs, ∃ rest,
    canon = opening ++ ("stop ".toList ++ (verb ++ rest)) ∧ (rest = [] ∨ rest.head? = some ' ')

/-- The opt-outs, as they are described: a whole message or an imperative. -/
def OptsOut (canon : Text) : Prop :=
  Reference.despace canon = "end".toList ∨
    (∃ keyword ∈ Reference.optOutKeywords, Reference.despace keyword ≠ "end".toList ∧
      levenshtein (Reference.despace canon) (Reference.despace keyword) ≤ 1) ∨
    StopsContact canon

/-- Whatever matches a keyword as it is written matches it without spaces. -/
theorem fuzzyWholeMatch_despace {canon keyword : Text}
    (hlen : Reference.minFuzzyLength ≤ keyword.length →
      Reference.minFuzzyLength ≤ (Reference.despace keyword).length)
    (h : Reference.fuzzyWholeMatch canon keyword = true) :
    Reference.fuzzyWholeMatch (Reference.despace canon) (Reference.despace keyword) = true := by
  unfold Reference.fuzzyWholeMatch at h ⊢
  split
  · rfl
  · rename_i hne
    rw [if_neg fun he => hne (congrArg Reference.despace he)] at h
    obtain ⟨hmin, hwithin⟩ := (Bool.and_eq_true_iff).mp h
    refine (Bool.and_eq_true_iff).mpr ⟨decide_eq_true (hlen (of_decide_eq_true hmin)), ?_⟩
    rw [withinEditDistance1_iff] at hwithin ⊢
    exact Nat.le_trans (levenshtein_filter_le _ canon keyword) hwithin

theorem keyword_despace_length : ∀ keyword ∈ Reference.optOutKeywords,
    Reference.minFuzzyLength ≤ keyword.length →
      Reference.minFuzzyLength ≤ (Reference.despace keyword).length := by decide

/-- The comparison with the spaces adds no match and reports no other keyword. -/
theorem keywordHit_eq (canon : Text) :
    Reference.keywordHit canon = Reference.despacedHit (Reference.despace canon) := by
  have hsame : ∀ keyword ∈ Reference.optOutKeywords,
      (Reference.fuzzyWholeMatch canon keyword ||
        Reference.fuzzyWholeMatch (Reference.despace canon) (Reference.despace keyword)) =
      Reference.fuzzyWholeMatch (Reference.despace canon) (Reference.despace keyword) := by
    intro keyword hk
    rw [Bool.or_eq_right_iff_imp]
    exact fuzzyWholeMatch_despace (keyword_despace_length keyword hk)
  exact List.find?_congr hsame

theorem keyword_end_or_long : ∀ keyword ∈ Reference.optOutKeywords,
    Reference.despace keyword = "end".toList ∨
      Reference.minFuzzyLength ≤ (Reference.despace keyword).length := by decide

theorem end_short : ¬ Reference.minFuzzyLength ≤ ("end".toList).length := by decide

theorem fuzzyWholeMatch_keyword {d keyword : Text} (hk : keyword ∈ Reference.optOutKeywords) :
    Reference.fuzzyWholeMatch d (Reference.despace keyword) = true ↔
      (Reference.despace keyword = "end".toList ∧ d = "end".toList) ∨
        (Reference.despace keyword ≠ "end".toList ∧ levenshtein d (Reference.despace keyword) ≤ 1) := by
  unfold Reference.fuzzyWholeMatch
  rcases keyword_end_or_long keyword hk with hend | hlong
  · rw [hend]
    by_cases hd : d = "end".toList
    · rw [if_pos hd]
      exact iff_of_true rfl (Or.inl ⟨rfl, hd⟩)
    · rw [if_neg hd, decide_eq_false end_short, Bool.false_and]
      refine iff_of_false Bool.false_ne_true fun h => ?_
      rcases h with ⟨-, hsame⟩ | ⟨hne, -⟩
      · exact hd hsame
      · exact hne rfl
  · have hne : Reference.despace keyword ≠ "end".toList := fun h => end_short (h ▸ hlong)
    rw [or_iff_right fun h => hne h.1, and_iff_right hne]
    by_cases hd : d = Reference.despace keyword
    · subst hd
      rw [if_pos rfl, levenshtein_self]
      exact iff_of_true rfl (Nat.zero_le 1)
    · rw [if_neg hd, decide_eq_true hlong, Bool.true_and, withinEditDistance1_iff]

theorem despacedHit_isSome {d : Text} :
    (Reference.despacedHit d).isSome = true ↔
      d = "end".toList ∨ ∃ keyword ∈ Reference.optOutKeywords,
        Reference.despace keyword ≠ "end".toList ∧ levenshtein d (Reference.despace keyword) ≤ 1 := by
  have hend : ∃ keyword ∈ Reference.optOutKeywords,
      Reference.despace keyword = "end".toList := by decide
  rw [Reference.despacedHit, List.find?_isSome]
  constructor
  · intro h
    obtain ⟨keyword, hk, hmatch⟩ := h
    rcases (fuzzyWholeMatch_keyword hk).mp hmatch with ⟨-, hd⟩ | hfar
    · exact Or.inl hd
    · exact Or.inr ⟨keyword, hk, hfar⟩
  · intro h
    rcases h with hd | ⟨keyword, hk, hfar⟩
    · obtain ⟨keyword, hk, hke⟩ := hend
      exact ⟨keyword, hk, (fuzzyWholeMatch_keyword hk).mpr (Or.inl ⟨hke, hd⟩)⟩
    · exact ⟨keyword, hk, (fuzzyWholeMatch_keyword hk).mpr (Or.inr hfar)⟩

/-! ## The imperative -/

theorem contactVerbs_end (U : UnicodeData) : ∀ verb ∈ Reference.contactVerbs, ∀ before,
    Pattern.isWordAt (Reference.word U.alnum) (verb.getLast?.or before) = true := by
  intro verb hverb before
  have hg : verb.getLast? = some 'g' := by
    revert verb
    decide
  rw [hg]
  rfl

theorem alphanum_of_keyChar {c : Char} (h : Reference.isKeyChar c = true) :
    c.isAlphanum = true := by
  rw [Reference.isKeyChar, Bool.or_eq_true, Bool.and_eq_true, Bool.and_eq_true] at h
  rcases h with ⟨hlow, hhigh⟩ | ⟨hlow, hhigh⟩
  · have hlower : c.isLower = true :=
      (Bool.and_eq_true_iff).mpr ⟨hlow, hhigh⟩
    show (c.isUpper || c.isLower || c.isDigit) = true
    rw [hlower, Bool.or_true, Bool.true_or]
  · have hdigit : c.isDigit = true := (Bool.and_eq_true_iff).mpr ⟨hlow, hhigh⟩
    rw [Char.isAlphanum, hdigit, Bool.or_true]

/-- On canonical text a word ends at a space or at the end. -/
theorem word_ends (U : UnicodeData) {rest : Text} (h : KeyText rest) :
    Pattern.isWordAt (Reference.word U.alnum) rest.head? = false ↔
      rest = [] ∨ rest.head? = some ' ' := by
  cases rest with
  | nil => simp [Pattern.isWordAt]
  | cons c cs =>
    have hword : Reference.word U.alnum c = decide (c ≠ ' ') := by
      rcases h c List.mem_cons_self with hkey | rfl
      · have hrange := keyChar_range (Or.inl hkey)
        have hne : c ≠ ' ' := by
          rintro rfl
          exact absurd hkey (by decide)
        have hascii : isAscii c = true := h.ascii c List.mem_cons_self
        have halnum := alphanum_of_keyChar hkey
        simp [Reference.word, UnicodeData.alnum, hascii, halnum, hne]
      · rfl
    simp [Pattern.isWordAt, hword]

/-- `stop ` and a contact verb, up to the end of the word. -/
theorem reads_stop (U : UnicodeData) {s : Text} (h : KeyText s) (before : Option Char) :
    Pattern.Reads (Reference.word U.alnum) (.seq (.literal "stop ".toList)
        (.seq (.oneOf Reference.contactVerbs) .boundary)) (before, s) ↔
      ∃ verb ∈ Reference.contactVerbs, ∃ rest,
        s = "stop ".toList ++ (verb ++ rest) ∧ (rest = [] ∨ rest.head? = some ' ') := by
  have hends : ∀ {cur : Pattern.Cursor Char} {verb rest : Text}, verb ∈ Reference.contactVerbs →
      s = "stop ".toList ++ (verb ++ rest) →
      (Pattern.Reads (Reference.word U.alnum) .boundary (cur.after verb rest) ↔
        rest = [] ∨ rest.head? = some ' ') := by
    intro cur verb rest hverb hs
    have hrest : KeyText rest := fun c hc => h c (by
      rw [hs]
      simp only [List.mem_append, hc, or_true])
    have hlast : Pattern.isWordAt (Reference.word U.alnum) (cur.after verb rest).1 = true :=
      contactVerbs_end U verb hverb _
    rw [← word_ends U hrest, Pattern.reads_boundary, hlast, ne_comm, ne_eq, Bool.not_eq_true]
    rfl
  rw [Pattern.reads_seq_literal]
  constructor
  · rintro ⟨afterStop, hstop, hreads⟩
    obtain ⟨verb, hverb, rest, hrest, hbound⟩ := Pattern.reads_seq_oneOf.mp hreads
    have hs : s = "stop ".toList ++ (verb ++ rest) := by
      rw [show s = _ from hstop, show afterStop = _ from hrest]
    exact ⟨verb, hverb, rest, hs, (hends hverb hs).mp hbound⟩
  · rintro ⟨verb, hverb, rest, hs, hend⟩
    exact ⟨verb ++ rest, hs, Pattern.reads_seq_oneOf.mpr
      ⟨verb, hverb, rest, rfl, (hends hverb hs).mpr hend⟩⟩

theorem stopImperative_isSome (U : UnicodeData) {canon : Text} (h : KeyText canon) :
    (Reference.stopImperative.matchStart (Reference.word U.alnum) canon).isSome = true ↔
      StopsContact canon := by
  have hplain := reads_stop U h none
  rw [Pattern.matchStart_isSome, Reference.stopImperative, Pattern.reads_seq_opt,
    Pattern.reads_seq_literal]
  constructor
  · rintro (⟨afterPlease, hplease, hreads⟩ | hreads)
    · have hcanon : canon = "please ".toList ++ afterPlease := hplease
      have hkey : KeyText afterPlease := fun c hc => h c (hcanon ▸ List.mem_append_right _ hc)
      obtain ⟨verb, hverb, rest, hs, hend⟩ := (reads_stop U hkey _).mp hreads
      exact ⟨"please ".toList, by simp, verb, hverb, rest, hs ▸ hcanon, hend⟩
    · obtain ⟨verb, hverb, rest, hs, hend⟩ := hplain.mp hreads
      exact ⟨[], by simp, verb, hverb, rest, hs, hend⟩
  · rintro ⟨opening, hmem, verb, hverb, rest, hcanon, hend⟩
    rcases List.mem_cons.mp hmem with rfl | hplease
    · exact Or.inr (hplain.mpr ⟨verb, hverb, rest, hcanon, hend⟩)
    · rw [List.mem_singleton.mp hplease] at hcanon
      have hkey : KeyText ("stop ".toList ++ (verb ++ rest)) := fun c hc =>
        h c (hcanon ▸ List.mem_append_right _ hc)
      exact Or.inl ⟨_, hcanon, (reads_stop U hkey _).mpr ⟨verb, hverb, rest, rfl, hend⟩⟩

/-! ## The description is exact -/

theorem matchOptOut_eq (U : UnicodeData) (canon : Text) :
    Reference.matchOptOut U canon =
      match Reference.keywordHit canon with
      | some keyword => some keyword
      | none => Reference.stopImperative.matchStart (Reference.word U.alnum) canon := rfl

theorem matchOptOut_isSome (U : UnicodeData) {canon : Text} (h : KeyText canon) :
    (Reference.matchOptOut U canon).isSome = true ↔ OptsOut canon := by
  have hkeywords := despacedHit_isSome (d := Reference.despace canon)
  rw [← keywordHit_eq] at hkeywords
  rw [matchOptOut_eq, OptsOut, ← or_assoc, ← hkeywords, ← stopImperative_isSome U h]
  cases Reference.keywordHit canon with
  | some keyword => simp
  | none => simp

/-- A body is suppressed exactly when it opts out as described, and which keyword is
reported depends on the body without its spaces only. -/
theorem optOut_exact (U : UnicodeData) (body : Text) :
    (∀ (thread : List Message) (channel : Text), channel ∈ Reference.channels →
      ∃ r, Reference.evaluate U body thread channel = some r ∧
        (r.action = .suppressAndStop ↔ OptsOut (Reference.canonicalize U body)) ∧
        ∀ keyword, Reference.keywordHit (Reference.canonicalize U body) = some keyword →
          r = ⟨.suppressAndStop, some .optOut, some keyword⟩) ∧
    Reference.keywordHit (Reference.canonicalize U body) =
      Reference.despacedHit (Reference.despace (Reference.canonicalize U body)) ∧
    ∀ body' : Text,
      Reference.despace (Reference.canonicalize U body') =
          Reference.despace (Reference.canonicalize U body) →
        Reference.keywordHit (Reference.canonicalize U body') =
          Reference.keywordHit (Reference.canonicalize U body) := by
  refine ⟨fun thread channel hch => ?_, keywordHit_eq _, fun body' hsame => ?_⟩
  · have hsome : (Reference.evaluate U body thread channel).isSome = true :=
      (Reference.evaluate_isSome U).mpr hch
    obtain ⟨r, hr⟩ := Option.isSome_iff_exists.mp hsome
    refine ⟨r, hr, (Reference.suppresses_iff hr).trans ?_, fun keyword hk => ?_⟩
    · exact matchOptOut_isSome U (keyText_canonicalize U body)
    · have hmatch : Reference.matchOptOut U (Reference.canonicalize U body) = some keyword := by
        rw [matchOptOut_eq, hk]
      rcases Reference.evaluate_cases hr with ⟨t, ht, rfl⟩ | ⟨hnone, -⟩
      · rw [Option.some.inj (ht.symm.trans hmatch)]
      · exact nomatch hnone.symm.trans hmatch
  · rw [keywordHit_eq, keywordHit_eq, hsame]

end Outreach.Guardrails
