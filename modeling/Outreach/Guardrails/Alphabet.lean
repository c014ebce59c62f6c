import Outreach.Guardrails.Matching

/-!
# The two folds agree on the fold's alphabet

The alphabet is ASCII, fullwidth ASCII, the two compatibility spaces, the five
zero-width characters and the listed lookalikes in both cases. `Conforms` says
what Unicode says of these characters and of no others. On texts over the
alphabet the Apex fold is the Python fold, so the two `evaluate` functions
return the same result for every thread and both channels.
-/

namespace Outreach.Guardrails

open Outreach.Library

set_option autoImplicit false

/-- Compatibility normalization of one character of the alphabet. -/
def compat (c : Char) : Char :=
  if 0xFF01 ≤ c.toNat ∧ c.toNat ≤ 0xFF5E then Char.ofNat (c.toNat - 0xFEE0)
  else if c.toNat = 0xA0 ∨ c.toNat = 0x3000 then ' '
  else c

/-- Lower case of one character of the alphabet: Latin, fullwidth, Greek, Cyrillic. -/
def lowerChar (c : Char) : Char :=
  let n := c.toNat
  if (0x41 ≤ n ∧ n ≤ 0x5A) ∨ (0xFF21 ≤ n ∧ n ≤ 0xFF3A) ∨ (0x391 ≤ n ∧ n ≤ 0x39F) ∨
      (0x410 ≤ n ∧ n ≤ 0x42F) then Char.ofNat (n + 0x20)
  else if 0x400 ≤ n ∧ n ≤ 0x40F then Char.ofNat (n + 0x50)
  else c

/-- The capitals of the listed lookalikes, in the order of the table. -/
def confusableCapitals : List Char :=
  ['\u0410', '\u0412', '\u0415', '\u041a', '\u041c', '\u041e', '\u0420', '\u0421', '\u0405',
    '\u0422', '\u0423', '\u0425', '\u0406', '\u0408', '\u0391', '\u039f', '\u039d']

def alphabet : List Char :=
  (List.range 128).map Char.ofNat ++ (List.range 94).map (fun i => Char.ofNat (0xFF01 + i)) ++
    ['\u00a0', '\u3000'] ++ Reference.zeroWidth ++ Reference.confusables.map Prod.fst ++
    confusableCapitals

/-- The tables say of the alphabet what Unicode says of it. -/
structure Conforms (U : UnicodeData) : Prop where
  decomp : ∀ c ∈ alphabet, U.decomp c = [compat c]
  ccc : ∀ c ∈ alphabet, U.ccc (compat c) = 0
  compose : ∀ a ∈ alphabet, ∀ b ∈ alphabet, U.compose (compat a) (compat b) = none
  foldCase : ∀ c ∈ alphabet, U.foldCase (compat c) = [lowerChar (compat c)]
  lowerCase : ∀ c ∈ alphabet, U.lowerCase c = [lowerChar c]

/-- Both folds on one character of the alphabet; `none` for a zero-width character. -/
def foldChar (c : Char) : Option Char :=
  let d := Reference.confuse (lowerChar (compat c))
  if Reference.zeroWidth.contains d then none else some d

theorem lowerChar_bmp : ∀ c ∈ alphabet, (lowerChar c).toNat < 0x10000 :=
  List.all_iff_forall_prop.mp (by decide +kernel)

theorem foldUnit_lowerChar :
    ∀ c ∈ alphabet, Port.foldUnit (lowerChar c).toNat = (foldChar c).map Char.toNat :=
  List.all_iff_forall_prop.mp (by decide +kernel)

theorem foldChar_ascii : ∀ c ∈ alphabet, ∀ d ∈ foldChar c, isAscii d = true := by
  have h : ∀ c ∈ alphabet, (foldChar c).all isAscii = true :=
    List.all_iff_forall_prop.mp (by decide +kernel)
  intro c hc d hd
  have hcd := h c hc
  rw [Option.mem_def.mp hd] at hcd
  exact hcd

theorem sigma_not_mem : 'Σ' ∉ alphabet := by decide +kernel

theorem translate_map (s : Text) :
    Reference.translate (s.map fun c => lowerChar (compat c)) = s.filterMap foldChar := by
  induction s with
  | nil => rfl
  | cons c cs ih =>
    rw [List.filterMap_cons, ← ih]
    simp only [Reference.translate, List.map_cons, List.filter_cons, foldChar]
    cases Reference.zeroWidth.contains (Reference.confuse (lowerChar (compat c))) <;> rfl

section Fold

variable {U : UnicodeData} {body : Text}

theorem fold_reference (hU : Conforms U) (hb : ∀ c ∈ body, c ∈ alphabet) :
    Reference.fold U body = body.filterMap foldChar := by
  have hnfkc : U.nfkc body = body.map compat :=
    U.nfkc_of_inert compat body (fun c hc => hU.decomp c (hb c hc))
      (fun c hc => hU.ccc c (hb c hc)) fun a ha b hb' => hU.compose a (hb a ha) b (hb b hb')
  have hcase : U.casefold (body.map compat) = body.map fun c => lowerChar (compat c) := by
    rw [UnicodeData.casefold, List.flatMap_map, ← List.flatMap_singleton' (body.map _),
      List.flatMap_map]
    exact List.flatMap_congr fun c hc => hU.foldCase c (hb c hc)
  rw [Reference.fold, hnfkc, hcase, translate_map]

theorem fold_port (hU : Conforms U) (hb : ∀ c ∈ body, c ∈ alphabet) :
    Port.fold U body = codes (body.filterMap foldChar) := by
  have hlower : U.lower body = body.map lowerChar := by
    have hs : 'Σ' ∉ body := fun h => sigma_not_mem (hb _ h)
    rw [UnicodeData.lower, U.lowerFrom_of_no_sigma [] body hs,
      ← List.flatMap_singleton' (body.map lowerChar), List.flatMap_map]
    exact List.flatMap_congr fun c hc => hU.lowerCase c (hb c hc)
  have hbmp : ∀ c ∈ body.map lowerChar, c.toNat < 0x10000 := by
    intro c hc
    obtain ⟨a, ha, rfl⟩ := List.mem_map.mp hc
    exact lowerChar_bmp a (hb a ha)
  rw [Port.fold, hlower, utf16s_ascii _ hbmp, List.map_map, List.filterMap_map, codes,
    List.map_filterMap]
  exact List.filterMap_congr fun c hc => foldUnit_lowerChar c (hb c hc)

/-- On the alphabet the one-pass Apex fold is NFKC, casefold and two translates. -/
theorem fold_agrees (hU : Conforms U) (hb : ∀ c ∈ body, c ∈ alphabet) :
    Port.fold U body = codes (Reference.fold U body) := by
  rw [fold_port hU hb, fold_reference hU hb]

theorem fold_ascii (hU : Conforms U) (hb : ∀ c ∈ body, c ∈ alphabet) :
    AsciiText (Reference.fold U body) := by
  intro d hd
  rw [fold_reference hU hb, List.mem_filterMap] at hd
  obtain ⟨c, hc, hcd⟩ := hd
  exact foldChar_ascii c (hb c hc) d hcd

end Fold

/-- `trim` and `strip` agree on collapsed text, where the space is the only white space. -/
theorem strip_codes {s : Text} (hs : KeyText s) :
    stripBy (fun n => decide (n ≤ 32)) (codes s) = codes (stripBy isSpace s) := by
  refine stripBy_map fun c hc => ?_
  rw [hs.isSpace c hc, decide_eq_decide, ← toNat_injective.eq_iff]
  have := keyChar_range (hs c hc)
  show c.toNat ≤ 32 ↔ c.toNat = 32
  omega

theorem canonicalize_codes (s : Text) :
    Port.canonicalize (codes s) = codes (stripBy isSpace (collapse Reference.isKeyChar ' ' s)) := by
  have hc : collapse Port.isKeyUnit 32 (codes s) = codes (collapse Reference.isKeyChar ' ' s) :=
    @collapse_map _ _ Reference.isKeyChar ' ' Char.toNat Port.isKeyUnit s fun _ _ => rfl
  rw [Port.canonicalize, hc]
  exact strip_codes fun _ h => mem_collapseFrom h

theorem channel_known {channel : Text} (hch : channel ∈ Reference.channels) :
    (!Port.sameText (codes channel) (Port.units "sms") &&
      !Port.sameText (codes channel) (Port.units "email")) = false ∧ KeyText channel := by
  rcases List.mem_cons.mp hch with rfl | h
  · exact ⟨by decide, by decide⟩
  · rw [List.mem_singleton.mp h]
    exact ⟨by decide, by decide⟩

theorem count_codes (n : Nat) : (2 ≤ (some (n : Int)).getD 0) ↔ 2 ≤ n := by
  simp only [Option.getD_some]
  omega

/-- The Apex port refines the reference on the alphabet: the same action, rule
and matched text, unit for character. -/
theorem evaluate_refines (U : UnicodeData) (hU : Conforms U) (body : Text)
    (hb : ∀ c ∈ body, c ∈ alphabet) (thread : List Message) (channel : Text)
    (hch : channel ∈ Reference.channels) :
    ∃ r, Reference.evaluate U body thread channel = some r ∧
      Port.evaluate U (some body) (some (Reference.autoReplyCount thread)) (codes channel) =
        some (r.map codes) := by
  obtain ⟨hknown, hkey⟩ := channel_known hch
  have hfold := fold_agrees hU hb
  have hcanon : Port.canonicalize (codes (Reference.fold U body)) =
      codes (Reference.canonicalize U body) := canonicalize_codes _
  have hc := keyText_canonicalize U body
  refine ⟨_, if_neg (not_not.mpr hch), ?_⟩
  rw [Port.evaluate, hknown, if_neg Bool.false_ne_true]
  simp only [Option.getD_some, hfold, hcanon, matchOptOut_codes U hc, matchLegal_codes hc,
    matchHostility_codes hc, matchBounceOrAutoreply_codes U (fold_ascii hU hb) hkey]
  refine congrArg some ?_
  cases Reference.matchOptOut U (Reference.canonicalize U body) with
  | some t => rfl
  | none =>
  cases Reference.matchLegal (Reference.canonicalize U body) with
  | some t => rfl
  | none =>
  cases Reference.matchHostility (Reference.canonicalize U body) with
  | some t => rfl
  | none =>
  cases Reference.matchBounceOrAutoreply U (Reference.canonicalize U body)
      (Reference.fold U body) channel with
  | some t => rfl
  | none =>
  have hn := count_codes (Reference.autoReplyCount thread)
  rw [Option.getD_some] at hn
  simp only [Option.map_none, hn]
  split <;> rfl

/-- Tables with the rows of the alphabet and nothing else. -/
def alphabetTables : UnicodeData where
  decompTable c := [compat c]
  cccTable _ := 0
  composeTable _ _ := none
  foldCaseTable c := [lowerChar c]
  lowerCaseTable c := [lowerChar c]
  cased _ := false
  caseIgnorable _ := false
  alnumTable _ := false
  letterOrDigitTable _ := false
  decimalTable _ := false

theorem alphabetTables_conforms : Conforms alphabetTables where
  decomp := List.all_iff_forall_prop.mp (by decide +kernel)
  ccc := List.all_iff_forall_prop.mp (by decide +kernel)
  compose a _ b _ := by
    unfold UnicodeData.compose
    split <;> rfl
  foldCase := List.all_iff_forall_prop.mp (by decide +kernel)
  lowerCase := List.all_iff_forall_prop.mp (by decide +kernel)

/-- Fullwidth, Cyrillic, zero-width and ideographic-space letters of a stop. -/
theorem evaluate_refines_stop :
    ∃ r, Reference.evaluate alphabetTables ['Ｓ', 'т', '\u200b', 'О', '\u3000', 'p'] []
        "sms".toList = some r ∧
      Port.evaluate alphabetTables (some ['Ｓ', 'т', '\u200b', 'О', '\u3000', 'p'])
        (some (Reference.autoReplyCount [])) (codes "sms".toList) = some (r.map codes) :=
  evaluate_refines alphabetTables alphabetTables_conforms _
    (List.all_iff_forall_prop.mp (by decide +kernel)) [] _ (by decide)

end Outreach.Guardrails
