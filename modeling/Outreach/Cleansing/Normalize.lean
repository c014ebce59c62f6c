import Outreach.Library.Words

/-!
# Canonical identifiers: `cleansing/normalize.py` and `cleansing/identity.py`

One definition of "the same phone number" and "the same address", shared by the
pipeline and by the suppression list. The `phonenumbers` package is a parameter;
what is used of it is in `PhoneNumbers.Lawful`. Anything that cannot be
normalized is `none`.
-/

namespace Outreach.Cleansing

open Outreach.Library

set_option autoImplicit false

/-- The package `phonenumbers`; a failed `parse` is a `NumberParseException`. -/
structure PhoneNumbers (ν : Type) where
  parse : Text → Text → Option ν
  isValidNumber : ν → Bool
  formatE164 : ν → Text

def defaultRegion : Text := "US".toList

/-- The documented E.164 output: a plus and digits, which parse back to the same form. -/
structure PhoneNumbers.Lawful {ν : Type} (P : PhoneNumbers ν) : Prop where
  shape : ∀ n, P.isValidNumber n = true →
    ∃ ds, P.formatE164 n = '+' :: ds ∧ ∀ d ∈ ds, d.isDigit = true
  stable : ∀ n, P.isValidNumber n = true →
    ∃ m, P.parse (P.formatE164 n) defaultRegion = some m ∧ P.isValidNumber m = true ∧
      P.formatE164 m = P.formatE164 n

def zeroWidth : List Char := ['\u200b', '\u200c', '\u200d', '\u2060', '\ufeff']

/-- `phonenumbers` on numbers that are written in E.164 already, twelve characters long. -/
def PhoneNumbers.e164 : PhoneNumbers Text where
  parse t _ := if t.head? = some '+' ∧ t.tail.all Char.isDigit then some t else none
  isValidNumber t := decide (t.head? = some '+' ∧ t.tail.all Char.isDigit ∧ t.length = 12)
  formatE164 t := t

/-- A plus and digits, taken apart. -/
theorem plus_digits {t : Text} (hhead : t.head? = some '+')
    (hdigits : t.tail.all Char.isDigit = true) :
    ∃ ds, t = '+' :: ds ∧ ∀ d ∈ ds, d.isDigit = true := by
  cases t with
  | nil => exact nomatch hhead
  | cons c ds =>
    cases hhead
    exact ⟨ds, rfl, fun d hd => List.all_eq_true.mp hdigits d hd⟩

theorem PhoneNumbers.e164_lawful : PhoneNumbers.e164.Lawful where
  shape n hn := by
    obtain ⟨hhead, hdigits, -⟩ := of_decide_eq_true hn
    exact plus_digits hhead hdigits
  stable n hn := by
    obtain ⟨hhead, hdigits, hlen⟩ := of_decide_eq_true hn
    exact ⟨n, if_pos ⟨hhead, hdigits⟩, hn, rfl⟩

/-- `phonenumbers` on numbers that are written in E.164 already, of eight to fifteen digits. -/
def PhoneNumbers.worldwide : PhoneNumbers Text where
  parse t _ := if t.head? = some '+' ∧ t.tail.all Char.isDigit then some t else none
  isValidNumber t := decide (t.head? = some '+' ∧ t.tail.all Char.isDigit ∧ 8 ≤ t.tail.length ∧
    t.tail.length ≤ 15)
  formatE164 t := t

theorem PhoneNumbers.worldwide_lawful : PhoneNumbers.worldwide.Lawful where
  shape n hn := by
    obtain ⟨hhead, hdigits, -⟩ := of_decide_eq_true hn
    exact plus_digits hhead hdigits
  stable n hn := by
    obtain ⟨hhead, hdigits, hlen⟩ := of_decide_eq_true hn
    exact ⟨n, if_pos ⟨hhead, hdigits⟩, hn, rfl⟩

section Normalize

variable {ν : Type} (U : UnicodeData) (P : PhoneNumbers ν)

/-- `_clean` -/
def clean (raw : Text) : Text :=
  stripBy isSpace ((U.nfkc raw).filter fun c => !zeroWidth.contains c)

def normalizePhone (raw : Option Text) : Option Text := do
  let text := clean U (← raw)
  if text = [] then none
  else
    let parsed ← P.parse text defaultRegion
    if P.isValidNumber parsed then some (P.formatE164 parsed) else none

def normalizeCompany (raw : Option Text) : Option Text := do
  let collapsed := List.intercalate [' '] (splitWords isSpace (clean U (← raw)))
  if collapsed = [] then none else some collapsed

def normalizeEmail (raw : Option Text) : Option Text := do
  let text := U.casefold (clean U (← raw))
  if text = [] ∨ text.any isSpace then none
  else
    let (whole, domain) ← rpartition '@' text
    if domain = [] ∨ '.' ∉ domain then none
    else
      let user := whole.takeWhile fun c => c != '+'
      if user = [] then none else some (user ++ '@' :: domain)

/-- The dedupe key over the normalized identifiers. -/
def normalizedKey (phone email : Option Text) : Text := phone.getD [] ++ '|' :: email.getD []

theorem normalizePhone_eq_some {raw : Option Text} {n : Text} :
    normalizePhone U P raw = some n ↔ ∃ r v, raw = some r ∧ clean U r ≠ [] ∧
      P.parse (clean U r) defaultRegion = some v ∧ P.isValidNumber v = true ∧
        P.formatE164 v = n := by
  cases raw with
  | none => simp [normalizePhone]
  | some r =>
    by_cases hc : clean U r = []
    · simp [normalizePhone, hc]
    · cases hp : P.parse (clean U r) defaultRegion with
      | none => simp [normalizePhone, hc, hp]
      | some v => simp [normalizePhone, hc, hp]

theorem digit_range {d : Char} (h : d.isDigit = true) : 48 ≤ d.toNat ∧ d.toNat ≤ 57 := by
  simp only [Char.isDigit, Bool.and_eq_true, decide_eq_true_eq] at h
  exact h

/-- A text of a plus and digits is clean. -/
theorem clean_digits {ds : Text} (h : ∀ d ∈ ds, d.isDigit = true) :
    clean U ('+' :: ds) = '+' :: ds := by
  have hrange : ∀ c ∈ '+' :: ds, c.toNat = 43 ∨ (48 ≤ c.toNat ∧ c.toNat ≤ 57) := by
    intro c hc
    rcases List.mem_cons.mp hc with rfl | hd
    · exact Or.inl rfl
    · exact Or.inr (digit_range (h c hd))
  have hascii : ∀ c ∈ '+' :: ds, isAscii c = true := by
    intro c hc
    have := hrange c hc
    simp only [isAscii, decide_eq_true_eq]
    omega
  have hkeep : ∀ c ∈ '+' :: ds, (!zeroWidth.contains c) = true := by
    intro c hc
    have hr := hrange c hc
    rw [Bool.not_eq_true', List.contains_eq_mem, decide_eq_false_iff_not]
    intro hz
    have hz' : c.toNat ∈ zeroWidth.map Char.toNat := List.mem_map_of_mem hz
    have hlist : zeroWidth.map Char.toNat = [8203, 8204, 8205, 8288, 65279] := by decide
    rw [hlist] at hz'
    simp only [List.mem_cons, List.not_mem_nil, or_false] at hz'
    omega
  have hspace : ∀ c ∈ '+' :: ds, isSpace c = false := by
    intro c hc
    have hr := hrange c hc
    simp only [isSpace, Bool.or_eq_false_iff, Bool.and_eq_false_iff, decide_eq_false_iff_not]
    omega
  rw [clean, U.nfkc_ascii _ hascii, List.filter_eq_self.mpr hkeep, stripBy_of_none hspace]

/-- A normalized phone is its own normal form. -/
theorem normalizePhone_idem (hP : P.Lawful) {raw : Option Text} {n : Text}
    (h : normalizePhone U P raw = some n) : normalizePhone U P (some n) = some n := by
  obtain ⟨r, v, -, -, -, hv, rfl⟩ := (normalizePhone_eq_some U P).mp h
  obtain ⟨ds, hds, hdigits⟩ := hP.shape v hv
  obtain ⟨m, hm, hvalid, hsame⟩ := hP.stable v hv
  have hclean : clean U (P.formatE164 v) = P.formatE164 v := by
    rw [hds]
    exact clean_digits U hdigits
  refine (normalizePhone_eq_some U P).mpr ⟨_, m, rfl, ?_, ?_, hvalid, hsame⟩
  · rw [hclean, hds]
    exact List.cons_ne_nil _ _
  · rw [hclean]
    exact hm

/-- A normalized phone is a plus and digits. -/
theorem normalizePhone_shape (hP : P.Lawful) {raw : Option Text} {n : Text}
    (h : normalizePhone U P raw = some n) :
    ∃ ds, n = '+' :: ds ∧ ∀ d ∈ ds, d.isDigit = true := by
  obtain ⟨r, v, -, -, -, hv, rfl⟩ := (normalizePhone_eq_some U P).mp h
  exact hP.shape v hv

/-- A normalized address has its sign. -/
theorem normalizeEmail_shape {raw : Option Text} {n : Text}
    (h : normalizeEmail U raw = some n) : ∃ user domain, n = user ++ '@' :: domain := by
  obtain ⟨r, -, h⟩ := Option.bind_eq_some_iff.mp h
  simp only at h
  split at h
  · exact nomatch h
  obtain ⟨⟨whole, domain⟩, -, h⟩ := Option.bind_eq_some_iff.mp h
  simp only at h
  split at h
  · exact nomatch h
  split at h
  · exact nomatch h
  · exact ⟨_, _, (Option.some.inj h).symm⟩

end Normalize

end Outreach.Cleansing
