import Outreach.Library.Pattern
import Outreach.Library.Words

/-!
# The Python guardrails: `guardrails/text.py` and `guardrails/rules.py`

Text is a list of code points. NFKC, case folding and the word class of `re`
come from the Unicode tables `U`. Everything else is computed here, under the
names of the source.
-/

namespace Outreach.Guardrails

open Outreach.Library

set_option autoImplicit false

/-- The action names that both implementations return. -/
inductive Action where
  | suppressAndStop
  | humanReview
  | proceed
  deriving DecidableEq, Repr

/-- The rule names that both implementations return. -/
inductive Rule where
  | optOut
  | legalEscalation
  | hostility
  | bounceOrAutoreply
  | loopBreaker
  deriving DecidableEq, Repr

/-- `GuardrailResult` in Python and `Result` in Apex; `trigger` is the matched text. -/
structure GuardrailResult (τ : Type*) where
  action : Action
  rule : Option Rule := none
  trigger : Option τ := none
  deriving DecidableEq

def GuardrailResult.map {τ υ : Type*} (f : τ → υ) (r : GuardrailResult τ) : GuardrailResult υ :=
  ⟨r.action, r.rule, r.trigger.map f⟩

structure Message where
  body : Text
  direction : Text
  isAutoReply : Bool := false

namespace Reference

/-! ## `guardrails/text.py` -/

def confusables : List (Char × Char) :=
  [('\u0430', 'a'), ('\u0432', 'b'), ('\u0435', 'e'), ('\u043a', 'k'), ('\u043c', 'm'),
    ('\u043e', 'o'), ('\u0440', 'p'), ('\u0441', 'c'), ('\u0455', 's'), ('\u0442', 't'),
    ('\u0443', 'y'), ('\u0445', 'x'), ('\u0456', 'i'), ('\u0458', 'j'), ('\u03b1', 'a'),
    ('\u03bf', 'o'), ('\u03bd', 'v')]

def zeroWidth : List Char := ['\u200b', '\u200c', '\u200d', '\u2060', '\ufeff']

def confuse (c : Char) : Char := (confusables.lookup c).getD c

/-- `.translate(_CONFUSABLES).translate(_ZERO_WIDTH)` -/
def translate (s : Text) : Text := (s.map confuse).filter fun c => !zeroWidth.contains c

def fold (U : UnicodeData) (text : Text) : Text := translate (U.casefold (U.nfkc text))

/-- The class `[a-z0-9]` that `_NON_WORD_RE` negates. -/
def isKeyChar (c : Char) : Bool :=
  (97 ≤ c.toNat && c.toNat ≤ 122) || (48 ≤ c.toNat && c.toNat ≤ 57)

def canonicalize (U : UnicodeData) (text : Text) : Text :=
  stripBy isSpace (collapse isKeyChar ' ' (fold U text))

/-- The length of the common prefix, by the scan over `a`. -/
def commonPrefix {α : Type*} [DecidableEq α] : List α → List α → Nat
  | [], _ => 0
  | _ :: _, [] => 0
  | x :: a, y :: b => if x = y then commonPrefix a b + 1 else 0

def withinEditDistance1 (a b : Text) : Bool :=
  if a = b then true
  else if a.length + 1 < b.length ∨ b.length + 1 < a.length then false
  else if a.length = b.length then ((a.zip b).filter fun p => p.1 != p.2).length == 1
  else
    let (a, b) := if b.length < a.length then (b, a) else (a, b)
    let p := commonPrefix a b
    decide (a.drop p = b.drop (p + 1))

/-! ## `guardrails/rules.py` -/

def channels : List Text := ["sms".toList, "email".toList]

def optOutKeywords : List Text :=
  ["stop".toList, "stopall".toList, "unsubscribe".toList, "cancel".toList, "end".toList,
    "quit".toList, "revoke".toList, "optout".toList, "opt out".toList, "remove me".toList]

def minFuzzyLength : Nat := 4

def stopImperative : Pattern Char :=
  .seq (.opt (.literal "please ".toList)) (.seq (.literal "stop ".toList)
    (.seq (.oneOf ["texting".toList, "sending".toList, "messaging".toList, "contacting".toList,
      "emailing".toList, "calling".toList]) .boundary))

def legalPrefixes : List Text :=
  ["attorney".toList, "lawyer".toList, "lawsuit".toList, "tcpa".toList, "fcc".toList,
    "complaint".toList, "harass".toList]

def legalTokens : List Text := ["sue".toList, "sues".toList, "sued".toList, "suing".toList]

def legalPhrases : List Text := ["report you".toList]

def hostilityWords : List Text :=
  ["fuck".toList, "fucking".toList, "shit".toList, "bullshit".toList, "asshole".toList,
    "bitch".toList]

def hostilityPhrases : List Text :=
  ["screw you".toList, "piss off".toList, "go to hell".toList, "leave me alone".toList]

def autoreplyMarkers : List Text :=
  ["out of office".toList, "out of the office".toList, "automatic reply".toList,
    "auto reply".toList, "autoreply".toList, "auto submitted".toList, "auto generated".toList,
    "on vacation".toList, "away from the office".toList]

def bouncePhrases : List Text :=
  ["delivery status notification".toList, "undeliverable".toList,
    "could not be delivered".toList, "mail delivery failed".toList,
    "mailbox unavailable".toList]

section Codes

variable (U : UnicodeData) (alnum : Char → Bool)

/-- `\w` of `re` on `str`. -/
def word (c : Char) : Bool := alnum c || c = '_'

def dsnCode : Pattern Char :=
  .seq .boundary (.seq (.literal "5.".toList) (.seq (.sat U.decimal) (.seq (.literal ".".toList)
    (.seq (.sat U.decimal) (.seq (.opt (.seq (.sat U.decimal) (.opt (.sat U.decimal))))
      .boundary)))))

def smtpCode : Pattern Char :=
  .seq .boundary (.seq (.literal "55".toList)
    (.seq (.sat fun c => 48 ≤ c.toNat && c.toNat ≤ 52) .boundary))

end Codes

def fuzzyWholeMatch (text keyword : Text) : Bool :=
  if text = keyword then true
  else decide (minFuzzyLength ≤ keyword.length) && withinEditDistance1 text keyword

def despace (s : Text) : Text := s.filter fun c => c != ' '

variable (U : UnicodeData)

def matchOptOut (canon : Text) : Option Text :=
  let despaced := despace canon
  match optOutKeywords.find? fun keyword =>
      fuzzyWholeMatch canon keyword || fuzzyWholeMatch despaced (despace keyword) with
  | some keyword => some keyword
  | none => stopImperative.matchStart (word U.alnum) canon

/-- One token of the legal loop: the token itself, else the first prefix it has. -/
def legalHit (token : Text) : Option Text :=
  if token ∈ legalTokens then some token
  else legalPrefixes.find? fun p => p.isPrefixOf token

def matchLegal (canon : Text) : Option Text :=
  match legalPhrases.find? fun phrase => hasInfix phrase canon with
  | some phrase => some phrase
  | none => (splitWords isSpace canon).findSome? legalHit

def matchHostility (canon : Text) : Option Text :=
  match hostilityPhrases.find? fun phrase => hasInfix phrase canon with
  | some phrase => some phrase
  | none => (splitWords isSpace canon).find? fun token => decide (token ∈ hostilityWords)

def matchBounceOrAutoreply (canon folded channel : Text) : Option Text :=
  match autoreplyMarkers.find? fun marker => hasInfix marker canon with
  | some marker => some marker
  | none =>
      if channel = "email".toList then
        match bouncePhrases.find? fun phrase => hasInfix phrase canon with
        | some phrase => some phrase
        | none =>
            match (dsnCode U).find (word U.alnum) folded with
            | some dsn => some dsn
            | none => smtpCode.find (word U.alnum) folded
      else none

def autoReplyCount (thread : List Message) : Nat :=
  (thread.filter fun m => decide (m.direction = "outbound".toList) && m.isAutoReply).length

/-- `none` is the `ValueError` for an unknown channel. -/
def evaluate (body : Text) (thread : List Message) (channel : Text) :
    Option (GuardrailResult Text) :=
  if channel ∉ channels then none
  else
    let canon := canonicalize U body
    let folded := fold U body
    some <|
      match matchOptOut U canon with
      | some t => ⟨.suppressAndStop, some .optOut, some t⟩
      | none =>
      match matchLegal canon with
      | some t => ⟨.humanReview, some .legalEscalation, some t⟩
      | none =>
      match matchHostility canon with
      | some t => ⟨.humanReview, some .hostility, some t⟩
      | none =>
      match matchBounceOrAutoreply U canon folded channel with
      | some t => ⟨.humanReview, some .bounceOrAutoreply, some t⟩
      | none =>
      if 2 ≤ autoReplyCount thread then
        ⟨.humanReview, some .loopBreaker, some "2 auto-replies in thread".toList⟩
      else ⟨.proceed, none, none⟩

theorem evaluate_isSome {body : Text} {thread : List Message} {channel : Text} :
    (evaluate U body thread channel).isSome = true ↔ channel ∈ channels := by
  unfold evaluate
  split
  · rename_i h
    exact iff_of_false Bool.false_ne_true h
  · rename_i h
    exact iff_of_true rfl (not_not.mp h)

variable {U} in
/-- Each rule comes with its action, and opt-outs come first. -/
theorem evaluate_cases {body : Text} {thread : List Message} {channel : Text}
    {r : GuardrailResult Text} (h : evaluate U body thread channel = some r) :
    (∃ t, matchOptOut U (canonicalize U body) = some t ∧
      r = ⟨.suppressAndStop, some .optOut, some t⟩) ∨
    (matchOptOut U (canonicalize U body) = none ∧
      ((∃ rule t, rule ≠ .optOut ∧ r = ⟨.humanReview, some rule, some t⟩) ∨
        r = ⟨.proceed, none, none⟩)) := by
  unfold evaluate at h
  split at h
  · exact nomatch h
  · cases h
    cases matchOptOut U (canonicalize U body) with
    | some t => exact Or.inl ⟨t, rfl, rfl⟩
    | none =>
      refine Or.inr ⟨rfl, ?_⟩
      simp only
      split
      · exact Or.inl ⟨_, _, by decide, rfl⟩
      split
      · exact Or.inl ⟨_, _, by decide, rfl⟩
      split
      · exact Or.inl ⟨_, _, by decide, rfl⟩
      split
      · exact Or.inl ⟨_, _, by decide, rfl⟩
      · exact Or.inr rfl

variable {U} in
theorem suppresses_iff {body : Text} {thread : List Message} {channel : Text}
    {r : GuardrailResult Text} (h : evaluate U body thread channel = some r) :
    r.action = .suppressAndStop ↔ (matchOptOut U (canonicalize U body)).isSome = true := by
  rcases evaluate_cases h with ⟨t, ht, rfl⟩ | ⟨hnone, ⟨rule, t, -, rfl⟩ | rfl⟩
  · rw [ht]
    exact iff_of_true rfl rfl
  · rw [hnone]
    exact iff_of_false (fun h => nomatch h) Bool.false_ne_true
  · rw [hnone]
    exact iff_of_false (fun h => nomatch h) Bool.false_ne_true

end Reference

end Outreach.Guardrails
