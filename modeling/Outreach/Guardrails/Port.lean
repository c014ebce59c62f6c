import Outreach.Guardrails.Reference

/-!
# The Apex guardrails: `OutreachGuardrails.cls`

An Apex `String` is a list of UTF-16 code units. `toLowerCase` works on the
characters of a well-formed string; the fold then runs over the code units of
the result, one branch for each. `==` between strings ignores case; all its
operands here are ASCII, so only ASCII case is folded in `sameText`.
-/

namespace Outreach.Guardrails.Port

open Outreach.Library

set_option autoImplicit false

abbrev ApexString := List Nat

def units (s : String) : ApexString := s.toList.map Char.toNat

def lowerUnit (n : Nat) : Nat := if 65 ≤ n ∧ n ≤ 90 then n + 32 else n

/-- `a == b` between Apex strings. -/
def sameText (a b : ApexString) : Bool := decide (a.map lowerUnit = b.map lowerUnit)

def optOutKeywords : List ApexString :=
  [units "stop", units "stopall", units "unsubscribe", units "cancel", units "end",
    units "quit", units "revoke", units "optout", units "opt out", units "remove me"]

def minFuzzyLength : Nat := 4

def stopImperative : Pattern Nat :=
  .seq (.opt (.literal (units "please "))) (.seq (.literal (units "stop "))
    (.seq (.oneOf [units "texting", units "sending", units "messaging", units "contacting",
      units "emailing", units "calling"]) .boundary))

def legalPrefixes : List ApexString :=
  [units "attorney", units "lawyer", units "lawsuit", units "tcpa", units "fcc",
    units "complaint", units "harass"]

def legalTokens : List ApexString := [units "sue", units "sues", units "sued", units "suing"]

def legalPhrases : List ApexString := [units "report you"]

def hostilityWords : List ApexString :=
  [units "fuck", units "fucking", units "shit", units "bullshit", units "asshole", units "bitch"]

def hostilityPhrases : List ApexString :=
  [units "screw you", units "piss off", units "go to hell", units "leave me alone"]

def autoreplyMarkers : List ApexString :=
  [units "out of office", units "out of the office", units "automatic reply",
    units "auto reply", units "autoreply", units "auto submitted", units "auto generated",
    units "on vacation", units "away from the office"]

def bouncePhrases : List ApexString :=
  [units "delivery status notification", units "undeliverable",
    units "could not be delivered", units "mail delivery failed", units "mailbox unavailable"]

/-- `\d` of a Java pattern. -/
def digit (n : Nat) : Bool := 48 ≤ n && n ≤ 57

def dsnCode : Pattern Nat :=
  .seq .boundary (.seq (.literal (units "5.")) (.seq (.sat digit) (.seq (.literal (units "."))
    (.seq (.sat digit) (.seq (.opt (.seq (.sat digit) (.opt (.sat digit)))) .boundary)))))

def smtpCode : Pattern Nat :=
  .seq .boundary (.seq (.literal (units "55"))
    (.seq (.sat fun n => 48 ≤ n && n ≤ 52) .boundary))

def confusables : List (Nat × Nat) :=
  [(1072, 97), (1074, 98), (1077, 101), (1082, 107), (1084, 109), (1086, 111), (1088, 112),
    (1089, 99), (1109, 115), (1090, 116), (1091, 121), (1093, 120), (1110, 105), (1112, 106),
    (945, 97), (959, 111), (957, 118)]

def zeroWidth : List Nat := [8203, 8204, 8205, 8288, 65279]

/-- One turn of the loop in `fold`; `none` drops the code unit. -/
def foldUnit (c : Nat) : Option Nat :=
  if 65281 ≤ c ∧ c ≤ 65374 then some (c - 65248)
  else if c = 160 ∨ c = 12288 then some 32
  else if zeroWidth.contains c then none
  else some ((confusables.lookup c).getD c)

def fold (U : UnicodeData) (text : Text) : ApexString := (utf16s (U.lower text)).filterMap foldUnit

/-- The class `[a-z0-9]` that `canonicalize` negates. -/
def isKeyUnit (n : Nat) : Bool := (97 ≤ n && n ≤ 122) || (48 ≤ n && n ≤ 57)

/-- `trim` drops the code units up to the space. -/
def canonicalize (folded : ApexString) : ApexString :=
  stripBy (fun n => decide (n ≤ 32)) (collapse isKeyUnit 32 folded)

def withinEditDistance1 (a b : ApexString) : Bool :=
  if sameText a b then true
  else if a.length + 1 < b.length ∨ b.length + 1 < a.length then false
  else if a.length = b.length then ((a.zip b).filter fun p => p.1 != p.2).length == 1
  else
    let (a, b) := if b.length < a.length then (b, a) else (a, b)
    let p := Reference.commonPrefix a b
    sameText (a.drop p) (b.drop (p + 1))

def fuzzyWholeMatch (text keyword : ApexString) : Bool :=
  if sameText text keyword then true
  else decide (minFuzzyLength ≤ keyword.length) && withinEditDistance1 text keyword

def despace (s : ApexString) : ApexString := s.filter fun c => c != 32

/-- The characters a `Matcher` sees: surrogate pairs are joined. -/
def codePoints : ApexString → List Nat
  | hi :: lo :: rest =>
      if 0xD800 ≤ hi ∧ hi < 0xDC00 ∧ 0xDC00 ≤ lo ∧ lo < 0xE000 then
        (0x10000 + (hi - 0xD800) * 0x400 + (lo - 0xDC00)) :: codePoints rest
      else hi :: codePoints (lo :: rest)
  | s => s

variable (U : UnicodeData)

/-- The word class behind `\b` of a Java pattern. -/
def word (n : Nat) : Bool := U.letterOrDigit (Char.ofNat n) || n = 95

def matchOptOut (canon : ApexString) : Option ApexString :=
  let despaced := despace canon
  match optOutKeywords.find? fun keyword =>
      fuzzyWholeMatch canon keyword || fuzzyWholeMatch despaced (despace keyword) with
  | some keyword => some keyword
  | none => stopImperative.matchStart (word U) (codePoints canon)

def legalHit (token : ApexString) : Option ApexString :=
  if token ∈ legalTokens then some token
  else legalPrefixes.find? fun p => p.isPrefixOf token

def matchLegal (canon : ApexString) : Option ApexString :=
  match legalPhrases.find? fun phrase => hasInfix phrase canon with
  | some phrase => some phrase
  | none => (javaSplit 32 canon).findSome? legalHit

def matchHostility (canon : ApexString) : Option ApexString :=
  match hostilityPhrases.find? fun phrase => hasInfix phrase canon with
  | some phrase => some phrase
  | none => (javaSplit 32 canon).find? fun token => decide (token ∈ hostilityWords)

def matchBounceOrAutoreply (canon folded channel : ApexString) : Option ApexString :=
  match autoreplyMarkers.find? fun marker => hasInfix marker canon with
  | some marker => some marker
  | none =>
      if sameText channel (units "email") then
        match bouncePhrases.find? fun phrase => hasInfix phrase canon with
        | some phrase => some phrase
        | none =>
            match dsnCode.find (word U) (codePoints folded) with
            | some dsn => some dsn
            | none => smtpCode.find (word U) (codePoints folded)
      else none

/-- `none` is the `IllegalArgumentException` for an unknown channel. -/
def evaluate (body : Option Text) (priorAutoReplies : Option Int) (channel : ApexString) :
    Option (GuardrailResult ApexString) :=
  if !sameText channel (units "sms") && !sameText channel (units "email") then none
  else
    let folded := fold U (body.getD [])
    let canon := canonicalize folded
    some <|
      match matchOptOut U canon with
      | some hit => ⟨.suppressAndStop, some .optOut, some hit⟩
      | none =>
      match matchLegal canon with
      | some hit => ⟨.humanReview, some .legalEscalation, some hit⟩
      | none =>
      match matchHostility canon with
      | some hit => ⟨.humanReview, some .hostility, some hit⟩
      | none =>
      match matchBounceOrAutoreply U canon folded channel with
      | some hit => ⟨.humanReview, some .bounceOrAutoreply, some hit⟩
      | none =>
      if 2 ≤ priorAutoReplies.getD 0 then
        ⟨.humanReview, some .loopBreaker, some (units "2 auto-replies in thread")⟩
      else ⟨.proceed, none, none⟩

end Outreach.Guardrails.Port
