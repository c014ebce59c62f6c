import Outreach.Guardrails.Reference
import Outreach.Library.Python

/-!
# The pattern buckets: `classifier/buckets.py`

The intent of a reply, and the evidence for it: the guardrail rule if one has an
intent, else the first bucket that matches. The two regular expressions have no
choice to take back, so they are read from left to right.
-/

namespace Outreach.Classifier

open Outreach.Library Outreach.Guardrails

set_option autoImplicit false

inductive Intent where
  | optOut
  | legalEscalation
  | hostile
  | autoReply
  | amountGiven
  | interested
  | question
  | requestMoreInfo
  | callRequest
  | processUpdate
  | notInterested
  | wrongPerson
  | unclear
  deriving DecidableEq, Repr

def Intent.name : Intent → Text
  | optOut => "Opt_Out".toList
  | legalEscalation => "Legal_Escalation".toList
  | hostile => "Hostile".toList
  | autoReply => "Auto_Reply".toList
  | amountGiven => "Amount_Given".toList
  | interested => "Interested".toList
  | question => "Question".toList
  | requestMoreInfo => "Request_More_Info".toList
  | callRequest => "Call_Request".toList
  | processUpdate => "Process_Update".toList
  | notInterested => "Not_Interested".toList
  | wrongPerson => "Wrong_Person".toList
  | unclear => "Unclear".toList

def ruleName : Rule → Text
  | .optOut => "opt_out".toList
  | .legalEscalation => "legal_escalation".toList
  | .hostility => "hostility".toList
  | .bounceOrAutoreply => "bounce_or_autoreply".toList
  | .loopBreaker => "loop_breaker".toList

/-- `GUARDRAIL_INTENT` -/
def guardrailIntent : Rule → Option Intent
  | .optOut => some .optOut
  | .legalEscalation => some .legalEscalation
  | .hostility => some .hostile
  | .bounceOrAutoreply => some .autoReply
  | .loopBreaker => none

def affirmatives : List Str :=
  [Str.ofString "yes", Str.ofString "ok", Str.ofString "okay", Str.ofString "sure",
    Str.ofString "yep", Str.ofString "yeah", Str.ofString "yes please", Str.ofString "absolutely",
    Str.ofString "sounds good", Str.ofString "y"]

def processWords : List Str :=
  [Str.ofString "sent", Str.ofString "done", Str.ofString "submitted", Str.ofString "uploaded",
    Str.ofString "sent it", Str.ofString "all sent"]

def declines : List Str :=
  [Str.ofString "no", Str.ofString "nope", Str.ofString "no thanks", Str.ofString "no thank you",
    Str.ofString "we're good", Str.ofString "were good", Str.ofString "im good",
    Str.ofString "i'm good", Str.ofString "all set", Str.ofString "not now",
    Str.ofString "not yet", Str.ofString "pass"]

def declinePhrases : List Str :=
  [Str.ofString "not interested", Str.ofString "already funded", Str.ofString "we have funding"]

def requestInfoKeywords : List Str :=
  [Str.ofString "email me", Str.ofString "send me", Str.ofString "send info",
    Str.ofString "more info", Str.ofString "website", Str.ofString "your email",
    Str.ofString "company profile", Str.ofString "send over"]

def callKeywords : List Str :=
  [Str.ofString "call me", Str.ofString "give me a call", Str.ofString "please call",
    Str.ofString "can't get text", Str.ofString "cant get text",
    Str.ofString "can't receive text", Str.ofString "cant receive text"]

def wrongKeywords : List Str :=
  [Str.ofString "wrong number", Str.ofString "wrong person", Str.ofString "doesn't work here",
    Str.ofString "doesnt work here", Str.ofString "no longer with", Str.ofString "not my number"]

/-! ## `AMOUNT_RE` and `EMAIL_RE` -/

/-- `re.IGNORECASE`: the letters beyond ASCII that match a small ASCII letter. -/
def caseVariants : List (Char × Char) :=
  [('\u0130', 'i'), ('\u0131', 'i'), ('\u017f', 's'), ('\u212a', 'k')]

def sameIgnoringCase (c : CodePoint) (d : Char) : Bool :=
  c.sat fun c => c.toLower = d || caseVariants.contains (c, d)

def amountSuffixes : List Text :=
  ["k".toList, "m".toList, "mm".toList, "mil".toList, "million".toList, "thousand".toList,
    "grand".toList]

/-- The symbol is optional at the head. -/
def dropOne (p : CodePoint → Bool) : Str → Str
  | [] => []
  | c :: s => if p c then s else c :: s

section Patterns

variable (U : UnicodeData)

/-- `AMOUNT_RE.fullmatch` -/
def amountMatches (s : Str) : Bool :=
  match dropOne (CodePoint.sat isSpace) (dropOne (· = .scalar '$') s) with
  | [] => false
  | c :: s =>
      let rest := (s.dropWhile (CodePoint.sat fun c => U.decimal c || c = ',' || c = '.')).dropWhile
        (CodePoint.sat isSpace)
      c.sat U.decimal && (rest.isEmpty || amountSuffixes.any fun suffix =>
        decide (rest.length = suffix.length) &&
          (rest.zip suffix).all fun p => sameIgnoringCase p.1 p.2)

def isWord (c : CodePoint) : Bool := c.sat (Reference.word U.alnum)

/-- What `EMAIL_RE` asks for behind the `@`. -/
def domainFollows (s : Str) : Bool :=
  let label : CodePoint → Bool := fun c => isWord U c || c = .scalar '-'
  !(s.takeWhile label).isEmpty &&
    match s.dropWhile label with
    | dot :: c :: _ => dot = .scalar '.' && (isWord U c || c = .scalar '.')
    | _ => false

/-- `EMAIL_RE.search`; `inUser` says that the code point before may end the user part. -/
def containsEmail (inUser : Bool) : Str → Bool
  | [] => false
  | c :: s =>
      (inUser && c = .scalar '@' && domainFollows U s) ||
        containsEmail
          (isWord U c || c = .scalar '.' || c = .scalar '+' || c = .scalar '-') s

end Patterns

/-! ## `bucket_intent` -/

section Bucket

variable {φ : Type} (py : Python φ)

/-- `f"{label}: {value!r}"` -/
def evidenceOf (label : String) (value : Str) : Str := Str.ofString label ++ py.reprStr value

/-- `" ".join(body.split()).strip().lower()` -/
def squeezed (body : Str) : Str :=
  Str.mapText py.unicode.lower [] (stripBy (CodePoint.sat isSpace)
    (List.intercalate [.scalar ' '] (splitWords (CodePoint.sat isSpace) body)))

/-- `text.rstrip(".!,")` -/
def bareOf (text : Str) : Str :=
  (text.reverse.dropWhile fun c => c = .scalar '.' || c = .scalar '!' || c = .scalar ',').reverse

/-- The buckets after the guardrails. -/
def pickBucket (body text bare : Str) : Intent × Str :=
  if !bare.isEmpty && amountMatches py.unicode bare then
    (.amountGiven, evidenceOf py "bare amount pattern: " bare)
  else if bare ∈ affirmatives then (.interested, evidenceOf py "short affirmative: " bare)
  else if text.getLast? = some (.scalar '?') then (.question, Str.ofString "ends with '?'")
  else if containsEmail py.unicode false body then
    (.requestMoreInfo, Str.ofString "contains an email address")
  else
    match requestInfoKeywords.find? fun keyword => hasInfix keyword text with
    | some keyword => (.requestMoreInfo, evidenceOf py "keyword: " keyword)
    | none =>
    match callKeywords.find? fun keyword => hasInfix keyword text with
    | some keyword => (.callRequest, evidenceOf py "keyword: " keyword)
    | none =>
    if bare ∈ processWords ∨ (Str.ofString "just sent").isPrefixOf bare then
      (.processUpdate, evidenceOf py "process word: " bare)
    else if bare ∈ declines ∨ declinePhrases.any fun phrase => hasInfix phrase text then
      (.notInterested, Str.ofString "decline phrasing")
    else if hasInfix (Str.ofString "interested") text then
      (.interested, Str.ofString "contains 'interested' with no decline phrasing")
    else
      match wrongKeywords.find? fun keyword => hasInfix keyword text with
      | some keyword => (.wrongPerson, evidenceOf py "keyword: " keyword)
      | none => (.unclear, Str.ofString "no bucket matched (TAXONOMY.md: honest default)")

def bucketIntent (body : Str) (guardrail : GuardrailResult Text) : Intent × Str :=
  match guardrail.rule.bind fun rule => (guardrailIntent rule).map fun intent => (intent, rule) with
  | some (intent, rule) => (intent, Str.ofString "guardrail rule " ++ Str.ofText (ruleName rule))
  | none => pickBucket py body (squeezed py body) (bareOf (squeezed py body))

end Bucket

end Outreach.Classifier
