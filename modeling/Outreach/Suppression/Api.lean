import Outreach.Suppression.Store

/-!
# The suppression endpoint: `suppression/api.py`

One request appends one event or none. The body is the object that
`json.loads` makes of it, with text members. An exception that the handler does
not catch is answered by the gateway.
-/

namespace Outreach.Suppression

open Outreach.Library Outreach.Cleansing

set_option autoImplicit false

/-- The members of a request body. -/
abbrev Payload := Dict Text Text

/-- What comes of a request: the status of the answer, and the log. -/
structure Answer where
  statusCode : Int
  log : List Event

/-- The status of the gateway when the handler raises. -/
def badGateway : Int := 502

section Handler

variable {ν : Type} (U : UnicodeData) (P : PhoneNumbers ν) (fromisoformat : Text → Option DateTime)

/-- The arguments of `add_suppression`; `none` is a `KeyError` or a `ValueError`. -/
def Payload.arguments (payload : Payload) : Option (Text × Text × Text × DateTime) := do
  let occurredAt ← fromisoformat (← payload.get? "occurred_at".toList)
  if occurredAt.offset = none then none
  else
    let identifier ← payload.get? "identifier".toList
    let reason ← payload.get? "reason".toList
    let source ← payload.get? "source".toList
    some (identifier, reason, source, occurredAt)

/-- `handler`; a body that is no JSON is `none`, an absent one the empty object. -/
def handler (log : List Event) (body : Option Payload) (put : Put) (eventId : Text) : Answer :=
  match body.bind (Payload.arguments fromisoformat) with
  | none => ⟨400, log⟩
  | some (identifier, reason, source, occurredAt) =>
      match newEvent U P identifier reason source occurredAt eventId with
      | .error _ => ⟨400, log⟩
      | .ok e =>
          match put with
          | .stored => ⟨200, log ++ [e]⟩
          | .lost => ⟨badGateway, log⟩
          | .landed => ⟨badGateway, log ++ [e]⟩

/-- The put is the one that `add_suppression` makes on a new store. -/
theorem handler_log {log : List Event} {payload : Payload} {put : Put} {eventId : Text}
    {identifier reason source : Text} {occurredAt : DateTime}
    (h : payload.arguments fromisoformat = some (identifier, reason, source, occurredAt)) :
    (handler U P fromisoformat log (some payload) put eventId).log =
      (SuppressionStore.init.addSuppression U P log put identifier reason source occurredAt
        eventId).1 := by
  simp only [handler, Option.bind_some, h, SuppressionStore.addSuppression]
  cases newEvent U P identifier reason source occurredAt eventId with
  | error error => rfl
  | ok e => cases put <;> rfl

end Handler

end Outreach.Suppression
