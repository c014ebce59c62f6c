import Outreach.TextTorrent.Requests
import Outreach.Library.Machine

/-!
# The canary: `texttorrent/canary.py`

The canary sends a text that invites changes and reads it back. Between two of its
requests, other clients of the account make any of the requests that the fake serves.
A run is a list of requests, of either side.
-/

namespace Outreach.TextTorrent.Canary

open Outreach.Library Outreach.TextTorrent.Client Outreach.TextTorrent.Vendor

set_option autoImplicit false

/-- `CANARY_BODY_TEMPLATE`, up to the nonce and after it. -/
def canaryHead : Text := "cAnArY mIxEd-case check ".toList

def canaryTail : Text :=
  (" — do NOT \x27\x27fix\x27\x27 this text… punctuation stays as sent ;: really!! ~ " ++
    "\"quoted\" [brackets] \x7bbraces\x7d\nsecond line kept verbatim").toList

/-- `CANARY_BODY_TEMPLATE.format(nonce=nonce)` -/
def canaryBody (nonce : Text) : Text := canaryHead ++ nonce ++ canaryTail

/-- The environment of the handler, its event, and the `uuid4` of the form. -/
structure Config where
  /-- `TEXTTORRENT_CANARY_TO` -/
  recipient : Text
  /-- `TEXTTORRENT_FROM_NUMBER`, unless it is empty -/
  fromNumber : Option Text
  nonce : Text
  uuid : Text

/-- `_multipart`: the body and its content type. -/
def multipart (uuid : Text) (fields : List (Text × Text)) : Text × Text :=
  (formBody ("tt-".toList ++ uuid) fields,
    "multipart/form-data; boundary=".toList ++ ("tt-".toList ++ uuid))

structure Report where
  identical : Bool
  submitted : Text
  delivered : Str
  messageId : Int
  chatId : Int

/-- Where the handler is: the request that it makes next, or how it ended. -/
inductive Phase where
  | listing
  | creating (sender : Str)
  | searching (sender : Str)
  | sending (sender : Str) (chatId : Int)
  | reading (chatId messageId : Int)
  | done (report : Report)
  | failed (failure : Failure)

section Handler

variable {φ : Type} (py : Python φ) (limit : Nat) (N : Numbers φ) (c : Config)

/-- The stored text of the message with the id, and an empty one without it. -/
def delivered (messageId : Int) (messages : List (Members φ)) : Except PyError Str :=
  match messages.find? fun m => equalsInt N messageId (Members.get m "id" .null) with
  | some m => py.str (Members.get m "message" .null)
  | none => .ok []

def Config.start : Phase :=
  match c.fromNumber with
  | some number => .creating (Str.ofText number)
  | none => .listing

/-- The form of the message. -/
def Config.form (sender : Text) (chatId : Int) : List (Text × Text) :=
  [("message".toList, canaryBody c.nonce), ("chat_id".toList, Json.intText chatId),
    ("from_number".toList, sender), ("to_number".toList, c.recipient)]

/-- The body of `create_chat`. -/
def Config.chatRequest (sender : Str) : JsonValue φ :=
  .object [entry "receiver_number" (text (tenDigits py.unicode c.recipient)),
    entry "sender_id" (.string sender)]

/-- The next request, if there is one. -/
def Phase.call : Phase → Option (Except Failure Call)
  | .listing => some (.ok .activeNumbers)
  | .creating sender => some (.ok (.createChat (Json.dumps py.floats (c.chatRequest py sender))))
  | .searching _ => some (.ok (.search (tenDigits py.unicode c.recipient)))
  | .sending sender chatId =>
      if sender.encodable then
        let (body, contentType) := multipart c.uuid (c.form sender.shown chatId)
        some (.ok (.send contentType body))
      else some (.error (.other "UnicodeEncodeError".toList))
  | .reading chatId _ => some (.ok (.chatDetails chatId))
  | .done _ => none
  | .failed _ => none

/-- The rest of the handler, after the message was read back. -/
def report (chatId messageId : Int) (messages : List (Members φ)) : Except Failure Report := do
  let delivered ← other (delivered py N messageId messages)
  return ⟨delivered = Str.ofText (canaryBody c.nonce), canaryBody c.nonce, delivered, messageId,
    chatId⟩

/-- What the handler makes of an answer. -/
def Phase.receive (response : HttpResponse) : Phase → Except Failure Phase
  | .listing => do return .creating (← firstActive py limit response)
  | .creating sender => do
      match ← createdChat py limit N response with
      | some chatId => return .sending sender chatId
      | none => return .searching sender
  | .searching sender => do
      match ← foundChatId py limit N response with
      | some chatId => return .sending sender chatId
      | none =>
          .error (.api 0 ("no chat id resolvable for canary recipient ".toList ++ c.recipient))
  | .sending _ chatId => do return .reading chatId (← sentId py limit N response)
  | .reading chatId messageId => do
      return .done (← report py N c chatId messageId (← chatMessages py limit response))
  | .done report => .ok (.done report)
  | .failed failure => .error failure

def Phase.settle : Except Failure Phase → Phase
  | .ok phase => phase
  | .error failure => .failed failure

structure World where
  vendor : FakeTextTorrent
  phase : Phase

inductive Event where
  /-- the canary makes its next request -/
  | canary
  /-- another client makes a request -/
  | client (call : Call)

variable (rewrite : Text → Text)

def World.step (w : World) : Event → Option World
  | .canary =>
      match w.phase.call py c with
      | none => none
      | some (.error failure) => some { w with phase := .failed failure }
      | some (.ok call) =>
          match handle py limit w.vendor rewrite call with
          | none => some { w with phase := .failed (.other "AssertionError".toList) }
          | some (response, vendor) =>
              some ⟨vendor, Phase.settle (w.phase.receive py limit N c response)⟩
  | .client call =>
      (handle py limit w.vendor rewrite call).map fun answer => { w with vendor := answer.2 }

def canary : Machine World Event := ⟨World.step py limit N c rewrite⟩

end Handler

/-- The value of `CanaryByteIdentical`; a run that raises puts none. -/
def Phase.metric : Phase → Option Nat
  | .done report => some (if report.identical then 1 else 0)
  | _ => none

/-- `RewriteCanaryAlarm`, on the values of a day: the minimum is below 1, or there is none. -/
def rewriteCanaryAlarm (values : List Nat) : Bool :=
  match values.min? with
  | some least => least < 1
  | none => true

end Outreach.TextTorrent.Canary
