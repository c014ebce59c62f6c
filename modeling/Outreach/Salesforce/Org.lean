import Outreach.Library.Machine
import Outreach.Salesforce.Send
import Outreach.Salesforce.Webhook
import Outreach.Suppression.Store
import Mathlib.Logic.Function.Basic

/-!
# The org and the event log: transactions, jobs, syncs

Transactions are open under a handle. A transaction queries at its first step
and commits or rolls back at its last; the callouts of a send batch lie between.
Everything else (other transactions, the mirror jobs, the Bulk API, the
suppression endpoint, the vendor reconciliation, the clock) may come in between
any two steps.
-/

namespace Outreach.Salesforce

open Outreach.Library Outreach.Guardrails Outreach.Cleansing Outreach.Suppression

set_option autoImplicit false

/-- An open transaction, with what it has queried. -/
inductive Tx where
  | send (b : SendBatch)
  | inbound (form : InboundForm) (sid : Text) (matched : Option Lead)
  | status (query : StatusQuery)

structure Org where
  db : Database
  now : Time
  /-- the objects under `suppression/events/`, oldest first -/
  events : List Event
  txs : Nat → Option Tx

/-- A record of the Bulk API upsert: the columns of `FIELD_MAP`, empty when missing. -/
structure LeadRecord where
  outreachExternalId : Text
  company : Text
  lastName : Text
  phone : Text
  email : Text

/-- An empty cell leaves the field as it is. -/
def overwrite (cell : Text) (old : Option Text) : Option Text :=
  if isBlank (some cell) then old else some cell

def LeadRecord.write (r : LeadRecord) (l : Lead) : Lead :=
  { l with
    company := if isBlank (some r.company) then l.company else r.company
    lastName := if isBlank (some r.lastName) then l.lastName else r.lastName
    phone := overwrite r.phone l.phone
    email := overwrite r.email l.email }

def LeadRecord.create (r : LeadRecord) (createdDate : Time) (id : Id) : Lead where
  id := id
  createdDate := createdDate
  outreachExternalId := some r.outreachExternalId
  company := r.company
  lastName := r.lastName
  phone := saved (some r.phone)
  email := saved (some r.email)

def upsertLead (now : Time) (r : LeadRecord) (db : Database) : Database :=
  match db.leads.rows.find? fun l => decide (l.outreachExternalId = some r.outreachExternalId) with
  | some l => db.modifyLead l.id r.write fun _ => rfl
  | none => { db with leads := db.leads.append (r.create now) fun _ => rfl }

def ruleText : Rule → Text
  | .optOut => "opt_out".toList
  | .legalEscalation => "legal_escalation".toList
  | .hostility => "hostility".toList
  | .bounceOrAutoreply => "bounce_or_autoreply".toList
  | .loopBreaker => "loop_breaker".toList

def maxAttempts : Nat := 5

/-- What the job does once the callout has answered; -1 stands for an exception. -/
def afterSync (job : SyncJob) (statusCode : Int) (db : Database) : Database :=
  if isSuccess statusCode then db
  else if job.attempt + 1 < maxAttempts then
    { db with jobs := db.jobs ++ [{ job with attempt := job.attempt + 1 }] }
  else
    db.modifyMessage job.messageId fun m =>
      { m with
        needsReview := true
        sendError := some "AWS suppression sync failed after 5 attempts".toList }

inductive Label where
  | tick (d : Nat)
  | beginSend (h : Nat) (leadIds : List Id)
  | visitLead (h : Nat) (reply : ProviderReply)
  | beginInbound (h : Nat) (form : InboundForm)
  | beginStatus (h : Nat) (form : StatusForm)
  | finish (h : Nat) (fault fault' : Bool)
  | abort (h : Nat)
  /-- the `i`-th pending job; its request may arrive although its answer is lost -/
  | runJob (i : Nat) (delivered : Bool) (statusCode : Int) (eventId : Text)
  | upsert (record : LeadRecord)
  | postSuppression (identifier reason source : Text) (occurredAt : DateTime) (eventId : Text)
  /-- one entry of the vendor's blocked list, in a reconciliation run that read the first
  `seen` events of our log -/
  | reconcile (seen : Nat) (raw : Text) (occurredAt : DateTime) (eventId : Text)

section Step

variable {ν : Type} (p : Platform) (P : PhoneNumbers ν)

/-- `add_suppression`; a `ValueError` appends nothing. -/
def addSuppression (events : List Event) (identifier reason source : Text) (occurredAt : DateTime)
    (eventId : Text) : List Event :=
  events ++ (newEvent p.unicode P identifier reason source occurredAt eventId).toOption.toList

/-- `formatGmt` to the second, read back by the endpoint. -/
def wholeSeconds (now : Time) : DateTime := ⟨now / 1000 * 1000000, some 0⟩

/-- The event that the request of a job appends when it arrives at the endpoint. -/
def posted (delivered : Bool) (now : Time) (job : SyncJob) (eventId : Text) : Option Event :=
  if delivered then
    (newEvent p.unicode P job.identifier ((job.reason.map ruleText).getD [])
      "salesforce_inbound_guardrail".toList (wholeSeconds now) eventId).toOption
  else none

/-- The number is added when our list, as the run has read it, does not have it. -/
def addVendorEntry (events : List Event) (seen : Nat) (raw : Text) (occurredAt : DateTime)
    (eventId : Text) : List Event :=
  match Cleansing.normalizePhone p.unicode P (some raw) with
  | none => events
  | some number =>
      if (events.take seen).any fun e => decide (e.identifier = number) then events
      else
        addSuppression p P events number "present on TextTorrent blocked list".toList
          "texttorrent_reconciliation".toList occurredAt eventId

namespace Org

def close (w : Org) (h : Nat) (db : Database) : Org :=
  { w with db, txs := Function.update w.txs h none }

def openTx (w : Org) (h : Nat) (tx : Tx) : Org :=
  { w with txs := Function.update w.txs h (some tx) }

@[simp] theorem txs_close (w : Org) (h : Nat) (db : Database) : (w.close h db).txs h = none :=
  Function.update_self ..

@[simp] theorem txs_openTx (w : Org) (h : Nat) (tx : Tx) : (w.openTx h tx).txs h = some tx :=
  Function.update_self ..

theorem txs_close_of_ne {w : Org} {h i : Nat} {db : Database} (hi : i ≠ h) :
    (w.close h db).txs i = w.txs i := Function.update_of_ne hi _ _

theorem txs_openTx_of_ne {w : Org} {h i : Nat} {tx : Tx} (hi : i ≠ h) :
    (w.openTx h tx).txs i = w.txs i := Function.update_of_ne hi _ _

/-- The table after the last step of a transaction; `none` when it is not yet there. -/
def finished (w : Org) (fault fault' : Bool) : Tx → Option Database
  | .send b =>
      if b.leads = [] then
        some (if fault then w.db else (b.commit w.now w.db).getD w.db)
      else none
  | .inbound form sid matched =>
      some (inboundCommit p.unicode w.now form sid matched fault w.db).1
  | .status query =>
      some (((statusCommit w.now fault fault' w.db query).map Prod.fst).getD w.db)

def step (w : Org) : Label → Option Org
  | .tick d => some { w with now := w.now + d }
  | .beginSend h leadIds =>
      match w.txs h with
      | none => some (w.openTx h (.send (openBatch p w.now w.db leadIds)))
      | some _ => none
  | .visitLead h reply =>
      match w.txs h with
      | some (.send b) =>
          match b.leads with
          | lead :: rest => some (w.openTx h (.send (b.visit p w.now lead rest reply)))
          | [] => none
      | _ => none
  | .beginInbound h form =>
      match w.txs h with
      | none =>
          match inboundQuery w.db form with
          | .answered _ => some w
          | .unlogged sid matched => some (w.openTx h (.inbound form sid matched))
      | some _ => none
  | .beginStatus h form =>
      match w.txs h with
      | none => some (w.openTx h (.status (statusQuery w.db form)))
      | some _ => none
  | .finish h fault fault' =>
      match w.txs h with
      | some tx => (w.finished p fault fault' tx).map fun db => w.close h db
      | none => none
  | .abort h =>
      match w.txs h with
      | some _ => some (w.close h w.db)
      | none => none
  | .runJob i delivered statusCode eventId =>
      match w.db.jobs[i]? with
      | none => none
      | some job =>
          let added := posted p P delivered w.now job eventId
          -- a success is only ever the endpoint's own
          if isSuccess statusCode && added.isNone then none
          else
            some { w with
              events := w.events ++ added.toList
              db := afterSync job statusCode { w.db with jobs := w.db.jobs.eraseIdx i } }
  | .upsert record => some { w with db := upsertLead w.now record w.db }
  | .postSuppression identifier reason source occurredAt eventId =>
      some { w with
        events := addSuppression p P w.events identifier reason source occurredAt eventId }
  | .reconcile seen raw occurredAt eventId =>
      some { w with events := addVendorEntry p P w.events seen raw occurredAt eventId }

/-- The lead for which the step calls the provider, and the template it sends. -/
def calls (w : Org) : Label → Option (Lead × ReplyTemplate)
  | .visitLead h _ =>
      match w.txs h with
      | some (.send b) => b.calls p w.now
      | _ => none
  | _ => none

end Org

def org : Machine Org Label := ⟨Org.step p P⟩

end Step

/-! ## A small org -/

def noon : Time := 12 * hourMillis

/-- The body of an answer with a message id. -/
def sidBody : Text := "\x7b\"sid\":\"SM1\"\x7d".toList

/-- A platform that knows GMT, and parses one body. -/
def gmtPlatform : Platform where
  unicode := .plain
  getTimeZone _ := ⟨"GMT".toList, fun _ => 0⟩
  deserializeUntyped body :=
    if body = sidBody then .ok (.object [("sid".toList, .string "SM1".toList)])
    else .error "Unexpected character".toList
  castMessage _ := "Invalid conversion".toList
  perNumberHourlyLimit := none

def sharedPhone : Text := "+16502530000".toList

def readyLead (createdDate : Time) (id : Id) : Lead where
  id := id
  createdDate := createdDate
  company := "Acme".toList
  lastName := "Doe".toList
  phone := some sharedPhone
  outreachStatus := some .ready
  quietHoursTimezone := some "GMT".toList

def firstTouchTemplate : ReplyTemplate where
  id := 0
  name := firstTouch
  status := .approved
  body := some "Hello".toList
  version := some 1
  bodyFits := rfl

/-- Two ready leads that share a phone number, the second one newer. -/
def twins : Org where
  db :=
    { leads := (Table.empty.append (readyLead 0) fun _ => rfl).append (readyLead 1) fun _ => rfl
      messages := .empty
      templates := [firstTouchTemplate]
      jobs := [] }
  now := noon
  events := []
  txs _ := none

end Outreach.Salesforce
