import Outreach.Salesforce.Records
import Mathlib.Data.List.Sort

/-!
# The send path: `OutreachSendService.cls` and `TextTorrentProvider.cls`

A `sendBatch` transaction queries once, walks over its leads with one callout at
most for each, and does all its DML at the end. The provider's answers, the JSON
parser and the time zone table are given from outside.
-/

namespace Outreach.Salesforce

open Outreach.Library Outreach.Guardrails

set_option autoImplicit false

inductive Json where
  | null
  | bool (b : Bool)
  | number (text : Text)
  | string (s : Text)
  | array (items : List Json)
  | object (members : List (Text × Json))

structure TimeZone where
  id : Text
  /-- milliseconds to add to UTC at an instant -/
  offset : Time → Int

/-- What the platform provides. -/
structure Platform where
  unicode : UnicodeData
  getTimeZone : Text → TimeZone
  /-- `JSON.deserializeUntyped`; an error is the message of its exception -/
  deserializeUntyped : Text → Except Text Json
  /-- the message when a value is not what it is cast to -/
  castMessage : Json → Text
  /-- `Per_Number_Hourly_Limit__c` -/
  perNumberHourlyLimit : Option Int

def defaultPerNumberHourlyLimit : Int := 50

def Platform.hourlyLimit (p : Platform) : Int :=
  p.perNumberHourlyLimit.getD defaultPerNumberHourlyLimit

/-- `a == b` between Apex strings. -/
def sameText (a b : Text) : Bool := Port.sameText (a.map Char.toNat) (b.map Char.toNat)

/-! ## The provider -/

/-- What comes back from a callout: an exception, or a status code and a body. -/
inductive ProviderReply where
  | raised (message : Text)
  | answered (statusCode : Int) (body : Text)

def isSuccess (statusCode : Int) : Bool := decide (200 ≤ statusCode ∧ statusCode < 300)

/-- The provider accepted the message. -/
def ProviderReply.accepted : ProviderReply → Bool
  | .raised _ => false
  | .answered statusCode _ => isSuccess statusCode

structure ProviderResult where
  messageId : Option Text
  status : Option Text
  errorCode : Option Text
  deriving DecidableEq

section Provider

variable (p : Platform)

/-- `(String) value` -/
def asText : Option Json → Except Text (Option Text)
  | none => .ok none
  | some .null => .ok none
  | some (.string s) => .ok (some s)
  | some other => .error (p.castMessage other)

def isNull : Option Json → Bool
  | none => true
  | some .null => true
  | _ => false

def messageIdKeys : List Text := ["sid".toList, "id".toList, "message_id".toList]

def firstNonNull (payload : List (Text × Json)) : Except Text (Option Text) :=
  match messageIdKeys.find? fun key => !isNull (payload.lookup key) with
  | none => .ok none
  | some key => asText p (payload.lookup key)

/-- `TextTorrentProvider.send` -/
def send : ProviderReply → Except Text ProviderResult
  | .raised message => .error message
  | .answered statusCode body =>
      if isSuccess statusCode then do
        match ← p.deserializeUntyped body with
        | .object payload =>
            let messageId ← firstNonNull p payload
            let status ← asText p (payload.lookup "status".toList)
            .ok ⟨messageId, status, none⟩
        | other => .error (p.castMessage other)
      else .ok ⟨none, none, some ((toString statusCode).toList ++ ' ' :: body)⟩

/-- What the provider has accepted and the answer names; `none` when it is not recognized. -/
def returned (reply : ProviderReply) : Option ProviderResult :=
  match send p reply with
  | .ok result => if result.errorCode = none then some result else none
  | .error _ => none

end Provider

/-! ## One attempt -/

/-- `String.abbreviate` -/
def abbreviate (width : Nat) (s : Text) : Text :=
  if s.length ≤ width then s else s.take (width - 3) ++ "...".toList

def truncate (value : Text) : Text := abbreviate 255 value

section Attempt

variable (p : Platform) (now : Time)

def failedAttempt (attempt : MessageDraft) (error : Text) : MessageDraft :=
  { attempt with
    status := some .failed
    deliveryStatus := some "failed".toList
    sendError := some (truncate error) }

def newAttempt (lead : Lead) (template : ReplyTemplate) : MessageDraft where
  direction := .outbound
  lead := some lead.id
  body := template.body
  replyTemplate := some template.id
  templateVersion := template.version
  sentAt := some now

def sentAttempt (attempt : MessageDraft) (result : ProviderResult) : MessageDraft :=
  { attempt with
    providerMessageId := result.messageId
    deliveryStatus := result.status
    status := some .sent }

def performSend (lead : Lead) (template : ReplyTemplate) (reply : ProviderReply) : MessageDraft :=
  let attempt := newAttempt now lead template
  match send p reply with
  | .ok result =>
      match result.errorCode with
      | none => sentAttempt attempt result
      | some errorCode => failedAttempt attempt errorCode
  | .error message => failedAttempt attempt message

end Attempt

/-! ## The batch -/

inductive BlockReason where
  | suppressed
  | notReady
  | unknownTimezone
  | quietHours
  | rateLimited
  | noApprovedTemplate
  | missingPhone
  | deferred
  | sendFailed
  deriving DecidableEq, Repr

structure SendOutcome where
  leadId : Id
  sent : Bool
  reason : Option BlockReason
  deriving DecidableEq

/-- The locals of `sendBatch`; `leads` are the queried rows still to visit. -/
structure SendBatch where
  leads : List Lead
  template : Option ReplyTemplate
  hourlyLimit : Int
  sentThisHour : Nat
  calloutsMade : Nat := 0
  attemptLog : List MessageDraft := []
  contactedLeads : List (Id × Time) := []
  outcomes : List SendOutcome := []

def quietHoursStart : Int := 8
def quietHoursEnd : Int := 21
def maxCalloutsPerRun : Nat := 90

def hourMillis : Int := 60 * 60 * 1000

def firstTouch : Text := "First Touch".toList

/-- The higher version; a null comes first in a descending order. -/
def versionBefore : Option Int → Option Int → Bool
  | none, some _ => true
  | some v, some u => decide (u < v)
  | _, none => false

def approvedFirstTouchTemplate (templates : List ReplyTemplate) : Option ReplyTemplate :=
  limitOne (fun t u => versionBefore t.version u.version) <| templates.filter fun t =>
    sameText t.name firstTouch && decide (t.status = .approved)

def sentSince (messages : List OutreachMessage) (since : Time) : Nat :=
  messages.countP fun m => decide (m.direction = .outbound) && decide (since ≤ m.createdDate)

section Batch

variable (p : Platform) (now : Time)

def quietHoursBlockReason (timezoneName : Option Text) : Option BlockReason :=
  match timezoneName with
  | none => some .unknownTimezone
  | some name =>
      if isBlank (some name) then some .unknownTimezone
      else
        let recipientZone := p.getTimeZone name
        if !sameText recipientZone.id name then some .unknownTimezone
        else
          let localHour := (now + recipientZone.offset now) / hourMillis % 24
          if localHour < quietHoursStart ∨ quietHoursEnd ≤ localHour then some .quietHours
          else none

/-- The update of a lead that was sent to. -/
def markContacted (contactedAt : Time) (l : Lead) : Lead :=
  { l with outreachStatus := some .contacted, lastContactedAt := some contactedAt }

/-- The queries at the start of `sendBatch`. -/
def openBatch (db : Database) (leadIds : List Id) : SendBatch where
  leads := (db.leads.rows.filter fun l => leadIds.contains l.id).insertionSort
    fun a b => a.id ≤ b.id
  template := approvedFirstTouchTemplate db.templates
  hourlyLimit := p.hourlyLimit
  sentThisHour := sentSince db.messages.rows (now - hourMillis)

namespace SendBatch

/-- The gates in their fixed order; the template when the provider is to be called. -/
def gate (b : SendBatch) (lead : Lead) : Except BlockReason ReplyTemplate :=
  if lead.optedOut = true ∨ lead.outreachStatus = some .suppressed then .error .suppressed
  else if lead.outreachStatus ≠ some .ready then .error .notReady
  else
    match quietHoursBlockReason p now lead.quietHoursTimezone with
    | some reason => .error reason
    | none =>
        if b.hourlyLimit ≤ b.sentThisHour + b.calloutsMade then .error .rateLimited
        else
          match b.template with
          | none => .error .noApprovedTemplate
          | some template =>
              if isBlank lead.phone then .error .missingPhone
              else if maxCalloutsPerRun ≤ b.calloutsMade then .error .deferred
              else .ok template

/-- The lead is not sent to. -/
def skip (b : SendBatch) (lead : Lead) (rest : List Lead) (reason : BlockReason) : SendBatch :=
  { b with leads := rest, outcomes := b.outcomes ++ [⟨lead.id, false, some reason⟩] }

/-- The attempt is noted, and the lead when it was sent. -/
def note (b : SendBatch) (lead : Lead) (rest : List Lead) (attempt : MessageDraft) : SendBatch :=
  let sent := decide (attempt.status = some .sent)
  { b with
    leads := rest
    calloutsMade := b.calloutsMade + 1
    attemptLog := b.attemptLog ++ [attempt]
    contactedLeads := if sent then b.contactedLeads ++ [(lead.id, now)] else b.contactedLeads
    outcomes := b.outcomes ++ [⟨lead.id, sent, if sent then none else some .sendFailed⟩] }

/-- One turn of the loop; `reply` is what the provider answers if it is called. -/
def visit (b : SendBatch) (lead : Lead) (rest : List Lead) (reply : ProviderReply) : SendBatch :=
  match b.gate p now lead with
  | .error reason => b.skip lead rest reason
  | .ok template => b.note now lead rest (performSend p now lead template reply)

/-- The lead for which the next turn of the loop calls the provider, and the template. -/
def calls (b : SendBatch) : Option (Lead × ReplyTemplate) :=
  match b.leads with
  | [] => none
  | lead :: _ =>
      match b.gate p now lead with
      | .error _ => none
      | .ok template => some (lead, template)

/-- The DML at the end of `sendBatch`. -/
def commit (b : SendBatch) (db : Database) : Option Database :=
  (db.insert now b.attemptLog).map fun db =>
    b.contactedLeads.foldl
      (fun db c => db.modifyLead c.1 (markContacted c.2) fun _ => rfl) db

end SendBatch

end Batch

/-! ## What the gates and the provider say -/

section Facts

variable {p : Platform} {now : Time}

/-- A call passes every gate. -/
theorem gate_eq_ok {b : SendBatch} {lead : Lead} {template : ReplyTemplate} :
    b.gate p now lead = .ok template ↔
      lead.optedOut = false ∧ lead.outreachStatus = some .ready ∧
      quietHoursBlockReason p now lead.quietHoursTimezone = none ∧
      b.sentThisHour + b.calloutsMade < b.hourlyLimit ∧ b.template = some template ∧
      isBlank lead.phone = false ∧ b.calloutsMade < maxCalloutsPerRun := by
  unfold SendBatch.gate
  by_cases hready : lead.outreachStatus = some .ready
  · have hne : lead.outreachStatus ≠ some .suppressed := fun h => nomatch hready.symm.trans h
    cases ho : lead.optedOut with
    | true => simp
    | false =>
      cases hq : quietHoursBlockReason p now lead.quietHoursTimezone with
      | some reason => simp [hready]
      | none =>
        by_cases hlimit : b.hourlyLimit ≤ b.sentThisHour + b.calloutsMade
        · simp [hready, hlimit]
        · cases ht : b.template with
          | none => simp [hready, hlimit]
          | some t =>
            by_cases hblank : isBlank lead.phone = true
            · simp [hready, hlimit, hblank]
            · by_cases hmax : maxCalloutsPerRun ≤ b.calloutsMade
              · simp [hready, hlimit, hblank, hmax, Nat.not_lt.mpr hmax]
              · simp [hready, hlimit, hblank, hmax, Nat.lt_of_not_le hmax, not_le.mp hlimit]
  · by_cases hs : lead.optedOut = true ∨ lead.outreachStatus = some .suppressed
    · simp [hs, hready]
    · simp [hs, hready]

theorem calls_eq_some {b : SendBatch} {lead : Lead} {template : ReplyTemplate} :
    b.calls p now = some (lead, template) ↔
      ∃ rest, b.leads = lead :: rest ∧ b.gate p now lead = .ok template := by
  unfold SendBatch.calls
  cases b.leads with
  | nil => simp
  | cons l rest =>
    cases hg : b.gate p now l with
    | error reason =>
      simp only [hg, List.cons.injEq, reduceCtorEq, false_iff, not_exists, not_and]
      rintro rest' ⟨rfl, -⟩ h
      rw [hg] at h
      exact nomatch h
    | ok t =>
      simp only [hg, Option.some.injEq, Prod.mk.injEq, List.cons.injEq]
      constructor
      · intro h
        obtain ⟨rfl, rfl⟩ := h
        exact ⟨rest, ⟨rfl, rfl⟩, hg⟩
      · intro hex
        obtain ⟨rest', ⟨rfl, -⟩, h⟩ := hex
        rw [hg] at h
        exact ⟨rfl, Except.ok.inj h⟩

theorem mem_openBatch {db : Database} {leadIds : List Id} {l : Lead} :
    l ∈ (openBatch p now db leadIds).leads ↔ l ∈ db.leads.rows ∧ l.id ∈ leadIds := by
  show l ∈ List.insertionSort _ _ ↔ _
  rw [List.mem_insertionSort, List.mem_filter, List.contains_iff_mem]

variable (p now) in
/-- A turn of the loop goes on to the next lead; what was queried stays. -/
theorem visit_frame (b : SendBatch) (lead : Lead) (rest : List Lead) (reply : ProviderReply) :
    (b.visit p now lead rest reply).leads = rest ∧
      (b.visit p now lead rest reply).template = b.template ∧
      (b.visit p now lead rest reply).hourlyLimit = b.hourlyLimit ∧
      (b.visit p now lead rest reply).sentThisHour = b.sentThisHour := by
  unfold SendBatch.visit
  split <;> exact ⟨rfl, rfl, rfl, rfl⟩

theorem length_abbreviate (width : Nat) (hw : 3 ≤ width) (s : Text) :
    (abbreviate width s).length ≤ width := by
  unfold abbreviate
  split
  · assumption
  · rw [List.length_append, List.length_take]
    have hdots : "...".toList.length = 3 := rfl
    omega

variable (p now) in
/-- An attempt is sent with what the answer names, or failed. -/
theorem performSend_cases (lead : Lead) (template : ReplyTemplate) (reply : ProviderReply) :
    (∃ r, returned p reply = some r ∧
      performSend p now lead template reply = sentAttempt (newAttempt now lead template) r) ∨
    (returned p reply = none ∧ ∃ error,
      performSend p now lead template reply =
        failedAttempt (newAttempt now lead template) error) := by
  unfold performSend returned
  cases hs : send p reply with
  | error message => exact Or.inr ⟨rfl, message, rfl⟩
  | ok r =>
    cases he : r.errorCode with
    | none => exact Or.inl ⟨r, by simp [he], by simp [he]⟩
    | some error => exact Or.inr ⟨by simp [he], error, by simp [he]⟩

variable (p now) in
/-- Every attempt carries its lead and its template; it is sent exactly when the
provider's answer is recognized, and then it carries the id that the answer names. -/
theorem performSend_spec (lead : Lead) (template : ReplyTemplate) (reply : ProviderReply) :
    (performSend p now lead template reply).lead = some lead.id ∧
      (performSend p now lead template reply).replyTemplate = some template.id ∧
      ((performSend p now lead template reply).status = some .sent ↔ returned p reply ≠ none) ∧
      (performSend p now lead template reply).providerMessageId =
        (returned p reply).bind ProviderResult.messageId := by
  rcases performSend_cases p now lead template reply with ⟨r, hr, he⟩ | ⟨hr, error, he⟩
  · rw [hr, he]
    exact ⟨rfl, rfl, iff_of_true rfl (Option.some_ne_none r), rfl⟩
  · rw [hr, he]
    exact ⟨rfl, rfl, iff_of_false (fun h => nomatch h) fun h => h rfl, rfl⟩

end Facts

end Outreach.Salesforce
