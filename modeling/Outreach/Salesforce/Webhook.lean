import Outreach.Salesforce.Records

/-!
# The two webhooks: `TwilioInboundRest.cls` and `TwilioStatusCallbackRest.cls`

A signed request is the map of its form fields. Each handler queries first and
does its DML later, so it is two functions: what the query found, and what the
rest of the transaction does to the table as it is by then. `fault` says that
the insert fails for a reason that lies outside the records.
-/

namespace Outreach.Salesforce

open Outreach.Library Outreach.Guardrails

set_option autoImplicit false

/-! ## `TwilioWebhook.normalizePhone` -/

def isDigit (c : Char) : Bool := 48 ≤ c.toNat && c.toNat ≤ 57

/-- `String.trim` -/
def trim (s : Text) : Text := stripBy (fun c => decide (c.toNat ≤ 32)) s

def normalizePhone (raw : Option Text) : Option Text :=
  match raw with
  | none => none
  | some raw =>
      if isBlank (some raw) then none
      else
        let digits := raw.filter isDigit
        if digits.length = 10 then some ("+1".toList ++ digits)
        else if digits.length = 11 ∧ digits.head? = some '1' then some ('+' :: digits)
        else if (trim raw).head? = some '+' ∧ 11 < digits.length then some ('+' :: digits)
        else none

/-! ## Inbound -/

/-- The fields that `handleInbound` takes from the form. -/
structure InboundForm where
  messageSid : Option Text
  fromNumber : Option Text
  body : Option Text

/-- What the queries of `handleInbound` lead to: an answer, or the insert. -/
inductive InboundQuery where
  | answered (statusCode : Nat)
  | unlogged (sid : Text) (matched : Option Lead)
  deriving DecidableEq

/-- The newest lead with the number; the table's order stands for the platform's among ties. -/
def matchLead (db : Database) (normalizedPhone : Option Text) : Option Lead :=
  match normalizedPhone with
  | none => none
  | some n =>
      limitOne (fun l k => decide (k.createdDate < l.createdDate)) <|
        db.leads.rows.filter fun l => decide (l.phone = some n)

def inboundQuery (db : Database) (form : InboundForm) : InboundQuery :=
  match form.messageSid with
  | none => .answered 400
  | some sid =>
      if isBlank (some sid) then .answered 400
      else if db.logged sid then .answered 200
      else .unlogged sid (matchLead db (normalizePhone form.fromNumber))

def inboundDraft (now : Time) (form : InboundForm) (sid : Text) (matched : Option Lead) :
    MessageDraft where
  direction := .inbound
  providerMessageId := some sid
  status := some .received
  deliveryStatus := some "received".toList
  body := form.body
  sentAt := some now
  lead := matched.map Lead.id
  unmatched := matched.isNone

/-- The guardrail verdict on an inbound text message. -/
def verdict (U : UnicodeData) (body : Option Text) (priorAutoReplies : Int) :
    GuardrailResult Port.ApexString :=
  (Port.evaluate U body (some priorAutoReplies) (Port.units "sms")).getD ⟨.proceed, none, none⟩

/-- The body is an opt-out. -/
def suppresses (U : UnicodeData) (body : Option Text) : Prop :=
  (Port.matchOptOut U (Port.canonicalize (Port.fold U (body.getD [])))).isSome = true

instance (U : UnicodeData) (body : Option Text) : Decidable (suppresses U body) :=
  inferInstanceAs (Decidable (_ = _))

def optOutSource : Text := "inbound_sms_guardrail".toList

/-- The fields of the matched lead that an inbound message sets. -/
def applyReply (now : Time) (suppress : Bool) (l : Lead) : Lead :=
  if suppress then
    { l with
      outreachStatus := some .suppressed
      lastReplyAt := some now
      optedOut := true
      doNotCall := true
      hasOptedOutOfEmail := true
      optOutAt := some now
      optOutSource := some optOutSource }
  else { l with outreachStatus := some .replied, lastReplyAt := some now }

theorem applyReply_id (now : Time) (suppress : Bool) (l : Lead) :
    (applyReply now suppress l).id = l.id := by
  cases suppress <;> rfl

/-- The verdict on the message, the reply on the lead, the mirror job. -/
def persistVerdict (U : UnicodeData) (now : Time) (form : InboundForm) (matched : Option Lead)
    (messageId : Id) (db : Database) : Database :=
  let prior := (matched.bind Lead.autoReplyCount).getD 0
  let v := verdict U form.body prior
  let suppress := decide (v.action = .suppressAndStop)
  let normalizedFrom := normalizePhone form.fromNumber
  let db := db.modifyMessage messageId fun m =>
    { m with
      guardrailAction := some v.action
      guardrailRule := v.rule
      needsReview := m.needsReview || decide (v.action = .humanReview) ||
        (suppress && normalizedFrom.isNone) }
  let db := match matched with
    | none => db
    | some l => db.modifyLead l.id (applyReply now suppress) (applyReply_id now suppress)
  match suppress, normalizedFrom with
  | true, some n => { db with jobs := db.jobs ++ [⟨n, v.rule, messageId, 0⟩] }
  | _, _ => db

/-- The transaction from the insert on, and the status it answers with. -/
def inboundCommit (U : UnicodeData) (now : Time) (form : InboundForm) (sid : Text)
    (matched : Option Lead) (fault : Bool) (db : Database) : Database × Nat :=
  let messageId := db.messages.next
  match if fault then none else db.insert now [inboundDraft now form sid matched] with
  | none => (db, 200) -- every `DmlException` is taken for a lost race
  | some db => (persistVerdict U now form matched messageId db, 200)

/-- The handler of a signed request: it queries one table and writes to a later one. -/
def handleInbound (U : UnicodeData) (now : Time) (form : InboundForm) (fault : Bool)
    (queried db : Database) : Database × Nat :=
  match inboundQuery queried form with
  | .answered statusCode => (db, statusCode)
  | .unlogged sid matched => inboundCommit U now form sid matched fault db

/-! ## Status callbacks -/

structure StatusForm where
  messageSid : Option Text
  messageStatus : Option Text

inductive StatusQuery where
  | answered (statusCode : Nat)
  | existing (messageId : Id) (status : Text)
  | unknown (sid status : Text)
  deriving DecidableEq

def findLogged (db : Database) (sid : Text) : Option OutreachMessage :=
  db.messages.rows.find? fun m => decide (m.providerMessageId = some sid)

def statusQuery (db : Database) (form : StatusForm) : StatusQuery :=
  match form.messageSid, form.messageStatus with
  | some sid, some status =>
      if isBlank (some sid) || isBlank (some status) then .answered 400
      else
        match findLogged db sid with
        | some m => .existing m.id status
        | none => .unknown sid status
  | _, _ => .answered 400

def statusStub (sid status : Text) : MessageDraft where
  direction := .outbound
  providerMessageId := some sid
  deliveryStatus := some status
  sendError := some "status callback for unknown SID".toList

/-- `update` of the delivery status; `none` is an uncaught `DmlException`. -/
def setDeliveryStatus (db : Database) (messageId : Id) (status : Text) (fault : Bool) :
    Option Database :=
  if fault || !fitsIn maxDeliveryStatus (some status) then none
  else some (db.modifyMessage messageId fun m => { m with deliveryStatus := some status })

/-- The transaction from its DML on. `fault` fails its first DML and `fault'` the
update in the catch block; `none` is an uncaught exception, answered with 500. -/
def statusCommit (now : Time) (fault fault' : Bool) (db : Database) :
    StatusQuery → Option (Database × Nat)
  | .answered statusCode => some (db, statusCode)
  | .existing messageId status => (setDeliveryStatus db messageId status fault).map (·, 200)
  | .unknown sid status =>
      match if fault then none else db.insert now [statusStub sid status] with
      | some db => some (db, 200)
      | none =>
          match findLogged db sid with
          | none => some (db, 200)
          | some winner => (setDeliveryStatus db winner.id status fault').map (·, 200)

def handleStatus (now : Time) (form : StatusForm) (fault fault' : Bool) (queried db : Database) :
    Option (Database × Nat) :=
  statusCommit now fault fault' db (statusQuery queried form)

/-! ## The query -/

theorem matchLead_phone {db : Database} {n : Option Text} {l : Lead}
    (h : matchLead db n = some l) : l ∈ db.leads.rows ∧ l.phone = n := by
  cases n with
  | none => exact nomatch h
  | some n =>
    obtain ⟨hl, hn⟩ := List.mem_filter.mp (limitOne_mem h)
    exact ⟨hl, of_decide_eq_true hn⟩

theorem inboundQuery_matched {db : Database} {form : InboundForm} {sid : Text}
    {matched : Option Lead} (h : inboundQuery db form = .unlogged sid matched) :
    matched = matchLead db (normalizePhone form.fromNumber) := by
  unfold inboundQuery at h
  split at h
  · cases h
  · split at h
    · cases h
    · split at h
      · cases h
      · cases h
        rfl

/-! ## The verdict -/

/-- An opt-out is recognized before every other rule, whatever came before it. -/
theorem verdict_suppress (U : UnicodeData) (body : Option Text) (prior : Int) :
    (verdict U body prior).action = .suppressAndStop ↔ suppresses U body := by
  have hknown : (!Port.sameText (Port.units "sms") (Port.units "sms") &&
      !Port.sameText (Port.units "sms") (Port.units "email")) = false := by decide
  unfold verdict suppresses
  rw [Port.evaluate, hknown, if_neg Bool.false_ne_true]
  simp only [Option.getD_some]
  cases Port.matchOptOut U (Port.canonicalize (Port.fold U (body.getD []))) with
  | some hit => simp
  | none =>
    simp only [Option.isSome_none, Bool.false_eq_true, iff_false]
    repeat' split
    all_goals exact fun h => nomatch h

/-! ## What an inbound delivery writes -/

section Inbound

variable (U : UnicodeData) (now : Time) (form : InboundForm) (matched : Option Lead)

/-- Only the matched lead is written to. -/
def afterReply (l : Lead) : Lead :=
  if matched.map Lead.id = some l.id then applyReply now (decide (suppresses U form.body)) l else l

theorem persistVerdict_leads (messageId : Id) (db : Database) :
    (persistVerdict U now form matched messageId db).leads.rows =
        db.leads.rows.map (afterReply U now form matched) ∧
      (persistVerdict U now form matched messageId db).templates = db.templates := by
  have hact : ∀ prior, decide ((verdict U form.body prior).action = .suppressAndStop) =
      decide (suppresses U form.body) := fun prior => decide_eq_decide.mpr (verdict_suppress U _ prior)
  unfold persistVerdict
  extract_lets prior v suppress normalizedFrom db₁ db₂
  have hs : suppress = decide (suppresses U form.body) := hact prior
  have hrows : db₂.leads.rows = db.leads.rows.map (afterReply U now form matched) ∧
      db₂.templates = db.templates := by
    cases matched with
    | none => exact ⟨(List.map_id _).symm, rfl⟩
    | some l =>
      refine ⟨List.map_congr_left fun x _ => ?_, rfl⟩
      simp only [afterReply, Option.map_some, Option.some.injEq, hs, eq_comm]
  clear_value suppress
  cases suppress with
  | false => exact hrows
  | true =>
    cases normalizedFrom with
    | none => exact hrows
    | some n => exact hrows

/-- The fields of the message that the verdict sets. -/
def applyVerdict (m : MessageDraft) : MessageDraft :=
  let v := verdict U form.body ((matched.bind Lead.autoReplyCount).getD 0)
  { m with
    guardrailAction := some v.action
    guardrailRule := v.rule
    needsReview := m.needsReview || decide (v.action = .humanReview) ||
      (decide (v.action = .suppressAndStop) && (normalizePhone form.fromNumber).isNone) }

/-- The mirror job of an opt-out from a number. -/
def mirrorJob (messageId : Id) : Option SyncJob :=
  let v := verdict U form.body ((matched.bind Lead.autoReplyCount).getD 0)
  if v.action = .suppressAndStop then
    (normalizePhone form.fromNumber).map fun n => ⟨n, v.rule, messageId, 0⟩
  else none

/-- The verdict goes to the message, and its job to the end of the queue. -/
theorem persistVerdict_writes (messageId : Id) (db : Database) :
    (persistVerdict U now form matched messageId db).messages =
        (db.modifyMessage messageId (applyVerdict U form matched)).messages ∧
      (persistVerdict U now form matched messageId db).jobs =
        db.jobs ++ (mirrorJob U form matched messageId).toList := by
  unfold persistVerdict mirrorJob
  extract_lets prior v suppress normalizedFrom db₁ db₂
  have hframe : db₂.messages = db₁.messages ∧ db₂.jobs = db.jobs := by
    cases matched with
    | none => exact ⟨rfl, rfl⟩
    | some l => exact ⟨rfl, rfl⟩
  have hmessages : db₁.messages =
      (db.modifyMessage messageId (applyVerdict U form matched)).messages := rfl
  rw [← hmessages, ← hframe.1, ← hframe.2]
  have hs : suppress = decide (v.action = .suppressAndStop) := rfl
  by_cases hstop : v.action = .suppressAndStop
  · rw [if_pos hstop, hs, decide_eq_true hstop]
    show _ ∧ _ = _ ++ (normalizedFrom.map _).toList
    cases normalizedFrom with
    | none => exact ⟨rfl, (List.append_nil _).symm⟩
    | some n => exact ⟨rfl, rfl⟩
  · rw [if_neg hstop, hs, decide_eq_false hstop]
    exact ⟨rfl, (List.append_nil _).symm⟩

theorem mirrorJob_eq_some {messageId : Id} {job : SyncJob} :
    mirrorJob U form matched messageId = some job ↔ suppresses U form.body ∧ ∃ n,
      normalizePhone form.fromNumber = some n ∧
        job = ⟨n, (verdict U form.body ((matched.bind Lead.autoReplyCount).getD 0)).rule,
          messageId, 0⟩ := by
  unfold mirrorJob
  extract_lets v
  have hact : v.action = .suppressAndStop ↔ suppresses U form.body := verdict_suppress U _ _
  by_cases hstop : suppresses U form.body
  · rw [if_pos (hact.mpr hstop), Option.map_eq_some_iff, and_iff_right hstop]
    exact exists_congr fun n => and_congr_right fun _ => eq_comm
  · rw [if_neg (mt hact.mp hstop)]
    simp [hstop]

/-- An opt-out that no job can mirror goes to a person. -/
theorem applyVerdict_needsReview (hstop : suppresses U form.body)
    (hn : normalizePhone form.fromNumber = none) (m : MessageDraft) :
    (applyVerdict U form matched m).needsReview = true := by
  have hact := (verdict_suppress U form.body ((matched.bind Lead.autoReplyCount).getD 0)).mpr hstop
  simp only [applyVerdict, hn, hact, decide_true, Option.isNone_none, Bool.and_self, Bool.or_true]

theorem persistVerdict_messages (messageId : Id) (db : Database) :
    ∃ f : MessageDraft → MessageDraft,
      (∀ d, (f d).direction = d.direction ∧ (f d).providerMessageId = d.providerMessageId ∧
        (f d).lead = d.lead) ∧
      (persistVerdict U now form matched messageId db).messages =
        (db.modifyMessage messageId f).messages :=
  ⟨applyVerdict U form matched, fun _ => ⟨rfl, rfl, rfl⟩,
    (persistVerdict_writes U now form matched messageId db).1⟩

/-- A mirror job is queued for an opt-out from a number. -/
theorem persistVerdict_jobs {messageId : Id} {db : Database} {job : SyncJob}
    (hj : job ∈ (persistVerdict U now form matched messageId db).jobs) :
    job ∈ db.jobs ∨ suppresses U form.body ∧
      normalizePhone form.fromNumber = some job.identifier ∧ job.messageId = messageId := by
  rw [(persistVerdict_writes U now form matched messageId db).2, List.mem_append,
    Option.mem_toList, mirrorJob_eq_some] at hj
  rcases hj with hj | ⟨hstop, n, hn, rfl⟩
  · exact Or.inl hj
  · exact Or.inr ⟨hstop, hn, rfl⟩

variable (sid : Text) (fault : Bool) (db : Database)

theorem inboundCommit_stored (h : db.accepts [inboundDraft now form sid matched]) :
    inboundCommit U now form sid matched false db =
      (persistVerdict U now form matched db.messages.next
        (db.addMessage now (inboundDraft now form sid matched)), 200) := by
  simp only [inboundCommit, Database.insert, if_pos h, Bool.false_eq_true, if_false,
    List.foldl_cons, List.foldl_nil]

theorem inboundCommit_refused
    (h : ¬ (fault = false ∧ db.accepts [inboundDraft now form sid matched])) :
    inboundCommit U now form sid matched fault db = (db, 200) := by
  have hnone : (if fault = true then none
      else db.insert now [inboundDraft now form sid matched]) = none := by
    cases fault with
    | true => rfl
    | false => exact if_neg fun hacc => h ⟨rfl, hacc⟩
  simp only [inboundCommit, hnone]

end Inbound

end Outreach.Salesforce
