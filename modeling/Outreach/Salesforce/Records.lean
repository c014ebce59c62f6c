import Outreach.Guardrails.Port
import Outreach.Library.Table

/-!
# The Salesforce records, and what the platform checks when they are saved

`Lead`, `Outreach_Message__c` and `Reply_Template__c` with the fields that some
modelled function reads or writes. A blank text is saved as null. An insert is
all or none: every row must fit its field lengths, and no non-null provider
message id may occur twice, in the rows or in the table.
-/

namespace Outreach.Salesforce

open Outreach.Library Outreach.Guardrails

set_option autoImplicit false

abbrev Id := Nat

/-- A `Datetime`, in milliseconds. -/
abbrev Time := Int

/-- `Outreach_Status__c`. The send path asks for `Ready`, which the restricted
picklist of the repository does not list. -/
inductive OutreachStatus where
  | new
  | queued
  | ready
  | contacted
  | replied
  | humanReview
  | suppressed
  | closed
  deriving DecidableEq, Repr

structure Lead where
  id : Id
  createdDate : Time
  outreachExternalId : Option Text := none
  company : Text
  lastName : Text
  email : Option Text := none
  phone : Option Text
  outreachStatus : Option OutreachStatus := some .new
  optedOut : Bool := false
  doNotCall : Bool := false
  hasOptedOutOfEmail : Bool := false
  optOutAt : Option Time := none
  optOutSource : Option Text := none
  quietHoursTimezone : Option Text := none
  autoReplyCount : Option Int := none
  lastContactedAt : Option Time := none
  lastReplyAt : Option Time := none
  deriving DecidableEq

inductive Direction where
  | outbound
  | inbound
  deriving DecidableEq, Repr

inductive MessageStatus where
  | queued
  | sent
  | delivered
  | failed
  | received
  deriving DecidableEq, Repr

/-! ## Field lengths -/

def fitsIn (n : Nat) (t : Option Text) : Bool :=
  match t with
  | none => true
  | some s => decide (s.length ≤ n)

def maxProviderMessageId : Nat := 255
def maxDeliveryStatus : Nat := 40
def maxSendError : Nat := 255
def maxBody : Nat := 32768

/-! ## The records -/

/-- `Outreach_Message__c` as code builds it, before it is saved. -/
structure MessageDraft where
  direction : Direction
  providerMessageId : Option Text := none
  status : Option MessageStatus := none
  deliveryStatus : Option Text := none
  body : Option Text := none
  lead : Option Id := none
  replyTemplate : Option Id := none
  templateVersion : Option Int := none
  sentAt : Option Time := none
  sendError : Option Text := none
  unmatched : Bool := false
  needsReview : Bool := false
  guardrailAction : Option Action := none
  guardrailRule : Option Rule := none
  deriving DecidableEq

/-- A saved `Outreach_Message__c`. -/
structure OutreachMessage extends MessageDraft where
  id : Id
  createdDate : Time
  deriving DecidableEq

inductive TemplateStatus where
  | draft
  | inReview
  | approved
  | retired
  deriving DecidableEq, Repr

structure ReplyTemplate where
  id : Id
  name : Text
  status : TemplateStatus
  body : Option Text
  version : Option Int
  bodyFits : fitsIn maxBody body = true
  deriving DecidableEq

/-- A pending `OutreachSuppressionSyncQueueable`. -/
structure SyncJob where
  identifier : Text
  reason : Option Rule
  messageId : Id
  attempt : Nat
  deriving DecidableEq

structure Database where
  leads : Table Lead Lead.id
  messages : Table OutreachMessage OutreachMessage.id
  templates : List ReplyTemplate
  jobs : List SyncJob

/-! ## Saving messages -/

/-- `Character.isWhitespace`, which leaves out the non-breaking spaces. -/
def isWhitespace (c : Char) : Bool :=
  isSpace c && !([0x85, 0xA0, 0x2007, 0x202F].contains c.toNat)

/-- `String.isBlank` -/
def isBlank (t : Option Text) : Bool :=
  match t with
  | none => true
  | some s => s.all isWhitespace

/-- A blank text is saved as null. -/
def saved (t : Option Text) : Option Text := if isBlank t then none else t

/-- The draft as it is saved. -/
def MessageDraft.saved (d : MessageDraft) : MessageDraft :=
  { d with
    providerMessageId := Salesforce.saved d.providerMessageId
    deliveryStatus := Salesforce.saved d.deliveryStatus
    body := Salesforce.saved d.body
    sendError := Salesforce.saved d.sendError }

def MessageDraft.fits (d : MessageDraft) : Bool :=
  fitsIn maxProviderMessageId d.providerMessageId && fitsIn maxDeliveryStatus d.deliveryStatus &&
    fitsIn maxSendError d.sendError && fitsIn maxBody d.body

def MessageDraft.save (d : MessageDraft) (createdDate : Time) (id : Id) : OutreachMessage :=
  ⟨d.saved, id, createdDate⟩

/-- The provider message ids that the unique index holds. -/
def providerIds (ds : List MessageDraft) : List Text :=
  ds.filterMap MessageDraft.providerMessageId

def Database.providerIds (db : Database) : List Text :=
  Salesforce.providerIds (db.messages.rows.map OutreachMessage.toMessageDraft)

/-- The insert would be accepted: lengths, and the unique index. -/
def Database.accepts (db : Database) (ds : List MessageDraft) : Prop :=
  (∀ d ∈ ds, d.saved.fits = true) ∧ (Salesforce.providerIds (ds.map MessageDraft.saved)).Nodup ∧
    ∀ i ∈ Salesforce.providerIds (ds.map MessageDraft.saved), i ∉ db.providerIds

instance (db : Database) (ds : List MessageDraft) : Decidable (db.accepts ds) :=
  inferInstanceAs (Decidable (_ ∧ _ ∧ _))

def Database.addMessage (db : Database) (now : Time) (d : MessageDraft) : Database :=
  { db with messages := db.messages.append (d.save now) fun _ => rfl }

/-- `insert ds`; `none` is the `DmlException`. -/
def Database.insert (db : Database) (now : Time) (ds : List MessageDraft) : Option Database :=
  if db.accepts ds then some (ds.foldl (fun db d => db.addMessage now d) db) else none

def Database.logged (db : Database) (sid : Text) : Prop := sid ∈ db.providerIds

instance (db : Database) (sid : Text) : Decidable (db.logged sid) :=
  inferInstanceAs (Decidable (_ ∈ _))

def Database.modifyMessage (db : Database) (i : Id) (f : MessageDraft → MessageDraft) : Database :=
  { db with
    messages := db.messages.modify
      (fun m => if m.id = i then { m with toMessageDraft := f m.toMessageDraft } else m)
      fun m => by split <;> rfl }

/-- `update` of the lead with id `i`; `f` changes other fields only. -/
def Database.modifyLead (db : Database) (i : Id) (f : Lead → Lead) (hf : ∀ l, (f l).id = l.id) :
    Database :=
  { db with
    leads := db.leads.modify (fun l => if l.id = i then f l else l) fun l => by
      split
      · exact hf l
      · rfl }

theorem mem_providerIds {db : Database} {sid : Text} :
    sid ∈ db.providerIds ↔ ∃ m ∈ db.messages.rows, m.providerMessageId = some sid := by
  simp [Database.providerIds, Salesforce.providerIds, List.mem_filterMap]

/-- The rows of an accepted insert, in order, after the rows that were there. -/
theorem addMessages_rows (now : Time) (ds : List MessageDraft) (db : Database) :
    ∃ rows, (ds.foldl (fun db d => db.addMessage now d) db).messages.rows =
        db.messages.rows ++ rows ∧
      List.Forall₂ (fun d m => m.toMessageDraft = d.saved ∧ m.createdDate = now) ds rows ∧
      (ds.foldl (fun db d => db.addMessage now d) db).leads = db.leads ∧
      (ds.foldl (fun db d => db.addMessage now d) db).templates = db.templates ∧
      (ds.foldl (fun db d => db.addMessage now d) db).jobs = db.jobs := by
  induction ds generalizing db with
  | nil => exact ⟨[], (List.append_nil _).symm, .nil, rfl, rfl, rfl⟩
  | cons d ds ih =>
    obtain ⟨rows, hrows, hall, hrest⟩ := ih (db.addMessage now d)
    refine ⟨d.save now db.messages.next :: rows, ?_, .cons ⟨rfl, rfl⟩ hall, hrest⟩
    rw [List.foldl_cons, hrows]
    show (db.messages.rows ++ [d.save now db.messages.next]) ++ rows = _
    rw [List.append_assoc]
    rfl

end Outreach.Salesforce
