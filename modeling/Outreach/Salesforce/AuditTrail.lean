import Outreach.Salesforce.Stored
import Outreach.Salesforce.BatchJob

/-!
# The message log as an audit trail

A committed `Outreach_Message__c` stays in its place in the log. Three of its
fields can change later: the delivery status, by a callback for its id; the
review flag and the error text, by the end of a mirror job. All else is written
once, in the transaction that inserts the row: an attempt of a batch, the stub of
a callback that came first, or an inbound message.
-/

namespace Outreach.Salesforce

open Outreach.Library Outreach.Guardrails Outreach.Cleansing Outreach.Suppression

set_option autoImplicit false

/-- What is never written again. -/
def OutreachMessage.record (m : OutreachMessage) : OutreachMessage :=
  { m with deliveryStatus := none, sendError := none, needsReview := false }

/-- The status callbacks begun in the steps. -/
def begun (seen : List Label) (sid status : Text) : Prop :=
  ∃ h, Label.beginStatus h ⟨some sid, some status⟩ ∈ seen

def syncFailed : Text := "AWS suppression sync failed after 5 attempts".toList
def unknownSid : Text := "status callback for unknown SID".toList

/-! ## The kinds of messages -/

/-- An attempt: the approved template as it was sent, to a lead, before the row was created. -/
structure AttemptOf (templates : List ReplyTemplate) (createdDate : Time) (d : MessageDraft) :
    Prop where
  direction : d.direction = .outbound
  lead : d.lead ≠ none
  template : ∃ t, approvedFirstTouchTemplate templates = some t ∧ d.replyTemplate = some t.id ∧
    d.body = saved t.body ∧ d.templateVersion = t.version
  sentAt : ∃ t, d.sentAt = some t ∧ t ≤ createdDate
  outcome : (d.status = some .sent ∧ d.sendError = none) ∨
    (d.status = some .failed ∧ d.providerMessageId = none ∧
      d.deliveryStatus = some "failed".toList)

/-- A callback for an id that no row had. -/
structure StubOf (d : MessageDraft) : Prop where
  direction : d.direction = .outbound
  status : d.status = none
  lead : d.lead = none
  template : d.replyTemplate = none
  providerMessageId : d.providerMessageId ≠ none
  deliveryStatus : d.deliveryStatus ≠ none
  sendError : d.sendError = some unknownSid

/-- An inbound message with the verdict on it. -/
structure InboundOf (createdDate : Time) (d : MessageDraft) : Prop where
  direction : d.direction = .inbound
  status : d.status = some .received
  providerMessageId : d.providerMessageId ≠ none
  template : d.replyTemplate = none
  sentAt : d.sentAt = some createdDate
  unmatched : d.unmatched = d.lead.isNone
  verdict : d.guardrailAction ≠ none

inductive MessageKind (templates : List ReplyTemplate) (m : OutreachMessage) : Prop where
  | attempt (h : AttemptOf templates m.createdDate m.toMessageDraft)
  | stub (h : StubOf m.toMessageDraft)
  | inbound (h : InboundOf m.createdDate m.toMessageDraft)

/-- The message is of one of the kinds, and its texts fit their fields. -/
structure WellFormed (templates : List ReplyTemplate) (m : OutreachMessage) : Prop where
  kind : MessageKind templates m
  fits : m.fits = true

/-! ## What is kept -/

section Trail

/-- What a later state has of a message, given the callbacks that there have been. -/
structure Kept (callbacks : Text → Text → Prop) (m m' : OutreachMessage) : Prop where
  record : m'.record = m.record
  delivery : m'.deliveryStatus = m.deliveryStatus ∨
    ∃ sid status, m.providerMessageId = some sid ∧ callbacks sid status ∧
      m'.deliveryStatus = some status ∧ fitsIn maxDeliveryStatus (some status) = true
  /-- a review once asked for stays, and only an opt-out that could not be mirrored asks later -/
  review : (m'.sendError = m.sendError ∧ m'.needsReview = m.needsReview) ∨
    (m.direction = .inbound ∧ m'.sendError = some syncFailed ∧ m'.needsReview = true)

/-- Every message of the one table is kept in its place in the other, and what has come
after them is `new`. -/
structure Database.Trail (callbacks : Text → Text → Prop) (new : OutreachMessage → Prop)
    (a b : Database) : Prop where
  kept : ∀ (i : Nat) (m : OutreachMessage), a.messages.rows[i]? = some m →
    ∃ m', b.messages.rows[i]? = some m' ∧ Kept callbacks m m'
  added : ∀ m' ∈ b.messages.rows, (∃ m ∈ a.messages.rows, Kept callbacks m m') ∨ new m'

/-- Each pending mirror job is about an inbound message. -/
def Database.JobsInbound (db : Database) : Prop :=
  ∀ job ∈ db.jobs, ∃ m ∈ db.messages.rows, m.id = job.messageId ∧ m.direction = .inbound

/-- What the query of a callback has found belongs to one of the callbacks. -/
def StatusQuery.From (callbacks : Text → Text → Prop) (db : Database) : StatusQuery → Prop
  | .answered _ => True
  | .existing i status => ∃ m ∈ db.messages.rows, m.id = i ∧
      ∃ sid, m.providerMessageId = some sid ∧ callbacks sid status
  | .unknown sid status => isBlank (some sid) = false ∧ isBlank (some status) = false ∧
      callbacks sid status

/-- What an open transaction is about to write. -/
def Tx.Sound (callbacks : Text → Text → Prop) (now : Time) (db : Database) : Tx → Prop
  | .send b => b.template = approvedFirstTouchTemplate db.templates ∧
      ∀ d ∈ b.attemptLog, AttemptOf db.templates now d.saved
  | .inbound _ sid _ => isBlank (some sid) = false
  | .status q => q.From callbacks db

variable {callbacks : Text → Text → Prop} {new : OutreachMessage → Prop} {a b c : Database}
  {m m' m'' : OutreachMessage} {templates : List ReplyTemplate}

theorem Kept.refl (m : OutreachMessage) : Kept callbacks m m := ⟨rfl, .inl rfl, .inl ⟨rfl, rfl⟩⟩

theorem record_fields (h : m'.record = m.record) :
    m'.id = m.id ∧ m'.direction = m.direction ∧ m'.providerMessageId = m.providerMessageId := by
  simp only [OutreachMessage.record, OutreachMessage.mk.injEq, MessageDraft.mk.injEq] at h
  obtain ⟨⟨hdir, hsid, -⟩, hid, -⟩ := h
  exact ⟨hid, hdir, hsid⟩

theorem Kept.trans (h : Kept callbacks m m') (h' : Kept callbacks m' m'') :
    Kept callbacks m m'' where
  record := h'.record.trans h.record
  delivery := by
    obtain ⟨-, -, hsid⟩ := record_fields h.record
    rcases h'.delivery with heq | ⟨sid, status, hm, hcall⟩
    · rw [heq]
      exact h.delivery
    · exact Or.inr ⟨sid, status, hsid.symm.trans hm, hcall⟩
  review := by
    obtain ⟨-, hdir, -⟩ := record_fields h.record
    rcases h'.review with ⟨herror, hreview⟩ | ⟨hin, herror, hreview⟩
    · rw [herror, hreview]
      exact h.review
    · exact Or.inr ⟨hdir.symm.trans hin, herror, hreview⟩

theorem Kept.mono {callbacks' : Text → Text → Prop} (h : Kept callbacks m m')
    (hmore : ∀ sid status, callbacks sid status → callbacks' sid status) :
    Kept callbacks' m m' where
  record := h.record
  delivery := h.delivery.imp_right fun ⟨sid, status, hm, hcall, hstatus⟩ =>
    ⟨sid, status, hm, hmore sid status hcall, hstatus⟩
  review := h.review

/-- No later write takes a message out of its kind. -/
theorem Kept.wellFormed (h : Kept callbacks m m') (hm : WellFormed templates m) :
    WellFormed templates m' := by
  have hrec := h.record
  simp only [OutreachMessage.record, OutreachMessage.mk.injEq, MessageDraft.mk.injEq] at hrec
  obtain ⟨⟨hdir, hsid, hstatus, -, hbody, hlead, htemplate, hversion, hsent, -, hunmatched, -,
    haction, hrule⟩, hid, hcreated⟩ := hrec
  obtain ⟨hkind, hfits⟩ := hm
  simp only [MessageDraft.fits, Bool.and_eq_true] at hfits
  obtain ⟨⟨⟨hfitsSid, hfitsDelivery⟩, hfitsError⟩, hfitsBody⟩ := hfits
  refine ⟨?_, ?_⟩
  · cases hkind with
    | attempt hm =>
      have hout : m.direction ≠ .inbound := ne_of_eq_of_ne hm.direction (by decide)
      have herror : m'.sendError = m.sendError :=
        h.review.elim And.left fun hin => absurd hin.1 hout
      refine .attempt ⟨hdir ▸ hm.direction, hlead ▸ hm.lead, ?_, ?_, ?_⟩
      · rw [htemplate, hbody, hversion]
        exact hm.template
      · rw [hsent, hcreated]
        exact hm.sentAt
      · rw [hstatus, herror, hsid]
        rcases hm.outcome with hok | ⟨hfailed, hnone, hdelivery⟩
        · exact Or.inl hok
        · refine Or.inr ⟨hfailed, hnone, ?_⟩
          rcases h.delivery with heq | ⟨sid, _, hsome, -⟩
          · rw [heq]
            exact hdelivery
          · exact absurd (hnone.symm.trans hsome) (Option.some_ne_none sid).symm
    | stub hm =>
      have hout : m.direction ≠ .inbound := ne_of_eq_of_ne hm.direction (by decide)
      have herror : m'.sendError = m.sendError :=
        h.review.elim And.left fun hin => absurd hin.1 hout
      refine .stub ⟨hdir ▸ hm.direction, hstatus ▸ hm.status, hlead ▸ hm.lead,
        htemplate ▸ hm.template, hsid ▸ hm.providerMessageId, ?_, herror ▸ hm.sendError⟩
      rcases h.delivery with heq | ⟨_, _, -, -, heq, -⟩
      · rw [heq]
        exact hm.deliveryStatus
      · rw [heq]
        exact Option.some_ne_none _
    | inbound hm =>
      refine .inbound ⟨hdir ▸ hm.direction, hstatus ▸ hm.status, hsid ▸ hm.providerMessageId,
        htemplate ▸ hm.template, ?_, ?_, haction ▸ hm.verdict⟩
      · rw [hsent, hcreated]
        exact hm.sentAt
      · rw [hunmatched, hlead]
        exact hm.unmatched
  · simp only [MessageDraft.fits, Bool.and_eq_true]
    refine ⟨⟨⟨hsid ▸ hfitsSid, ?_⟩, ?_⟩, hbody ▸ hfitsBody⟩
    · rcases h.delivery with heq | ⟨_, _, -, -, heq, hfits⟩
      · rw [heq]
        exact hfitsDelivery
      · rw [heq]
        exact hfits
    · rcases h.review with ⟨heq, -⟩ | ⟨-, heq, -⟩
      · rw [heq]
        exact hfitsError
      · rw [heq]
        decide

namespace Database

theorem trail_of_eq (h : b.messages = a.messages) : a.Trail callbacks new b where
  kept _ m hm := ⟨m, h ▸ hm, .refl m⟩
  added m hm := .inl ⟨m, h ▸ hm, .refl m⟩

theorem Trail.trans (hnew : ∀ m m', Kept callbacks m m' → new m → new m')
    (h : a.Trail callbacks new b) (h' : b.Trail callbacks new c) : a.Trail callbacks new c where
  kept i m hm := by
    obtain ⟨m', hm', hk⟩ := h.kept i m hm
    obtain ⟨m'', hm'', hk'⟩ := h'.kept i m' hm'
    exact ⟨m'', hm'', hk.trans hk'⟩
  added m'' hm'' := by
    rcases h'.added m'' hm'' with ⟨m', hm', hk'⟩ | hm''
    · rcases h.added m' hm' with ⟨m, hm, hk⟩ | hm'
      · exact Or.inl ⟨m, hm, hk.trans hk'⟩
      · exact Or.inr (hnew m' m'' hk' hm')
    · exact Or.inr hm''

theorem Trail.mono {callbacks' : Text → Text → Prop} (h : a.Trail callbacks new b)
    (hmore : ∀ sid status, callbacks sid status → callbacks' sid status) :
    a.Trail callbacks' new b where
  kept i m hm := by
    obtain ⟨m', hm', hk⟩ := h.kept i m hm
    exact ⟨m', hm', hk.mono hmore⟩
  added m' hm' := (h.added m' hm').imp_left fun ⟨m, hm, hk⟩ => ⟨m, hm, hk.mono hmore⟩

theorem trail_of_append {rows : List OutreachMessage}
    (h : b.messages.rows = a.messages.rows ++ rows) (hnew : ∀ m ∈ rows, new m) :
    a.Trail callbacks new b where
  kept i m hm := by
    obtain ⟨hi, -⟩ := List.getElem?_eq_some_iff.mp hm
    refine ⟨m, ?_, .refl m⟩
    rw [h, List.getElem?_append_left hi]
    exact hm
  added m hm := by
    rw [h] at hm
    exact (List.mem_append.mp hm).imp (fun hm => ⟨m, hm, .refl m⟩) (hnew m)

/-- A change of one message that keeps its record. -/
theorem trail_modifyMessage {i : Id} {f : MessageDraft → MessageDraft}
    (hf : ∀ m ∈ a.messages.rows, m.id = i →
      Kept callbacks m { m with toMessageDraft := f m.toMessageDraft }) :
    a.Trail callbacks new (a.modifyMessage i f) := by
  let g (m : OutreachMessage) : OutreachMessage :=
    if m.id = i then { m with toMessageDraft := f m.toMessageDraft } else m
  have hkept : ∀ m ∈ a.messages.rows, Kept callbacks m (g m) := by
    intro m hm
    by_cases hid : m.id = i
    · simp only [g, if_pos hid]
      exact hf m hm hid
    · simp only [g, if_neg hid]
      exact .refl m
  refine ⟨fun j m hm => ⟨g m, ?_, hkept m (List.mem_of_getElem? hm)⟩, fun m' hm' => ?_⟩
  · show (a.messages.rows.map g)[j]? = _
    rw [List.getElem?_map, hm]
    rfl
  · obtain ⟨m, hm, rfl⟩ := List.mem_map.mp hm'
    exact Or.inl ⟨m, hm, hkept m hm⟩

/-- The message itself, with its record, is found again. -/
theorem Trail.mem (h : a.Trail callbacks new b) (hm : m ∈ a.messages.rows) :
    ∃ m' ∈ b.messages.rows, m'.record = m.record := by
  obtain ⟨i, hi⟩ := List.mem_iff_getElem?.mp hm
  obtain ⟨m', hm', hk⟩ := h.kept i m hi
  exact ⟨m', List.mem_of_getElem? hm', hk.record⟩

theorem JobsInbound.trail (hjobs : a.JobsInbound) (h : a.Trail callbacks new b) {job : SyncJob}
    (hjob : job ∈ a.jobs) :
    ∃ m ∈ b.messages.rows, m.id = job.messageId ∧ m.direction = .inbound := by
  obtain ⟨m, hm, hid, hdir⟩ := hjobs job hjob
  obtain ⟨m', hm', hrec⟩ := h.mem hm
  obtain ⟨hid', hdir', -⟩ := record_fields hrec
  exact ⟨m', hm', hid'.trans hid, hdir'.trans hdir⟩

end Database

theorem AttemptOf.later {d : MessageDraft} {now now' : Time} (h : AttemptOf templates now d)
    (hnow : now ≤ now') : AttemptOf templates now' d :=
  ⟨h.direction, h.lead, h.template, h.sentAt.imp fun _ ht => ⟨ht.1, ht.2.trans hnow⟩, h.outcome⟩

/-- What is about to be written stays sound while the table grows. -/
theorem Tx.Sound.later {callbacks' : Text → Text → Prop} {now now' : Time} {tx : Tx}
    (hq : tx.Sound callbacks now a) (h : a.Trail callbacks' new b)
    (htemplates : b.templates = a.templates) (hnow : now ≤ now')
    (hmore : ∀ sid status, callbacks sid status → callbacks' sid status) :
    tx.Sound callbacks' now' b := by
  cases tx with
  | send batch =>
    obtain ⟨ht, hlog⟩ := hq
    rw [Tx.Sound, htemplates]
    exact ⟨ht, fun d hd => (hlog d hd).later hnow⟩
  | inbound form sid matched => exact hq
  | status q =>
    cases q with
    | answered statusCode => trivial
    | unknown sid status => exact ⟨hq.1, hq.2.1, hmore sid status hq.2.2⟩
    | existing i status =>
      obtain ⟨m, hm, hid, sid, hsid, hcall⟩ := hq
      obtain ⟨m', hm', hrec⟩ := h.mem hm
      obtain ⟨hid', -, hsid'⟩ := record_fields hrec
      exact ⟨m', hm', hid'.trans hid, sid, hsid'.trans hsid, hmore sid status hcall⟩

end Trail

/-! ## What each transaction inserts -/

section Transactions

variable {callbacks : Text → Text → Prop} {a b : Database} {now : Time}

theorem attempt_sound {p : Platform} {t : ReplyTemplate} (lead : Lead) (reply : ProviderReply)
    (ht : approvedFirstTouchTemplate a.templates = some t) :
    AttemptOf a.templates now (performSend p now lead t reply).saved := by
  have hfailed : saved (some "failed".toList) = some "failed".toList := by decide
  rcases performSend_cases p now lead t reply with ⟨r, -, he⟩ | ⟨-, error, he⟩
  · rw [he]
    exact ⟨rfl, Option.some_ne_none _, ⟨t, ht, rfl, rfl, rfl⟩, ⟨now, rfl, le_rfl⟩,
      Or.inl ⟨rfl, rfl⟩⟩
  · rw [he]
    exact ⟨rfl, Option.some_ne_none _, ⟨t, ht, rfl, rfl, rfl⟩, ⟨now, rfl, le_rfl⟩,
      Or.inr ⟨rfl, rfl, hfailed⟩⟩

theorem visit_sound {p : Platform} {batch : SendBatch} {lead : Lead} {rest : List Lead}
    {reply : ProviderReply} (h : (Tx.send batch).Sound callbacks now a) :
    (Tx.send (batch.visit p now lead rest reply)).Sound callbacks now a := by
  obtain ⟨ht, hlog⟩ := h
  refine ⟨(visit_frame ..).2.1.trans ht, fun d hd => ?_⟩
  unfold SendBatch.visit at hd
  split at hd
  · exact hlog d hd
  · rename_i t hgate
    rcases List.mem_append.mp hd with hd | hd
    · exact hlog d hd
    · rw [List.mem_singleton.mp hd]
      exact attempt_sound lead reply (ht.symm.trans (gate_eq_ok.mp hgate).2.2.2.2.1)

theorem findLogged_spec {m : OutreachMessage} {sid : Text} (h : findLogged a sid = some m) :
    m ∈ a.messages.rows ∧ m.providerMessageId = some sid := by
  unfold findLogged at h
  exact ⟨List.mem_of_find?_eq_some h, of_decide_eq_true
    (List.find?_some (p := fun m : OutreachMessage => decide (m.providerMessageId = some sid)) h)⟩

theorem statusQuery_from (form : StatusForm)
    (hform : ∀ sid status, form = ⟨some sid, some status⟩ → callbacks sid status) :
    (statusQuery a form).From callbacks a := by
  obtain ⟨messageSid, messageStatus⟩ := form
  unfold statusQuery
  split
  · rename_i sid status hsid hstatus
    cases hsid
    cases hstatus
    have hcall := hform sid status rfl
    split
    · trivial
    · rename_i hblank
      rw [Bool.or_eq_true, not_or, Bool.not_eq_true, Bool.not_eq_true] at hblank
      split
      · rename_i m hfound
        obtain ⟨hm, hsid⟩ := findLogged_spec hfound
        exact ⟨m, hm, rfl, sid, hsid, hcall⟩
      · exact ⟨hblank.1, hblank.2, hcall⟩
  · trivial

theorem setDeliveryStatus_trail {new : OutreachMessage → Prop} {i : Id} {status : Text}
    {fault : Bool} (hfrom : (StatusQuery.existing i status).From callbacks a)
    (h : setDeliveryStatus a i status fault = some b) :
    a.Trail callbacks new b ∧ b.jobs = a.jobs := by
  obtain ⟨x, hx, hxid, sid, hsid, hcall⟩ := hfrom
  unfold setDeliveryStatus at h
  split at h
  · exact nomatch h
  · rename_i hfits
    cases h
    refine ⟨Database.trail_modifyMessage fun m hm hid => ?_, rfl⟩
    obtain rfl := a.messages.eq_of_id_eq hm hx (hid.trans hxid.symm)
    rw [Bool.or_eq_true, not_or, Bool.not_eq_true, Bool.not_eq_true, Bool.not_eq_false'] at hfits
    exact ⟨rfl, Or.inr ⟨sid, status, hsid, hcall, rfl, hfits.2⟩, .inl ⟨rfl, rfl⟩⟩

/-- Each row that an insert adds is one of its drafts. -/
theorem Database.insert_mem {ds : List MessageDraft} (h : a.insert now ds = some b) :
    ∃ rows, b.messages.rows = a.messages.rows ++ rows ∧ b.jobs = a.jobs ∧
      ∀ m ∈ rows, ∃ d ∈ ds, m.toMessageDraft = d.saved ∧ m.createdDate = now ∧ m.fits = true := by
  obtain ⟨hacc, -, -, hjobs, rows, hrows, hall⟩ := Database.insert_spec h
  refine ⟨rows, hrows, hjobs, fun m hm => ?_⟩
  obtain ⟨i, hi, rfl⟩ := List.getElem_of_mem hm
  obtain ⟨hlength, hget⟩ := List.forall₂_iff_get.mp hall
  obtain ⟨hdraft, hcreated⟩ := hget i (hlength ▸ hi) hi
  have hd : ds.get ⟨i, hlength ▸ hi⟩ ∈ ds := List.get_mem ..
  exact ⟨_, hd, hdraft, hcreated, (congrArg MessageDraft.fits hdraft).trans (hacc.1 _ hd)⟩

theorem statusStub_stubOf {sid status : Text} (hsid : isBlank (some sid) = false)
    (hstatus : isBlank (some status) = false) : StubOf (statusStub sid status).saved where
  direction := rfl
  status := rfl
  lead := rfl
  template := rfl
  providerMessageId := by
    show saved (some sid) ≠ none
    rw [saved_of_not_blank hsid]
    exact Option.some_ne_none _
  deliveryStatus := by
    show saved (some status) ≠ none
    rw [saved_of_not_blank hstatus]
    exact Option.some_ne_none _
  sendError := by
    show saved (some "status callback for unknown SID".toList) = _
    decide

theorem statusCommit_trail {fault fault' : Bool} {q : StatusQuery} {out : Database × Nat}
    (hq : q.From callbacks a) (h : statusCommit now fault fault' a q = some out) :
    a.Trail callbacks (WellFormed a.templates) out.1 ∧ out.1.jobs = a.jobs := by
  cases q with
  | answered statusCode =>
    cases h
    exact ⟨Database.trail_of_eq rfl, rfl⟩
  | existing i status =>
    obtain ⟨db, hset, rfl⟩ := Option.map_eq_some_iff.mp h
    exact setDeliveryStatus_trail hq hset
  | unknown sid status =>
    obtain ⟨hsid, hstatus, hcall⟩ := hq
    simp only [statusCommit] at h
    split at h
    · rename_i db hins
      cases h
      cases fault with
      | true => cases hins
      | false =>
        obtain ⟨rows, hrows, hjobs, hnew⟩ := Database.insert_mem hins
        refine ⟨Database.trail_of_append hrows fun m hm => ?_, hjobs⟩
        obtain ⟨d, hd, hdraft, -, hfits⟩ := hnew m hm
        rw [List.mem_singleton.mp hd] at hdraft
        exact ⟨.stub (hdraft ▸ statusStub_stubOf hsid hstatus), hfits⟩
    · split at h
      · cases h
        exact ⟨Database.trail_of_eq rfl, rfl⟩
      · rename_i winner hfound
        obtain ⟨db, hset, rfl⟩ := Option.map_eq_some_iff.mp h
        obtain ⟨hwinner, hwinnerSid⟩ := findLogged_spec hfound
        exact setDeliveryStatus_trail ⟨winner, hwinner, rfl, sid, hwinnerSid, hcall⟩ hset

theorem commit_trail {batch : SendBatch} (hsound : (Tx.send batch).Sound callbacks now a)
    (h : batch.commit now a = some b) :
    a.Trail callbacks (WellFormed a.templates) b ∧ b.jobs = a.jobs := by
  obtain ⟨db, hins, rfl⟩ := Option.map_eq_some_iff.mp h
  obtain ⟨hmessages, hjobs⟩ := contact_frame batch.contactedLeads db
  obtain ⟨rows, hrows, hjobs', hnew⟩ := Database.insert_mem hins
  refine ⟨Database.trail_of_append (hmessages ▸ hrows) fun m hm => ?_, hjobs.trans hjobs'⟩
  obtain ⟨d, hd, hdraft, hcreated, hfits⟩ := hnew m hm
  refine ⟨.attempt ?_, hfits⟩
  rw [hdraft, hcreated]
  exact hsound.2 d hd

theorem inbound_wellFormed (U : UnicodeData) (form : InboundForm) {sid : Text}
    (matched : Option Lead) (id : Id) (hsid : isBlank (some sid) = false)
    (hfits : (inboundDraft now form sid matched).saved.fits = true) :
    WellFormed a.templates ⟨applyVerdict U form matched (inboundDraft now form sid matched).saved,
      id, now⟩ where
  kind := .inbound
    { direction := rfl
      status := rfl
      providerMessageId := by
        show saved (some sid) ≠ none
        rw [saved_of_not_blank hsid]
        exact Option.some_ne_none _
      template := rfl
      sentAt := rfl
      unmatched := by cases matched <;> rfl
      verdict := Option.some_ne_none _ }
  fits := hfits

/-- The verdict is written to the row just inserted, and to no other. -/
theorem stored_trail (U : UnicodeData) (form : InboundForm) {sid : Text} (matched : Option Lead)
    (hjobs : a.JobsInbound) (hsid : isBlank (some sid) = false)
    (hacc : a.accepts [inboundDraft now form sid matched]) :
    let stored := persistVerdict U now form matched a.messages.next
      (a.addMessage now (inboundDraft now form sid matched))
    a.Trail callbacks (WellFormed a.templates) stored ∧ stored.JobsInbound := by
  intro stored
  obtain ⟨hmessages, -⟩ := persistVerdict_writes U now form matched a.messages.next
    (a.addMessage now (inboundDraft now form sid matched))
  let row : OutreachMessage := (inboundDraft now form sid matched).save now a.messages.next
  let row' : OutreachMessage :=
    { row with toMessageDraft := applyVerdict U form matched row.toMessageDraft }
  have hrows : stored.messages.rows = a.messages.rows ++ [row'] := by
    show (persistVerdict U now form matched a.messages.next _).messages.rows = _
    rw [hmessages]
    show (a.messages.rows ++ [row]).map _ = _
    rw [List.map_append]
    refine congrArg₂ (· ++ ·) ?_ ?_
    · refine (List.map_congr_left fun m hm => ?_).trans (List.map_id _)
      exact if_neg (a.messages.below m hm).ne
    · exact congrArg ([·]) (if_pos rfl)
  have htrail : a.Trail callbacks (WellFormed a.templates) stored := by
    refine Database.trail_of_append hrows fun m hm => ?_
    rw [List.mem_singleton.mp hm]
    exact inbound_wellFormed U form matched a.messages.next hsid
      (hacc.1 _ (List.mem_singleton_self _))
  refine ⟨htrail, fun job hjob => ?_⟩
  rcases persistVerdict_jobs U now form matched hjob with hold | ⟨-, -, hid⟩
  · exact hjobs.trail htrail hold
  · exact ⟨row', hrows ▸ List.mem_append_right _ (List.mem_singleton_self _), hid.symm, rfl⟩

theorem afterSync_trail {job : SyncJob} (statusCode : Int)
    (hjob : ∃ m ∈ a.messages.rows, m.id = job.messageId ∧ m.direction = .inbound) :
    a.Trail callbacks (WellFormed a.templates) (afterSync job statusCode a) ∧
      ∀ j ∈ (afterSync job statusCode a).jobs, j ∈ a.jobs ∨ j.messageId = job.messageId := by
  unfold afterSync
  split
  · exact ⟨Database.trail_of_eq rfl, fun _ => Or.inl⟩
  · split
    · refine ⟨Database.trail_of_eq rfl, fun j hj => ?_⟩
      rcases List.mem_append.mp hj with hj | hj
      · exact Or.inl hj
      · rw [List.mem_singleton.mp hj]
        exact Or.inr rfl
    · refine ⟨Database.trail_modifyMessage fun m hm hid => ?_, fun _ => Or.inl⟩
      obtain ⟨x, hx, hxid, hdir⟩ := hjob
      obtain rfl := a.messages.eq_of_id_eq hm hx (hid.trans hxid.symm)
      exact ⟨rfl, .inl rfl, Or.inr ⟨hdir, rfl, rfl⟩⟩

end Transactions

/-! ## Along a run -/

section Runs

variable {ν : Type} {p : Platform} {P : PhoneNumbers ν} {w₀ w w' : Org} {seen : List Label}
  {e : Label}

/-- The invariant of an audited run. -/
structure Audited (w₀ : Org) (seen : List Label) (w : Org) : Prop where
  templates : w.db.templates = w₀.db.templates
  trail : w₀.db.Trail (begun seen) (WellFormed w₀.db.templates) w.db
  jobs : w.db.JobsInbound
  sound : ∀ h tx, w.txs h = some tx → tx.Sound (begun seen) w.now w.db

theorem begun_mono (seen' : List Label) (sid status : Text) (h : begun seen sid status) :
    begun (seen ++ seen') sid status := h.imp fun _ hmem => List.mem_append_left _ hmem

theorem finished_trail {fault fault' : Bool} {tx : Tx} {db : Database}
    {callbacks : Text → Text → Prop} (hjobs : w.db.JobsInbound)
    (hsound : tx.Sound callbacks w.now w.db) (hdb : w.finished p fault fault' tx = some db) :
    w.db.Trail callbacks (WellFormed w.db.templates) db ∧ db.JobsInbound := by
  have hframe : w.db.Trail callbacks (WellFormed w.db.templates) db ∧ db.jobs = w.db.jobs →
      w.db.Trail callbacks (WellFormed w.db.templates) db ∧ db.JobsInbound := by
    rintro ⟨htrail, hsame⟩
    exact ⟨htrail, fun job hjob => hjobs.trail htrail (hsame ▸ hjob)⟩
  rcases finished_cases hdb with rfl | ⟨b, rfl, hc⟩ | ⟨form, sid, matched, rfl, hacc, rfl⟩ |
    ⟨query, out, rfl, hs, rfl⟩
  · exact hframe ⟨Database.trail_of_eq rfl, rfl⟩
  · exact hframe (commit_trail hsound hc)
  · exact stored_trail p.unicode form matched hjobs hsound hacc
  · exact hframe (statusCommit_trail hsound hs)

theorem step_trail {callbacks : Text → Text → Prop} (hjobs : w.db.JobsInbound)
    (hopen : ∀ h tx, w.txs h = some tx → tx.Sound callbacks w.now w.db)
    (hs : (org p P).step w e = some w') :
    w.db.Trail callbacks (WellFormed w.db.templates) w'.db ∧ w'.db.JobsInbound := by
  rcases step_db hs with hdb | ⟨h, fault, fault', tx, -, htx, hdb⟩ |
    ⟨i, delivered, statusCode, eventId, job, -, hj, hdb⟩ | ⟨record, -, hdb⟩
  · rw [hdb]
    exact ⟨Database.trail_of_eq rfl, hjobs⟩
  · exact finished_trail hjobs (hopen h tx htx) hdb
  · rw [hdb]
    have hrow := hjobs job (List.mem_of_getElem? hj)
    let taken : Database := { w.db with jobs := w.db.jobs.eraseIdx i }
    obtain ⟨hlater, hof⟩ := afterSync_trail (a := taken) statusCode hrow
    have htrail : w.db.Trail callbacks (WellFormed w.db.templates)
        (afterSync job statusCode taken) := ⟨hlater.kept, hlater.added⟩
    refine ⟨htrail, fun j hjmem => ?_⟩
    rcases hof j hjmem with hold | hid
    · exact hjobs.trail htrail (List.mem_of_mem_eraseIdx hold)
    · rw [hid]
      exact hjobs.trail htrail (List.mem_of_getElem? hj)
  · rw [hdb]
    have hframe : (upsertLead w.now record w.db).messages = w.db.messages ∧
        (upsertLead w.now record w.db).jobs = w.db.jobs := by
      unfold upsertLead
      split <;> exact ⟨rfl, rfl⟩
    have htrail : w.db.Trail callbacks (WellFormed w.db.templates)
        (upsertLead w.now record w.db) := Database.trail_of_eq hframe.1
    exact ⟨htrail, fun job hjob => hjobs.trail htrail (hframe.2 ▸ hjob)⟩

/-- What a transaction begins with, or goes on with, is sound where the step is taken. -/
theorem opened_sound {h : Nat} {tx : Tx} {callbacks : Text → Text → Prop}
    (hopen : ∀ h tx, w.txs h = some tx → tx.Sound callbacks w.now w.db)
    (hcallback : ∀ h sid status, e = .beginStatus h ⟨some sid, some status⟩ →
      callbacks sid status)
    (hs : (org p P).step w e = some w') (htx : w'.txs h = some tx) :
    tx.Sound callbacks w.now w.db := by
  rcases step_opened hs htx with ⟨-, hsame⟩ | ⟨ids, -, -, rfl⟩ | ⟨reply, b, lead, rest, -, hb, -, rfl⟩ |
    ⟨form, sid, matched, -, hq, rfl⟩ | ⟨form, rfl, rfl⟩
  · exact hopen h tx hsame
  · exact ⟨rfl, List.forall_mem_nil _⟩
  · exact visit_sound (hopen h _ hb)
  · unfold inboundQuery at hq
    split at hq
    · cases hq
    · split at hq
      · cases hq
      · rename_i hblank
        split at hq
        · cases hq
        · cases hq
          exact Bool.eq_false_of_not_eq_true hblank
  · refine statusQuery_from form fun sid status hform => hcallback h sid status ?_
    rw [hform]

theorem audited_step (ha : Audited w₀ seen w) (hs : (org p P).step w e = some w') :
    Audited w₀ (seen ++ [e]) w' := by
  have hmore : ∀ sid status, begun seen sid status → begun (seen ++ [e]) sid status :=
    begun_mono [e]
  have hsame : w.db.Trail (begun (seen ++ [e])) (WellFormed w.db.templates) w.db :=
    Database.trail_of_eq rfl
  have hopen : ∀ h tx, w.txs h = some tx → tx.Sound (begun (seen ++ [e])) w.now w.db :=
    fun h tx htx => (ha.sound h tx htx).later hsame rfl le_rfl hmore
  obtain ⟨htrail, hjobs⟩ := step_trail ha.jobs hopen hs
  have htemplates : w'.db.templates = w.db.templates := (step_grows hs).1.templates
  have hclosed : ∀ m m', Kept (begun (seen ++ [e])) m m' → WellFormed w₀.db.templates m →
      WellFormed w₀.db.templates m' := fun _ _ hk hm => hk.wellFormed hm
  refine ⟨htemplates.trans ha.templates,
    (ha.trail.mono hmore).trans hclosed (ha.templates ▸ htrail), hjobs, fun h tx htx => ?_⟩
  have hnow : tx.Sound (begun (seen ++ [e])) w.now w.db := by
    refine opened_sound hopen (fun h sid status he => ⟨h, ?_⟩) hs htx
    rw [he]
    exact List.mem_append_right _ (List.mem_singleton_self _)
  exact hnow.later htrail htemplates (step_now hs) fun _ _ h => h

theorem run_audited {es : List Label} (hquiet : ∀ h, w₀.txs h = none)
    (hjobs : w₀.db.JobsInbound) (hr : (org p P).run w₀ es = some w) : Audited w₀ es w := by
  have hinit : Audited w₀ [] w₀ :=
    ⟨rfl, Database.trail_of_eq rfl, hjobs, fun h tx htx => nomatch (hquiet h).symm.trans htx⟩
  have hstep : ∀ seen u e v, Audited w₀ seen u → True → (org p P).step u e = some v →
      Audited w₀ (seen ++ [e]) v := fun _ _ _ _ ha _ hs => audited_step ha hs
  exact (org p P).run_history hstep hinit ((org p P).along_of_forall fun _ _ _ => trivial) hr

/-- Over every run, each committed message stays in its place and keeps all that its
transaction wrote; its delivery status is changed only by a callback begun since for its
own id, its error text and review flag only on an inbound message that could not be
mirrored. -/
theorem messages_kept {es : List Label} (hquiet : ∀ h, w₀.txs h = none)
    (hjobs : w₀.db.JobsInbound) (hr : (org p P).run w₀ es = some w) (i : Nat)
    (m : OutreachMessage) (hm : w₀.db.messages.rows[i]? = some m) :
    ∃ m', w.db.messages.rows[i]? = some m' ∧ Kept (begun es) m m' :=
  (run_audited hquiet hjobs hr).trail.kept i m hm

end Runs

/-- The twins, the first of which has been sent to. -/
def sentToFirst : Org :=
  { twins with
    db :=
      { twins.db with
        messages := Table.empty.append (MessageDraft.save
          (performSend gmtPlatform noon (readyLead 0 0) firstTouchTemplate
            (.answered 200 sidBody)) noon) fun _ => rfl } }

/-- The provider's callback for the message. -/
def deliveredCallback : List Label :=
  [.beginStatus 1 ⟨some "SM1".toList, some "delivered".toList⟩, .finish 1 false false]

theorem messages_kept_sentToFirst :
    ∃ w m m', (org gmtPlatform .e164).run sentToFirst deliveredCallback = some w ∧
      sentToFirst.db.messages.rows[0]? = some m ∧ w.db.messages.rows[0]? = some m' ∧
      m.deliveryStatus = none ∧ m'.deliveryStatus = some "delivered".toList ∧
      Kept (begun deliveredCallback) m m' := by
  have hruns : ((org gmtPlatform .e164).run sentToFirst deliveredCallback).map (fun w =>
      w.db.messages.rows.map fun m => m.deliveryStatus) = some [some "delivered".toList] := by
    decide +kernel
  obtain ⟨w, hw, hdelivered⟩ := Option.map_eq_some_iff.mp hruns
  have hjobs : sentToFirst.db.JobsInbound := fun _ hjob => (List.not_mem_nil hjob).elim
  obtain ⟨m', hm', hk⟩ := messages_kept (fun _ => rfl) hjobs hw 0 _ rfl
  have hstatus : (w.db.messages.rows.map fun m => m.deliveryStatus)[0]? =
      some m'.deliveryStatus := by
    rw [List.getElem?_map, hm']
    rfl
  rw [hdelivered] at hstatus
  exact ⟨w, _, m', hw, rfl, hm', by decide +kernel, (Option.some.inj hstatus).symm, hk⟩

section Runs

variable {ν : Type} {p : Platform} {P : PhoneNumbers ν} {w₀ w : Org}

/-- Every message of a reachable state is an attempt with the approved template, the stub
of a callback, or an inbound message with its verdict, and fits its fields. -/
theorem messages_wellFormed {es : List Label} (hquiet : ∀ h, w₀.txs h = none)
    (hjobs : w₀.db.JobsInbound)
    (hinit : ∀ m ∈ w₀.db.messages.rows, WellFormed w₀.db.templates m)
    (hr : (org p P).run w₀ es = some w) :
    ∀ m ∈ w.db.messages.rows, WellFormed w.db.templates m := by
  have ha := run_audited hquiet hjobs hr
  intro m' hm'
  rw [ha.templates]
  rcases ha.trail.added m' hm' with ⟨m, hm, hk⟩ | hnew
  · exact hk.wellFormed (hinit m hm)
  · exact hnew

end Runs

theorem messages_wellFormed_twins :
    ∃ w, (org gmtPlatform .e164).run twins twoScopesRun = some w ∧
      w.db.messages.rows.length = 2 ∧
      ∀ m ∈ w.db.messages.rows, WellFormed w.db.templates m := by
  have hruns : ((org gmtPlatform .e164).run twins twoScopesRun).map
      (fun w => w.db.messages.rows.length) = some 2 := by decide +kernel
  obtain ⟨w, hw, hlength⟩ := Option.map_eq_some_iff.mp hruns
  have hjobs : twins.db.JobsInbound := fun _ hjob => (List.not_mem_nil hjob).elim
  exact ⟨w, hw, hlength, messages_wellFormed (fun _ => rfl) hjobs (List.forall_mem_nil _) hw⟩

end Outreach.Salesforce
