import Outreach.Salesforce.SendGate

/-!
# The event log and the send gate

No step of the send path reads the log. What the two stores share is the inbound
opt-out: the transaction that queues the job for the log opts the matched lead out.
-/

namespace Outreach.Salesforce

open Outreach.Library Outreach.Guardrails Outreach.Cleansing Outreach.Suppression

set_option autoImplicit false

/-- The step writes to the log, and to nothing else. -/
def Label.onlyLogs : Label → Bool
  | .postSuppression .. => true
  | .reconcile .. => true
  | _ => false

def Org.withLog (w : Org) (events : List Event) : Org := { w with events }

section Log

variable {ν : Type} {p : Platform} {P : PhoneNumbers ν} {w w' u : Org} {e : Label}
  {es : List Label}

theorem step_onlyLogs (he : e.onlyLogs = true) (hs : (org p P).step w e = some w') :
    w' = w.withLog w'.events := by
  cases e with
  | postSuppression identifier reason source occurredAt eventId =>
    cases hs
    rfl
  | reconcile seen raw occurredAt eventId =>
    cases hs
    rfl
  | _ => exact nomatch he

/-- Every other step goes the same way whatever the log holds. -/
theorem step_withLog (he : e.onlyLogs = false) (hs : (org p P).step w e = some w')
    (events : List Event) :
    ∃ events', (org p P).step (w.withLog events) e = some (w'.withLog events') := by
  cases e with
  | tick d =>
    cases hs
    exact ⟨events, rfl⟩
  | beginSend h ids =>
    obtain ⟨hfree, rfl⟩ := step_beginSend.mp hs
    exact ⟨events, step_beginSend.mpr ⟨hfree, rfl⟩⟩
  | visitLead h reply =>
    obtain ⟨b, lead, rest, hopen, hleads, rfl⟩ := step_visitLead.mp hs
    exact ⟨events, step_visitLead.mpr ⟨b, lead, rest, hopen, hleads, rfl⟩⟩
  | beginInbound h form =>
    obtain ⟨hfree, ⟨hq, rfl⟩ | ⟨sid, matched, hq, rfl⟩⟩ := step_beginInbound.mp hs
    · exact ⟨events, step_beginInbound.mpr ⟨hfree, Or.inl ⟨hq, rfl⟩⟩⟩
    · exact ⟨events, step_beginInbound.mpr ⟨hfree, Or.inr ⟨sid, matched, hq, rfl⟩⟩⟩
  | beginStatus h form =>
    obtain ⟨hfree, rfl⟩ := step_beginStatus.mp hs
    exact ⟨events, step_beginStatus.mpr ⟨hfree, rfl⟩⟩
  | finish h fault fault' =>
    obtain ⟨tx, db, hopen, hdb, rfl⟩ := step_finish.mp hs
    have hdb' : (w.withLog events).finished p fault fault' tx = some db := by
      cases tx <;> exact hdb
    exact ⟨events, step_finish.mpr ⟨tx, db, hopen, hdb', rfl⟩⟩
  | abort h =>
    obtain ⟨hopen, rfl⟩ := step_abort.mp hs
    exact ⟨events, step_abort.mpr ⟨hopen, rfl⟩⟩
  | runJob i delivered statusCode eventId =>
    obtain ⟨job, hj, hok, rfl⟩ := step_runJob.mp hs
    exact ⟨_, step_runJob.mpr ⟨job, hj, hok, rfl⟩⟩
  | upsert record =>
    cases hs
    exact ⟨events, rfl⟩
  | postSuppression identifier reason source occurredAt eventId => exact nomatch he
  | reconcile seen raw occurredAt eventId => exact nomatch he

/-- A run goes the same way without the steps that write to the log only. -/
theorem run_without_log (hr : (org p P).run w es = some u) :
    ∃ events, (org p P).run w (es.filter fun e => !e.onlyLogs) = some (u.withLog events) := by
  have hhidden : ∀ s e t v, (∃ events, v = s.withLog events) → e.onlyLogs = true →
      (org p P).step s e = some t → ∃ events, v = t.withLog events := by
    rintro s e t v ⟨events, rfl⟩ he hs
    rw [step_onlyLogs he hs]
    exact ⟨events, rfl⟩
  have hshown : ∀ s e t v, (∃ events, v = s.withLog events) → e.onlyLogs = false →
      (org p P).step s e = some t →
      ∃ v', (org p P).step v e = some v' ∧ ∃ events, v' = t.withLog events := by
    rintro s e t v ⟨events, rfl⟩ he hs
    obtain ⟨events', hs'⟩ := step_withLog he hs events
    exact ⟨_, hs', events', rfl⟩
  obtain ⟨v, hv, events, rfl⟩ := (org p P).run_erase hhidden hshown ⟨w.events, rfl⟩ hr
  exact ⟨events, hv⟩

/-! ## The mirror jobs -/

theorem newEvent_identifierRaw {U : UnicodeData} {identifier reason source eventId : Text}
    {occurredAt : DateTime} {event : Event}
    (h : newEvent U P identifier reason source occurredAt eventId = .ok event) :
    event.identifierRaw = identifier := by
  obtain ⟨_, _, -, -, rfl⟩ := newEvent_eq_ok.mp h
  rfl

theorem posted_eq_some {delivered : Bool} {now : Time} {job : SyncJob} {eventId : Text}
    {event : Event} : posted p P delivered now job eventId = some event ↔ delivered = true ∧
      newEvent p.unicode P job.identifier ((job.reason.map ruleText).getD [])
        "salesforce_inbound_guardrail".toList (wholeSeconds now) eventId = .ok event := by
  unfold posted
  cases delivered with
  | false => simp
  | true =>
    cases newEvent p.unicode P job.identifier ((job.reason.map ruleText).getD [])
        "salesforce_inbound_guardrail".toList (wholeSeconds now) eventId with
    | error error => simp [Except.toOption]
    | ok added => simp [Except.toOption]

theorem posted_identifierRaw {delivered : Bool} {now : Time} {job : SyncJob} {eventId : Text}
    {event : Event} (h : posted p P delivered now job eventId = some event) :
    event.identifierRaw = job.identifier :=
  newEvent_identifierRaw (posted_eq_some.mp h).2

theorem setDeliveryStatus_jobs {db db' : Database} {i : Id} {status : Text} {fault : Bool}
    (h : setDeliveryStatus db i status fault = some db') : db'.jobs = db.jobs := by
  unfold setDeliveryStatus at h
  split at h
  · exact nomatch h
  · rw [← Option.some.inj h]
    rfl

theorem statusCommit_jobs {now : Time} {fault fault' : Bool} {db : Database} {q : StatusQuery}
    {out : Database × Nat} (h : statusCommit now fault fault' db q = some out) :
    out.1.jobs = db.jobs := by
  cases q with
  | answered statusCode =>
    cases h
    rfl
  | existing i status =>
    obtain ⟨db', hset, rfl⟩ := Option.map_eq_some_iff.mp h
    exact setDeliveryStatus_jobs hset
  | unknown sid status =>
    simp only [statusCommit] at h
    split at h
    · rename_i db' hins
      cases h
      cases fault with
      | true => cases hins
      | false =>
        rw [if_neg Bool.false_ne_true] at hins
        exact (Database.insert_spec hins).2.2.2.1
    · split at h
      · cases h
        rfl
      · obtain ⟨db', hset, rfl⟩ := Option.map_eq_some_iff.mp h
        exact setDeliveryStatus_jobs hset

theorem commit_jobs {b : SendBatch} {now : Time} {db db' : Database}
    (h : b.commit now db = some db') : db'.jobs = db.jobs := by
  obtain ⟨db₁, hins, rfl⟩ := Option.map_eq_some_iff.mp h
  exact (contact_frame _ _).2.trans (Database.insert_spec hins).2.2.2.1

/-- The transaction has stored an inbound opt-out, and queued its job. -/
def Queued (p : Platform) (w : Org) (tx : Tx) (db : Database) (job : SyncJob) : Prop :=
  ∃ form sid matched, tx = .inbound form sid matched ∧
    db = persistVerdict p.unicode w.now form matched w.db.messages.next
      (w.db.addMessage w.now (inboundDraft w.now form sid matched)) ∧
    suppresses p.unicode form.body ∧ normalizePhone form.fromNumber = some job.identifier ∧
    job.messageId = w.db.messages.next

theorem finished_jobs {fault fault' : Bool} {tx : Tx} {db : Database} {job : SyncJob}
    (h : w.finished p fault fault' tx = some db) (hj : job ∈ db.jobs) :
    job ∈ w.db.jobs ∨ Queued p w tx db job := by
  rcases finished_cases h with rfl | ⟨b, -, hc⟩ | ⟨form, sid, matched, htx, -, hdb⟩ |
    ⟨query, out, -, hs, rfl⟩
  · exact Or.inl hj
  · exact Or.inl (commit_jobs hc ▸ hj)
  · rw [hdb] at hj
    rcases persistVerdict_jobs _ _ _ _ hj with hj | ⟨hstop, hn, hm⟩
    · exact Or.inl hj
    · exact Or.inr ⟨form, sid, matched, htx, hdb, hstop, hn, hm⟩
  · exact Or.inl (statusCommit_jobs hs ▸ hj)

theorem afterSync_jobs {job job' : SyncJob} {statusCode : Int} {db : Database}
    (hj : job' ∈ (afterSync job statusCode db).jobs) :
    job' ∈ db.jobs ∨ job'.identifier = job.identifier ∧ job'.messageId = job.messageId := by
  unfold afterSync at hj
  split at hj
  · exact Or.inl hj
  · split at hj
    · rcases List.mem_append.mp hj with hj | hj
      · exact Or.inl hj
      · rw [List.mem_singleton.mp hj]
        exact Or.inr ⟨rfl, rfl⟩
    · exact Or.inl hj

/-- A pending job was pending before, or is tried again, or is queued by an inbound opt-out. -/
theorem step_jobs {job : SyncJob} (hs : (org p P).step w e = some w') (hj : job ∈ w'.db.jobs) :
    (∃ old ∈ w.db.jobs, old.identifier = job.identifier ∧ old.messageId = job.messageId) ∨
      ∃ h tx, w.txs h = some tx ∧ Queued p w tx w'.db job := by
  have hsame : w'.db.jobs = w.db.jobs →
      ∃ old ∈ w.db.jobs, old.identifier = job.identifier ∧ old.messageId = job.messageId :=
    fun h => ⟨job, h ▸ hj, rfl, rfl⟩
  rcases step_db hs with hdb | ⟨h, fault, fault', tx, -, hopen, hdb⟩ |
    ⟨i, delivered, statusCode, eventId, ran, -, hran, hdb⟩ | ⟨record, -, hdb⟩
  · exact Or.inl (hsame (congrArg Database.jobs hdb))
  · rcases finished_jobs hdb hj with hold | hnew
    · exact Or.inl ⟨job, hold, rfl, rfl⟩
    · exact Or.inr ⟨h, tx, hopen, hnew⟩
  · rw [hdb] at hj
    rcases afterSync_jobs hj with hj | ⟨hi, hm⟩
    · exact Or.inl ⟨job, List.mem_of_mem_eraseIdx hj, rfl, rfl⟩
    · exact Or.inl ⟨ran, List.mem_of_getElem? hran, hi.symm, hm.symm⟩
  · refine Or.inl (hsame ?_)
    rw [hdb]
    unfold upsertLead
    split <;> rfl

/-! ## From a job back to a lead -/

/-- In some state of the run the lead had the number. -/
def HadNumber (p : Platform) (P : PhoneNumbers ν) (w₀ : Org) (es : List Label) (lead : Id)
    (n : Text) : Prop :=
  ∃ pre post u, es = pre ++ post ∧ (org p P).run w₀ pre = some u ∧
    ∃ x ∈ u.db.leads.rows, x.id = lead ∧ x.phone = some n

theorem HadNumber.append {w₀ : Org} {lead : Id} {n : Text} (h : HadNumber p P w₀ es lead n)
    (fs : List Label) : HadNumber p P w₀ (es ++ fs) lead n := by
  obtain ⟨pre, post, u, rfl, hrun, hx⟩ := h
  exact ⟨pre, post ++ fs, u, List.append_assoc .., hrun, hx⟩

/-- The job is about a message, and the lead of the message is opted out. -/
def JobBacked (p : Platform) (P : PhoneNumbers ν) (w₀ : Org) (es : List Label) (w : Org)
    (identifier : Text) (messageId : Id) : Prop :=
  ∃ m ∈ w.db.messages.rows, m.id = messageId ∧ ∀ lead, m.lead = some lead →
    w.db.OptedOut lead ∧ HadNumber p P w₀ es lead identifier

/-- An open delivery has matched a lead by its number. -/
def InboundBacked (p : Platform) (P : PhoneNumbers ν) (w₀ : Org) (es : List Label) (w : Org)
    (form : InboundForm) (matched : Option Lead) : Prop :=
  ∀ l, matched = some l → (∃ x ∈ w.db.leads.rows, x.id = l.id) ∧
    ∀ n, normalizePhone form.fromNumber = some n → HadNumber p P w₀ es l.id n

structure MirrorInv (p : Platform) (P : PhoneNumbers ν) (w₀ : Org) (es : List Label) (w : Org) :
    Prop where
  run : (org p P).run w₀ es = some w
  jobs : ∀ job ∈ w.db.jobs, JobBacked p P w₀ es w job.identifier job.messageId
  inbound : ∀ h form sid matched, w.txs h = some (.inbound form sid matched) →
    InboundBacked p P w₀ es w form matched

theorem step_inbound {h : Nat} {form : InboundForm} {sid : Text} {matched : Option Lead}
    (hs : (org p P).step w e = some w') (htx : w'.txs h = some (.inbound form sid matched)) :
    w.txs h = some (.inbound form sid matched) ∨
      inboundQuery w.db form = .unlogged sid matched := by
  rcases step_opened hs htx with ⟨-, hsame⟩ | ⟨_, -, -, heq⟩ | ⟨_, _, _, _, -, -, -, heq⟩ |
    ⟨_, _, _, -, hq, heq⟩ | ⟨_, -, heq⟩
  · exact Or.inl hsame
  · cases heq
  · cases heq
  · cases heq
    exact Or.inr hq
  · cases heq

theorem JobBacked.step {w₀ : Org} {identifier : Text} {messageId : Id}
    (h : JobBacked p P w₀ es w identifier messageId) (hgrows : w.db.Grows w'.db) :
    JobBacked p P w₀ (es ++ [e]) w' identifier messageId := by
  obtain ⟨m, hmem, hid, hlead⟩ := h
  obtain ⟨m', hmem', hstamp⟩ := hgrows.stamp hmem
  have hid' : m'.id = m.id := congrArg Prod.fst hstamp
  have hlead' : m'.lead = m.lead := congrArg (fun s => s.2.2.2.2) hstamp
  refine ⟨m', hmem', hid'.trans hid, fun lead hl => ?_⟩
  obtain ⟨hout, hhad⟩ := hlead lead (hlead'.symm.trans hl)
  exact ⟨hout.grows hgrows, hhad.append [e]⟩

/-- The delivery that queues a job inserts the message of the job and opts its lead out. -/
theorem jobBacked_queued {w₀ : Org} {form : InboundForm} {sid : Text} {matched : Option Lead}
    {n : Text} (hback : InboundBacked p P w₀ es w form matched)
    (hn : normalizePhone form.fromNumber = some n) (hstop : suppresses p.unicode form.body)
    (hdb : w'.db = persistVerdict p.unicode w.now form matched w.db.messages.next
      (w.db.addMessage w.now (inboundDraft w.now form sid matched))) :
    JobBacked p P w₀ (es ++ [e]) w' n w.db.messages.next := by
  let added := (inboundDraft w.now form sid matched).save w.now w.db.messages.next
  have hadded : added ∈
      (w.db.addMessage w.now (inboundDraft w.now form sid matched)).messages.rows :=
    List.mem_append_right _ (List.mem_singleton_self _)
  obtain ⟨m', hmem', hstamp⟩ :=
    (persistVerdict_grows p.unicode w.now form matched w.db.messages.next _).1.stamp hadded
  have hid' : m'.id = w.db.messages.next := congrArg Prod.fst hstamp
  have hlead' : m'.lead = matched.map Lead.id := congrArg (fun s => s.2.2.2.2) hstamp
  refine ⟨m', hdb ▸ hmem', hid', fun lead hl => ?_⟩
  obtain ⟨l, hmatched, rfl⟩ := Option.map_eq_some_iff.mp (hlead'.symm.trans hl)
  obtain ⟨hrow, hhad⟩ := hback l hmatched
  refine ⟨?_, (hhad _ hn).append [e]⟩
  rw [hdb, hmatched]
  exact persistVerdict_optsOut hstop hrow

theorem InboundBacked.step {w₀ : Org} {form : InboundForm} {matched : Option Lead}
    (h : InboundBacked p P w₀ es w form matched) (hgrows : w.db.Grows w'.db) :
    InboundBacked p P w₀ (es ++ [e]) w' form matched := by
  intro l hl
  obtain ⟨⟨x, hx, hid⟩, hhad⟩ := h l hl
  obtain ⟨y, hy, hyx, -⟩ := hgrows.rows x hx
  exact ⟨⟨y, hy, hyx.trans hid⟩, fun n hn => (hhad n hn).append [e]⟩

theorem inboundBacked_opened {w₀ : Org} {form : InboundForm} {sid : Text} {matched : Option Lead}
    (hrun : (org p P).run w₀ es = some w)
    (hq : inboundQuery w.db form = .unlogged sid matched) :
    InboundBacked p P w₀ es w form matched := by
  intro l hl
  rw [inboundQuery_matched hq] at hl
  obtain ⟨hmem, hphone⟩ := matchLead_phone hl
  exact ⟨⟨l, hmem, rfl⟩, fun n hn =>
    ⟨es, [], w, (List.append_nil _).symm, hrun, l, hmem, rfl, hphone.trans hn⟩⟩

theorem mirror_step {w₀ : Org} (hinv : MirrorInv p P w₀ es w)
    (hs : (org p P).step w e = some w') : MirrorInv p P w₀ (es ++ [e]) w' := by
  have hgrows := (step_grows hs).1
  refine ⟨?_, fun job hj => ?_, fun h form sid matched htx => ?_⟩
  · exact (org p P).run_append_some.mpr ⟨w, hinv.run, (org p P).run_singleton.mpr hs⟩
  · rcases step_jobs hs hj with ⟨old, hold, hi, hm⟩ | ⟨h, _, htx, form, sid, matched, rfl, hdb,
      hstop, hn, hm⟩
    · rw [← hi, ← hm]
      exact (hinv.jobs old hold).step hgrows
    · rw [hm]
      exact jobBacked_queued (hinv.inbound h form sid matched htx) hn hstop hdb
  · rcases step_inbound hs htx with hold | hq
    · exact (hinv.inbound h form sid matched hold).step hgrows
    · exact (inboundBacked_opened hinv.run hq).step hgrows

theorem run_mirrorInv {w₀ : Org} (hjobs : w₀.db.jobs = []) (hidle : ∀ h, w₀.txs h = none)
    (hr : (org p P).run w₀ es = some w) : MirrorInv p P w₀ es w := by
  have hinit : MirrorInv p P w₀ [] w₀ := by
    refine ⟨rfl, fun job hj => ?_, fun h form sid matched htx => ?_⟩
    · rw [hjobs] at hj
      exact nomatch hj
    · rw [hidle h] at htx
      exact nomatch htx
  have hstep : ∀ seen s e t, MirrorInv p P w₀ seen s → True → (org p P).step s e = some t →
      MirrorInv p P w₀ (seen ++ [e]) t := fun _ _ _ _ hinv _ hs => mirror_step hinv hs
  exact (org p P).run_history hstep hinit ((org p P).along_of_forall fun _ _ _ => trivial) hr

/-- Once the job of an inbound opt-out has appended its event, no later batch calls
for the lead that its number had matched. Other events go by the send path: a run
goes the same way without them. -/
theorem mirrored_never_called {w₀ : Org} (hjobs : w₀.db.jobs = []) (hidle : ∀ h, w₀.txs h = none)
    (hr : (org p P).run w₀ es = some w) {i : Nat} {delivered : Bool} {statusCode : Int}
    {eventId : Text} (hs : (org p P).step w (.runJob i delivered statusCode eventId) = some w')
    {event : Event} (hadded : w'.events = w.events ++ [event]) :
    (∃ job m, w.db.jobs[i]? = some job ∧ event.identifierRaw = job.identifier ∧
      m ∈ w.db.messages.rows ∧ m.id = job.messageId ∧ ∀ lead, m.lead = some lead →
        HadNumber p P w₀ es lead job.identifier ∧
        ∀ fs u h ids reply l t, (org p P).run w' fs = some u → Label.beginSend h ids ∈ fs →
          u.calls p (.visitLead h reply) = some (l, t) → l.id ≠ lead) ∧
    ∀ fs u, (org p P).run w' fs = some u → ∃ events,
      (org p P).run w' (fs.filter fun e => !e.onlyLogs) = some (u.withLog events) := by
  refine ⟨?_, fun fs u hrun => run_without_log hrun⟩
  obtain ⟨job, hj, -, rfl⟩ := step_runJob.mp hs
  have hevent : (posted p P delivered w.now job eventId).toList = [event] :=
    List.append_cancel_left hadded
  have hraw : event.identifierRaw = job.identifier :=
    posted_identifierRaw (Option.mem_toList.mp (hevent ▸ List.mem_singleton_self event))
  have hinv := run_mirrorInv hjobs hidle hr
  obtain ⟨m, hm, hid, hlead⟩ := hinv.jobs job (List.mem_of_getElem? hj)
  refine ⟨job, m, hj, hraw, hm, hid, fun lead hl => ?_⟩
  obtain ⟨hout, hhad⟩ := hlead lead hl
  refine ⟨hhad, fun fs u h ids reply l t hrun hids hcall => ?_⟩
  exact not_called_of_optedOut (hout.grows (step_grows hs).1) hrun hids hcall

end Log

theorem mirrored_never_called_twins :
    ∃ w w' event, (org gmtPlatform .e164).run twins [.beginInbound 0 stopForm,
        .finish 0 false false] = some w ∧
      (org gmtPlatform .e164).step w (.runJob 0 true 200 "1f".toList) = some w' ∧
      w'.events = w.events ++ [event] ∧
      (∃ job m, w.db.jobs[0]? = some job ∧ event.identifierRaw = job.identifier ∧
        m ∈ w.db.messages.rows ∧ m.id = job.messageId ∧ ∀ lead, m.lead = some lead →
          HadNumber gmtPlatform .e164 twins [.beginInbound 0 stopForm, .finish 0 false false] lead
            job.identifier ∧
          ∀ fs u h ids reply l t, (org gmtPlatform .e164).run w' fs = some u →
            Label.beginSend h ids ∈ fs →
              u.calls gmtPlatform (.visitLead h reply) = some (l, t) → l.id ≠ lead) ∧
      ∀ fs u, (org gmtPlatform .e164).run w' fs = some u → ∃ events,
        (org gmtPlatform .e164).run w' (fs.filter fun e => !e.onlyLogs) =
          some (u.withLog events) := by
  have hruns : ((org gmtPlatform .e164).run twins ([.beginInbound 0 stopForm,
      .finish 0 false false] ++ [.runJob 0 true 200 "1f".toList])).isSome = true := by
    decide +kernel
  obtain ⟨w', hw'⟩ := Option.isSome_iff_exists.mp hruns
  obtain ⟨w, hw, hrest⟩ := (org gmtPlatform .e164).run_append_some.mp hw'
  have hs := (org gmtPlatform .e164).run_singleton.mp hrest
  obtain ⟨job, -, hok, hafter⟩ := step_runJob.mp hs
  obtain ⟨event, hevent⟩ := Option.ne_none_iff_exists'.mp (hok (by decide))
  have hadded : w'.events = w.events ++ [event] := by
    rw [hafter, hevent]
    rfl
  exact ⟨w, w', event, hw, hs, hadded,
    mirrored_never_called rfl (fun _ => rfl) hw hs hadded⟩

/-- No batch that starts more than 60 seconds after an event for a number was
appended calls for a lead that has the number. -/
def ListGoverns {ν : Type} (p : Platform) (P : PhoneNumbers ν) (w₀ : Org) : Prop :=
  ∀ es w event fs v h ids gs u reply l t, (org p P).run w₀ es = some w → event ∈ w.events →
    (org p P).run w fs = some v → w.now + 60 * 1000 < v.now →
    (org p P).run v (.beginSend h ids :: gs) = some u →
    u.calls p (.visitLead h reply) = some (l, t) → l.phone ≠ some event.identifier

/-- A number that is posted to the list is still called a minute later. -/
theorem listed_still_called : ¬ ListGoverns gmtPlatform .e164 twins := by
  intro hgoverns
  let post : Label := .postSuppression sharedPhone "verbal".toList "manual".toList ⟨0, some 0⟩
    "1f".toList
  have hlisted : ((org gmtPlatform .e164).run twins [post]).map (fun w =>
      w.events.map Event.identifier) = some [sharedPhone] := by
    decide +kernel
  have hcall : (((org gmtPlatform .e164).run twins ([post] ++ [.tick 60001, .beginSend 0 [0]])).bind
      fun u => u.calls gmtPlatform (.visitLead 0 (.raised []))).map (fun c => c.1.phone) =
        some (some sharedPhone) := by
    decide +kernel
  obtain ⟨⟨l, t⟩, hsome, hphone⟩ := Option.map_eq_some_iff.mp hcall
  obtain ⟨u, hu, hcalls⟩ := Option.bind_eq_some_iff.mp hsome
  obtain ⟨w, hw, hrest⟩ := (org gmtPlatform .e164).run_append_some.mp hu
  obtain ⟨v, htick, hbegin⟩ := (org gmtPlatform .e164).run_cons_some.mp hrest
  rw [hw, Option.map_some, Option.some.injEq] at hlisted
  obtain ⟨event, hevent, hid⟩ := List.mem_map.mp (hlisted ▸ List.mem_singleton_self sharedPhone :
    sharedPhone ∈ w.events.map Event.identifier)
  have hlater : w.now + 60 * 1000 < v.now := by
    cases htick
    exact Int.add_lt_add_left (by decide) w.now
  have hrun : (org gmtPlatform .e164).run w [.tick 60001] = some v :=
    (org gmtPlatform .e164).run_singleton.mpr htick
  exact hgoverns [post] w event [.tick 60001] v 0 [0] [] u _ l t hw hevent hrun hlater hbegin hcalls
    (hid ▸ hphone)

end Outreach.Salesforce
