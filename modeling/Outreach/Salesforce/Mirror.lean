import Outreach.Salesforce.TwoStores
import Outreach.Suppression.Api

/-!
# The mirror of an opt-out: `OutreachSuppressionSyncQueueable.cls`

A stored opt-out leaves a job or a flag. The job posts, tries again after a
failure, and flags its message after the last try. The endpoint may have appended
the event although the job sees a failure; every try that arrives appends the
same identifier, which is the one that the endpoint makes of the number.
-/

namespace Outreach.Salesforce

open Outreach.Library Outreach.Guardrails Outreach.Cleansing Outreach.Suppression

set_option autoImplicit false

/-- The pending jobs of a message. -/
def Database.pendingFor (db : Database) (i : Id) : List SyncJob :=
  db.jobs.filter fun job => decide (job.messageId = i)

/-- A human is asked to look at the message. -/
def Database.Flagged (db : Database) (i : Id) : Prop :=
  ∃ m ∈ db.messages.rows, m.id = i ∧ m.needsReview = true

instance (db : Database) (i : Id) : Decidable (db.Flagged i) := List.decidableBEx _ _

section Flags

variable {a b c db : Database} {i : Id}

/-- No flag is taken back from `a` to `b`. -/
def Database.KeepsFlags (a b : Database) : Prop := ∀ i, a.Flagged i → b.Flagged i

theorem Database.KeepsFlags.trans (hab : a.KeepsFlags b) (hbc : b.KeepsFlags c) :
    a.KeepsFlags c := fun i h => hbc i (hab i h)

theorem keepsFlags_of_messages (h : b.messages = a.messages) : a.KeepsFlags b := by
  intro i hi
  obtain ⟨m, hm, hrest⟩ := hi
  exact ⟨m, h ▸ hm, hrest⟩

theorem keepsFlags_of_prefix (h : a.messages.rows <+: b.messages.rows) : a.KeepsFlags b := by
  intro i hi
  obtain ⟨m, hm, hrest⟩ := hi
  exact ⟨m, h.subset hm, hrest⟩

theorem modifyMessage_keepsFlags {j : Id} {f : MessageDraft → MessageDraft}
    (hf : ∀ d, d.needsReview = true → (f d).needsReview = true) :
    db.KeepsFlags (db.modifyMessage j f) := by
  intro i hi
  obtain ⟨m, hm, hid, hflag⟩ := hi
  refine ⟨_, List.mem_map_of_mem hm, ?_⟩
  split
  · exact ⟨hid, hf _ hflag⟩
  · exact ⟨hid, hflag⟩

/-- A message that is written to is flagged when the write flags it. -/
theorem modifyMessage_flagged {f : MessageDraft → MessageDraft}
    (hf : ∀ d, (f d).needsReview = true) (hi : ∃ m ∈ db.messages.rows, m.id = i) :
    (db.modifyMessage i f).Flagged i := by
  obtain ⟨m, hm, hid⟩ := hi
  refine ⟨_, List.mem_map_of_mem hm, ?_⟩
  rw [if_pos hid]
  exact ⟨hid, hf _⟩

theorem insert_keepsFlags {now : Time} {ds : List MessageDraft} (h : a.insert now ds = some b) :
    a.KeepsFlags b := by
  obtain ⟨-, -, -, -, rows, hrows, -⟩ := Database.insert_spec h
  exact keepsFlags_of_prefix ⟨rows, hrows.symm⟩

theorem commit_keepsFlags {batch : SendBatch} {now : Time} (h : batch.commit now a = some b) :
    a.KeepsFlags b := by
  obtain ⟨db₁, hins, rfl⟩ := Option.map_eq_some_iff.mp h
  exact (insert_keepsFlags hins).trans (keepsFlags_of_messages (contact_frame _ _).1)

theorem stored_keepsFlags (U : UnicodeData) (now : Time) (form : InboundForm) (sid : Text)
    (matched : Option Lead) (db : Database) :
    db.KeepsFlags (persistVerdict U now form matched db.messages.next
      (db.addMessage now (inboundDraft now form sid matched))) := by
  have hadded : db.KeepsFlags (db.addMessage now (inboundDraft now form sid matched)) :=
    keepsFlags_of_prefix (List.prefix_append _ _)
  have hverdict : ∀ d : MessageDraft, d.needsReview = true →
      (applyVerdict U form matched d).needsReview = true := by
    intro d hd
    simp only [applyVerdict, hd, Bool.true_or]
  let added := db.addMessage now (inboundDraft now form sid matched)
  have hjudged : added.KeepsFlags
      (added.modifyMessage db.messages.next (applyVerdict U form matched)) :=
    modifyMessage_keepsFlags hverdict
  apply hadded.trans (hjudged.trans _)
  exact keepsFlags_of_messages (persistVerdict_writes U now form matched _ added).1

theorem setDeliveryStatus_keepsFlags {status : Text} {fault : Bool}
    (h : setDeliveryStatus a i status fault = some b) : a.KeepsFlags b := by
  unfold setDeliveryStatus at h
  split at h
  · exact nomatch h
  · rw [← Option.some.inj h]
    exact modifyMessage_keepsFlags fun _ hd => hd

theorem statusCommit_keepsFlags {now : Time} {fault fault' : Bool} {q : StatusQuery}
    {out : Database × Nat} (h : statusCommit now fault fault' db q = some out) :
    db.KeepsFlags out.1 := by
  cases q with
  | answered statusCode =>
    cases h
    exact fun _ hi => hi
  | existing j status =>
    obtain ⟨db', hset, rfl⟩ := Option.map_eq_some_iff.mp h
    exact setDeliveryStatus_keepsFlags hset
  | unknown sid status =>
    simp only [statusCommit] at h
    split at h
    · rename_i db' hins
      cases h
      cases fault with
      | true => cases hins
      | false => exact insert_keepsFlags hins
    · split at h
      · cases h
        exact fun _ hi => hi
      · obtain ⟨db', hset, rfl⟩ := Option.map_eq_some_iff.mp h
        exact setDeliveryStatus_keepsFlags hset

theorem afterSync_keepsFlags (job : SyncJob) (statusCode : Int) :
    db.KeepsFlags (afterSync job statusCode db) := by
  unfold afterSync
  split
  · exact fun _ hi => hi
  · split
    · exact keepsFlags_of_messages rfl
    · exact modifyMessage_keepsFlags fun _ _ => rfl

end Flags

/-! ## The queue -/

section Queue

/-- A list at one of its places. -/
theorem filter_eraseIdx {α : Type} {l : List α} {k : Nat} {x : α} (q : α → Bool)
    (h : l[k]? = some x) :
    l.filter q = (l.take k).filter q ++ ([x].filter q ++ (l.drop (k + 1)).filter q) ∧
      (l.eraseIdx k).filter q = (l.take k).filter q ++ (l.drop (k + 1)).filter q := by
  obtain ⟨hk, rfl⟩ := List.getElem?_eq_some_iff.mp h
  constructor
  · rw [← List.filter_append, ← List.filter_append, List.singleton_append,
      ← List.drop_eq_getElem_cons hk, List.take_append_drop]
  · rw [List.eraseIdx_eq_take_drop_succ, List.filter_append]

variable {db : Database} {i : Id} {job : SyncJob} {k : Nat} {statusCode : Int}

/-- The queue after a try of a job of another message. -/
theorem pendingFor_afterSync_of_ne (hk : db.jobs[k]? = some job) (hne : job.messageId ≠ i) :
    (afterSync job statusCode { db with jobs := db.jobs.eraseIdx k }).pendingFor i =
      db.pendingFor i := by
  obtain ⟨hsplit, herase⟩ := filter_eraseIdx (fun job => decide (job.messageId = i)) hk
  have hout : decide (job.messageId = i) = false := decide_eq_false hne
  have hgone : (db.jobs.eraseIdx k).filter (fun job => decide (job.messageId = i)) =
      db.pendingFor i := by
    rw [herase, Database.pendingFor, hsplit, List.filter_singleton, hout]
    rfl
  unfold afterSync
  split
  · exact hgone
  · split
    · show ((db.jobs.eraseIdx k) ++ [_]).filter _ = _
      rw [List.filter_append, List.filter_singleton, hgone]
      show db.pendingFor i ++ (bif decide (job.messageId = i) then _ else []) = _
      rw [hout]
      exact List.append_nil _
    · exact hgone

/-- The only job of a message is taken from the queue. -/
theorem pendingFor_erase {only : SyncJob} (hk : db.jobs[k]? = some job) (hi : job.messageId = i)
    (honly : db.pendingFor i = [only]) :
    job = only ∧ (db.jobs.eraseIdx k).filter (fun job => decide (job.messageId = i)) = [] := by
  obtain ⟨hsplit, herase⟩ := filter_eraseIdx (fun job => decide (job.messageId = i)) hk
  have hin : [job].filter (fun job => decide (job.messageId = i)) = [job] :=
    List.filter_cons_of_pos (decide_eq_true hi)
  rw [Database.pendingFor, hsplit, hin] at honly
  have hlen := congrArg List.length honly
  simp only [List.length_append, List.length_singleton] at hlen
  have hfront : (db.jobs.take k).filter (fun job => decide (job.messageId = i)) = [] :=
    List.length_eq_zero_iff.mp (by omega)
  have hback : (db.jobs.drop (k + 1)).filter (fun job => decide (job.messageId = i)) = [] :=
    List.length_eq_zero_iff.mp (by omega)
  rw [hfront, hback] at honly
  refine ⟨List.head_eq_of_cons_eq honly, ?_⟩
  rw [herase, hfront, hback]
  rfl

end Queue

/-! ## Along a run -/

section Runs

variable {ν : Type} {p : Platform} {P : PhoneNumbers ν} {w w' : Org} {e : Label} {i : Id}
  {tries : List (Option Event)}

theorem finished_keepsFlags {fault fault' : Bool} {tx : Tx} {db : Database}
    (h : w.finished p fault fault' tx = some db) : w.db.KeepsFlags db := by
  rcases finished_cases h with rfl | ⟨b, -, hc⟩ | ⟨form, sid, matched, -, -, rfl⟩ |
    ⟨query, out, -, hs, rfl⟩
  · exact fun _ hi => hi
  · exact commit_keepsFlags hc
  · exact stored_keepsFlags p.unicode w.now form sid matched w.db
  · exact statusCommit_keepsFlags hs

theorem step_keepsFlags (hs : (org p P).step w e = some w') : w.db.KeepsFlags w'.db := by
  rcases step_db hs with hdb | ⟨h, fault, fault', tx, -, -, hdb⟩ |
    ⟨k, delivered, statusCode, eventId, job, -, -, hdb⟩ | ⟨record, -, hdb⟩
  · rw [hdb]
    exact fun _ hi => hi
  · exact finished_keepsFlags hdb
  · rw [hdb]
    have htaken : w.db.KeepsFlags { w.db with jobs := w.db.jobs.eraseIdx k } :=
      keepsFlags_of_messages rfl
    exact htaken.trans (afterSync_keepsFlags job statusCode)
  · rw [hdb]
    apply keepsFlags_of_messages
    unfold upsertLead
    split <;> rfl

/-- Only a try of its own job changes what is pending for a message. -/
theorem step_pendingFor (hs : (org p P).step w e = some w')
    (hi : ∃ m ∈ w.db.messages.rows, m.id = i) :
    w'.db.pendingFor i = w.db.pendingFor i ∨
      ∃ k delivered statusCode eventId job, e = .runJob k delivered statusCode eventId ∧
        w.db.jobs[k]? = some job ∧ job.messageId = i := by
  have hsame : w'.db.jobs = w.db.jobs → w'.db.pendingFor i = w.db.pendingFor i :=
    fun h => congrArg (List.filter _) h
  rcases step_db hs with hdb | ⟨h, fault, fault', tx, -, -, hdb⟩ |
    ⟨k, delivered, statusCode, eventId, job, he, hk, hdb⟩ | ⟨record, -, hdb⟩
  · exact Or.inl (hsame (congrArg Database.jobs hdb))
  · rcases finished_cases hdb with hdb | ⟨b, -, hc⟩ | ⟨form, sid, matched, -, -, hdb⟩ |
      ⟨query, out, -, hq, hdb⟩
    · exact Or.inl (hsame (congrArg Database.jobs hdb))
    · exact Or.inl (hsame (commit_jobs hc))
    · -- a new job belongs to the new message
      left
      rw [hdb, Database.pendingFor, (persistVerdict_writes p.unicode w.now form matched _ _).2,
        List.filter_append]
      have hnew : (mirrorJob p.unicode form matched w.db.messages.next).toList.filter
          (fun job => decide (job.messageId = i)) = [] := by
        rw [List.filter_eq_nil_iff]
        intro job hjob hid
        obtain ⟨-, n, -, rfl⟩ := (mirrorJob_eq_some _ _ _).mp (Option.mem_toList.mp hjob)
        obtain ⟨m, hm, hmi⟩ := hi
        have hnext : w.db.messages.next = i := of_decide_eq_true hid
        exact absurd (hmi.trans hnext.symm) (Nat.ne_of_lt (w.db.messages.below m hm))
      rw [hnew, List.append_nil]
      rfl
    · exact Or.inl (hsame (hdb ▸ statusCommit_jobs hq))
  · by_cases hid : job.messageId = i
    · exact Or.inr ⟨k, delivered, statusCode, eventId, job, he, hk, hid⟩
    · left
      rw [hdb]
      exact pendingFor_afterSync_of_ne hk hid
  · refine Or.inl (hsame ?_)
    rw [hdb]
    unfold upsertLead
    split <;> rfl

/-- A try of the job of a message: what it appends to the log. -/
def tryOf (p : Platform) (P : PhoneNumbers ν) (i : Id) (w : Org) : Label → Option (Option Event)
  | .runJob k delivered _ eventId =>
      match w.db.jobs[k]? with
      | some job =>
          if job.messageId = i then some (posted p P delivered w.now job eventId) else none
      | none => none
  | _ => none

/-- The identifier that the endpoint files for the number of the form. -/
def mirroredAs (p : Platform) (P : PhoneNumbers ν) (form : InboundForm) : Option Text :=
  Cleansing.normalizePhone p.unicode P (normalizePhone form.fromNumber)

/-- The number is on the list. -/
def Mirrored (p : Platform) (P : PhoneNumbers ν) (form : InboundForm) (w : Org) : Prop :=
  ∃ event ∈ w.events, mirroredAs p P form = some event.identifier

/-- The chain of a stored opt-out after some tries: one job is left and knows how
often it was tried, or none is and the number is on the list or the message flagged. -/
structure ChainInv (p : Platform) (P : PhoneNumbers ν) (form : InboundForm) (i : Id)
    (tries : List (Option Event)) (w : Org) : Prop where
  stored : ∃ m ∈ w.db.messages.rows, m.id = i
  appended : ∀ event, some event ∈ tries →
    event ∈ w.events ∧ mirroredAs p P form = some event.identifier
  standing :
    (∃ job, w.db.pendingFor i = [job] ∧ normalizePhone form.fromNumber = some job.identifier ∧
      job.attempt = tries.length ∧ tries.length < maxAttempts) ∨
    (w.db.pendingFor i = [] ∧ tries.length ≤ maxAttempts ∧
      (w.db.Flagged i ∨ Mirrored p P form w))

theorem normalizePhone_at {raw : Option Text} {n : Text} (h : normalizePhone raw = some n) :
    '@' ∉ n := by
  have hdigits : ∀ t : Text, '@' ∉ t.filter isDigit := by
    intro t hat
    exact absurd (List.mem_filter.mp hat).2 (by decide)
  unfold normalizePhone at h
  split at h
  · exact nomatch h
  · rename_i raw
    split at h
    · exact nomatch h
    · extract_lets digits at h
      have hplus : '@' ∉ '+' :: digits := List.not_mem_cons_of_ne_of_not_mem (by decide) (hdigits raw)
      split at h
      · cases h
        have hone : '@' ∉ "+1".toList := by decide
        exact fun hat => (List.mem_append.mp hat).elim hone (hdigits raw)
      · split at h
        · cases h
          exact hplus
        · split at h
          · cases h
            exact hplus
          · exact nomatch h

/-- A try that arrives files the normal form of its number. -/
theorem posted_identifier {job : SyncJob} {delivered : Bool} {now : Time} {eventId : Text}
    {event : Event} (hat : '@' ∉ job.identifier)
    (h : posted p P delivered now job eventId = some event) :
    Cleansing.normalizePhone p.unicode P (some job.identifier) = some event.identifier :=
  newEvent_phone hat (posted_eq_some.mp h).2

theorem step_events (hs : (org p P).step w e = some w') : w.events <+: w'.events := by
  cases e with
  | tick d =>
    cases hs
    exact List.prefix_refl _
  | beginSend h ids =>
    obtain ⟨-, rfl⟩ := step_beginSend.mp hs
    exact List.prefix_refl _
  | visitLead h reply =>
    obtain ⟨_, _, _, -, -, rfl⟩ := step_visitLead.mp hs
    exact List.prefix_refl _
  | beginInbound h form =>
    obtain ⟨-, ⟨-, rfl⟩ | ⟨_, _, -, rfl⟩⟩ := step_beginInbound.mp hs
    · exact List.prefix_refl _
    · exact List.prefix_refl _
  | beginStatus h form =>
    obtain ⟨-, rfl⟩ := step_beginStatus.mp hs
    exact List.prefix_refl _
  | finish h fault fault' =>
    obtain ⟨_, _, -, -, rfl⟩ := step_finish.mp hs
    exact List.prefix_refl _
  | abort h =>
    obtain ⟨-, rfl⟩ := step_abort.mp hs
    exact List.prefix_refl _
  | runJob k delivered statusCode eventId =>
    obtain ⟨_, -, -, rfl⟩ := step_runJob.mp hs
    exact List.prefix_append _ _
  | upsert record =>
    cases hs
    exact List.prefix_refl _
  | postSuppression identifier reason source occurredAt eventId =>
    cases hs
    exact List.prefix_append _ _
  | reconcile seen raw occurredAt eventId =>
    cases hs
    show w.events <+: addVendorEntry p P w.events seen raw occurredAt eventId
    unfold addVendorEntry
    split
    · exact List.prefix_refl _
    · split
      · exact List.prefix_refl _
      · exact List.prefix_append _ _

theorem Mirrored.step {form : InboundForm} (h : Mirrored p P form w)
    (hs : (org p P).step w e = some w') : Mirrored p P form w' := by
  obtain ⟨event, hevent, hid⟩ := h
  exact ⟨event, (step_events hs).subset hevent, hid⟩

theorem step_stored (hs : (org p P).step w e = some w')
    (hi : ∃ m ∈ w.db.messages.rows, m.id = i) : ∃ m ∈ w'.db.messages.rows, m.id = i := by
  obtain ⟨m, hm, hid⟩ := hi
  obtain ⟨m', hm', hstamp⟩ := (step_grows hs).1.stamp hm
  exact ⟨m', hm', (congrArg Prod.fst hstamp : m'.id = m.id).trans hid⟩

/-- Every other step leaves the chain as it is. -/
theorem chain_other {form : InboundForm} (hinv : ChainInv p P form i tries w)
    (hs : (org p P).step w e = some w') (hpending : w'.db.pendingFor i = w.db.pendingFor i) :
    ChainInv p P form i tries w' where
  stored := step_stored hs hinv.stored
  appended event htry := by
    obtain ⟨hevent, hid⟩ := hinv.appended event htry
    exact ⟨(step_events hs).subset hevent, hid⟩
  standing := by
    rw [hpending]
    apply hinv.standing.imp_right
    intro ⟨hnone, hmax, hsafe⟩
    exact ⟨hnone, hmax, hsafe.imp (step_keepsFlags hs i) fun h => h.step hs⟩

/-- What becomes of the queue and the flag when the only job of a message was tried:
`listed` says that the try has put the number on the list. -/
theorem afterSync_standing {db : Database} {job : SyncJob} {k : Nat} (statusCode : Int)
    (hi : job.messageId = i) (hstored : ∃ m ∈ db.messages.rows, m.id = i)
    (herased : (db.jobs.eraseIdx k).filter (fun job => decide (job.messageId = i)) = []) :
    let after := afterSync job statusCode { db with jobs := db.jobs.eraseIdx k }
    (after.pendingFor i = [] ∧ (isSuccess statusCode = true ∨ after.Flagged i)) ∨
      (after.pendingFor i = [{ job with attempt := job.attempt + 1 }] ∧
        job.attempt + 1 < maxAttempts) := by
  intro after
  by_cases hsuccess : isSuccess statusCode = true
  · have hafter : after = { db with jobs := db.jobs.eraseIdx k } := if_pos hsuccess
    rw [hafter]
    exact Or.inl ⟨herased, Or.inl hsuccess⟩
  · by_cases hmore : job.attempt + 1 < maxAttempts
    · have hafter : after.jobs =
          db.jobs.eraseIdx k ++ [{ job with attempt := job.attempt + 1 }] := by
        show (afterSync ..).jobs = _
        rw [afterSync, if_neg hsuccess, if_pos hmore]
      refine Or.inr ⟨?_, hmore⟩
      rw [Database.pendingFor, hafter, List.filter_append, herased, List.nil_append]
      exact List.filter_cons_of_pos (decide_eq_true hi)
    · have hafter : after = ({ db with jobs := db.jobs.eraseIdx k } : Database).modifyMessage
          job.messageId fun m => { m with
            needsReview := true
            sendError := some "AWS suppression sync failed after 5 attempts".toList } := by
        show afterSync .. = _
        rw [afterSync, if_neg hsuccess, if_neg hmore]
      rw [hafter, hi]
      exact Or.inl ⟨herased, Or.inr (modifyMessage_flagged (fun _ => rfl) hstored)⟩

/-- A try ends the chain on the list, passes the job on, or ends it with a flag. -/
theorem chain_try {form : InboundForm} {k : Nat} {delivered : Bool} {statusCode : Int}
    {eventId : Text} {job : SyncJob} (hinv : ChainInv p P form i tries w)
    (hs : (org p P).step w (.runJob k delivered statusCode eventId) = some w')
    (hk : w.db.jobs[k]? = some job) (hi : job.messageId = i) :
    ChainInv p P form i (tries ++ [posted p P delivered w.now job eventId]) w' := by
  have hstored := step_stored hs hinv.stored
  have hlen : (tries ++ [posted p P delivered w.now job eventId]).length = tries.length + 1 := by
    rw [List.length_append, List.length_singleton]
  obtain ⟨job', hk', hok, rfl⟩ := step_runJob.mp hs
  obtain rfl : job = job' := Option.some.inj (hk.symm.trans hk')
  have hmem : job ∈ w.db.pendingFor i :=
    List.mem_filter.mpr ⟨List.mem_of_getElem? hk, decide_eq_true hi⟩
  obtain ⟨only, honly, hnumber, hattempt, hlt⟩ | ⟨hnone, -⟩ := hinv.standing
  · obtain ⟨rfl, herased⟩ := pendingFor_erase hk hi honly
    have hfiled : ∀ event, posted p P delivered w.now job eventId = some event →
        mirroredAs p P form = some event.identifier := by
      intro event hevent
      rw [mirroredAs, hnumber]
      exact posted_identifier (normalizePhone_at hnumber) hevent
    refine ⟨hstored, fun event htry => ?_, ?_⟩
    · rcases List.mem_append.mp htry with htry | htry
      · obtain ⟨hevent, hid⟩ := hinv.appended event htry
        exact ⟨List.mem_append_left _ hevent, hid⟩
      · have hevent := (List.mem_singleton.mp htry).symm
        exact ⟨List.mem_append_right _ (Option.mem_toList.mpr hevent), hfiled event hevent⟩
    · rw [hlen]
      rcases afterSync_standing statusCode hi hinv.stored herased with
        ⟨hnone, hsuccess | hflag⟩ | ⟨hpending, hmore⟩
      · obtain ⟨event, hevent⟩ := Option.ne_none_iff_exists'.mp (hok hsuccess)
        refine Or.inr ⟨hnone, hlt, Or.inr ⟨event, ?_, hfiled event hevent⟩⟩
        exact List.mem_append_right _ (Option.mem_toList.mpr hevent)
      · exact Or.inr ⟨hnone, hlt, Or.inl hflag⟩
      · refine Or.inl ⟨_, hpending, hnumber, ?_, ?_⟩
        · show job.attempt + 1 = _
          rw [hattempt]
        · rw [← hattempt]
          exact hmore
  · rw [hnone] at hmem
    exact nomatch hmem

theorem chain_step {form : InboundForm} (hinv : ChainInv p P form i tries w)
    (hs : (org p P).step w e = some w') :
    ChainInv p P form i (tries ++ (tryOf p P i w e).toList) w' := by
  by_cases htry : ∃ k delivered statusCode eventId job,
      e = .runJob k delivered statusCode eventId ∧ w.db.jobs[k]? = some job ∧ job.messageId = i
  · obtain ⟨k, delivered, statusCode, eventId, job, rfl, hk, hi⟩ := htry
    have hsome : tryOf p P i w (.runJob k delivered statusCode eventId) =
        some (posted p P delivered w.now job eventId) := by
      simp only [tryOf, hk, if_pos hi]
    rw [hsome]
    exact chain_try hinv hs hk hi
  · have hnone : tryOf p P i w e = none := by
      cases e with
      | runJob k delivered statusCode eventId =>
        simp only [tryOf]
        split
        · rename_i job hk
          rw [if_neg]
          exact fun hi => htry ⟨k, delivered, statusCode, eventId, job, rfl, hk, hi⟩
        · rfl
      | _ => rfl
    rw [hnone, Option.toList_none, List.append_nil]
    exact chain_other hinv hs ((step_pendingFor hs hinv.stored).resolve_right htry)

/-- Under the verdict on a new row the queue holds no other job of that row. -/
theorem pendingFor_persistVerdict {db added : Database} (now : Time) (form : InboundForm)
    (matched : Option Lead) (hjobs : ∀ job ∈ db.jobs, ∃ m ∈ db.messages.rows, m.id = job.messageId)
    (hadded : added.jobs = db.jobs) :
    (persistVerdict p.unicode now form matched db.messages.next added).pendingFor db.messages.next =
      (mirrorJob p.unicode form matched db.messages.next).toList.filter
        fun job => decide (job.messageId = db.messages.next) := by
  have hbefore : db.jobs.filter (fun job => decide (job.messageId = db.messages.next)) = [] := by
    rw [List.filter_eq_nil_iff]
    intro job hjob hid
    obtain ⟨m, hm, hmi⟩ := hjobs job hjob
    exact absurd (hmi.trans (of_decide_eq_true hid)) (Nat.ne_of_lt (db.messages.below m hm))
  rw [Database.pendingFor, (persistVerdict_writes p.unicode now form matched _ added).2, hadded,
    List.filter_append, hbefore, List.nil_append]

/-- A stored opt-out starts its chain with one job, or with a flag when there is no number. -/
theorem chain_stored {form : InboundForm} {sid : Text} {matched : Option Lead} {h : Nat}
    {fault' : Bool} (hjobs : ∀ job ∈ w.db.jobs, ∃ m ∈ w.db.messages.rows, m.id = job.messageId)
    (htx : w.txs h = some (.inbound form sid matched)) (hstop : suppresses p.unicode form.body)
    (hacc : w.db.accepts [inboundDraft w.now form sid matched])
    (hend : (org p P).step w (.finish h false fault') = some w') :
    ChainInv p P form w.db.messages.next [] w' := by
  obtain ⟨db, hdb, rfl⟩ := (step_finish_of_open htx).mp hend
  obtain rfl := Option.some.inj ((finished_stored hacc).symm.trans hdb)
  let i := w.db.messages.next
  let added := w.db.addMessage w.now (inboundDraft w.now form sid matched)
  have hmessages := (persistVerdict_writes p.unicode w.now form matched i added).1
  have hadded : ∃ m ∈ added.messages.rows, m.id = i :=
    ⟨_, List.mem_append_right _ (List.mem_singleton_self _), rfl⟩
  have hpending : (persistVerdict p.unicode w.now form matched i added).pendingFor i = _ :=
    pendingFor_persistVerdict w.now form matched hjobs rfl
  refine ⟨?_, fun event htry => absurd htry List.not_mem_nil, ?_⟩
  · obtain ⟨m, hm, hid⟩ := hadded
    show ∃ m ∈ (persistVerdict p.unicode w.now form matched i added).messages.rows, m.id = i
    rw [hmessages]
    refine ⟨_, List.mem_map_of_mem hm, ?_⟩
    split <;> exact hid
  · cases hn : normalizePhone form.fromNumber with
    | none =>
      have hnojob : mirrorJob p.unicode form matched i = none := by
        rw [mirrorJob, hn, Option.map_none, ite_self]
      rw [hnojob] at hpending
      refine Or.inr ⟨hpending, Nat.zero_le _, Or.inl ?_⟩
      apply keepsFlags_of_messages hmessages
      exact modifyMessage_flagged (applyVerdict_needsReview _ _ _ hstop hn) hadded
    | some n =>
      let job : SyncJob := ⟨n, (verdict p.unicode form.body
        ((matched.bind Lead.autoReplyCount).getD 0)).rule, i, 0⟩
      have hjob : mirrorJob p.unicode form matched i = some job :=
        (mirrorJob_eq_some p.unicode form matched).mpr ⟨hstop, n, hn, rfl⟩
      have hfirst : job.attempt = ([] : List (Option Event)).length := rfl
      rw [hjob] at hpending
      refine Or.inl ⟨job, hpending.trans ?_, rfl, hfirst, by decide⟩
      exact List.filter_cons_of_pos (decide_eq_true rfl)

/-- After a stored opt-out: once no job of its chain is left, the number is on the list
as the endpoint files it, or the message is flagged; the chain tries at most
`MAX_ATTEMPTS` times; and every try that arrives files that same identifier. -/
theorem optOut_mirrored_or_flagged {w₀ v v' : Org} {es fs : List Label} {form : InboundForm}
    {sid : Text} {matched : Option Lead} {h : Nat} {fault' : Bool}
    (hjobs : w₀.db.jobs = []) (hidle : ∀ h, w₀.txs h = none) (hr : (org p P).run w₀ es = some w)
    (htx : w.txs h = some (.inbound form sid matched)) (hstop : suppresses p.unicode form.body)
    (hacc : w.db.accepts [inboundDraft w.now form sid matched])
    (hend : (org p P).step w (.finish h false fault') = some v)
    (hlater : (org p P).run v fs = some v') :
    let i := w.db.messages.next
    let tries := (org p P).observe (tryOf p P i) v fs
    (v'.db.pendingFor i = [] → v'.db.Flagged i ∨ Mirrored p P form v') ∧
      tries.length ≤ maxAttempts ∧
      ∀ event, some event ∈ tries →
        event ∈ v'.events ∧ mirroredAs p P form = some event.identifier := by
  intro i tries
  have hbacked : ∀ job ∈ w.db.jobs, ∃ m ∈ w.db.messages.rows, m.id = job.messageId := by
    intro job hjob
    obtain ⟨m, hm, hid, -⟩ := (run_mirrorInv hjobs hidle hr).jobs job hjob
    exact ⟨m, hm, hid⟩
  have hinv : ChainInv p P form i tries v' :=
    (org p P).run_observe (tryOf p P i) (fun _ _ _ _ hinv _ hs => chain_step hinv hs)
      (chain_stored hbacked htx hstop hacc hend)
      ((org p P).along_of_forall fun _ _ _ => trivial) hlater
  refine ⟨fun hnone => ?_, ?_, hinv.appended⟩
  · rcases hinv.standing with ⟨job, hpending, -⟩ | ⟨-, -, hsafe⟩
    · rw [hnone] at hpending
      exact nomatch hpending
    · exact hsafe
  · rcases hinv.standing with ⟨job, -, -, -, hlt⟩ | ⟨-, hmax, -⟩
    · exact Nat.le_of_lt hlt
    · exact hmax

/-- The body that the job posts. -/
def requestOf (formatGmt : Time → Text) (now : Time) (job : SyncJob) : Payload :=
  (((Dict.empty.set "identifier".toList job.identifier).set "reason".toList
    ((job.reason.map ruleText).getD [])).set "source".toList
      "salesforce_inbound_guardrail".toList).set "occurred_at".toList (formatGmt now)

theorem requestOf_arguments {formatGmt : Time → Text} {fromisoformat : Text → Option DateTime}
    {now : Time} (job : SyncJob) (hround : fromisoformat (formatGmt now) = some (wholeSeconds now)) :
    (requestOf formatGmt now job).arguments fromisoformat =
      some (job.identifier, (job.reason.map ruleText).getD [],
        "salesforce_inbound_guardrail".toList, wholeSeconds now) := by
  have hget : ∀ k, (requestOf formatGmt now job).get? k =
      if "occurred_at".toList = k then some (formatGmt now)
      else if "source".toList = k then some "salesforce_inbound_guardrail".toList
      else if "reason".toList = k then some ((job.reason.map ruleText).getD [])
      else if "identifier".toList = k then some job.identifier else none := by
    intro k
    rw [requestOf, Dict.get?_set, Dict.get?_set, Dict.get?_set, Dict.get?_set, Dict.get?_empty]
  have hoccurred : (requestOf formatGmt now job).get? "occurred_at".toList =
      some (formatGmt now) := by
    rw [hget, if_pos rfl]
  have hsource : (requestOf formatGmt now job).get? "source".toList =
      some "salesforce_inbound_guardrail".toList := by
    rw [hget, if_neg (by decide), if_pos rfl]
  have hreason : (requestOf formatGmt now job).get? "reason".toList =
      some ((job.reason.map ruleText).getD []) := by
    rw [hget, if_neg (by decide), if_neg (by decide), if_pos rfl]
  have hidentifier : (requestOf formatGmt now job).get? "identifier".toList =
      some job.identifier := by
    rw [hget, if_neg (by decide), if_neg (by decide), if_neg (by decide), if_pos rfl]
  have haware : (wholeSeconds now).offset ≠ none := Option.some_ne_none _
  rw [Payload.arguments, hoccurred, hsource, hreason, hidentifier]
  show (fromisoformat (formatGmt now)).bind _ = _
  rw [hround, Option.bind_some, if_neg haware]
  rfl

/-- The endpoint's handler on the request of a job is a step of the job, whatever the put
does and whether or not the answer comes back. -/
theorem handler_runJob {formatGmt : Time → Text} {fromisoformat : Text → Option DateTime}
    {k : Nat} {job : SyncJob} {put : Put} {eventId : Text} {statusCode : Int}
    (hround : fromisoformat (formatGmt w.now) = some (wholeSeconds w.now))
    (hk : w.db.jobs[k]? = some job)
    (hanswer : isSuccess statusCode = true → statusCode = (handler p.unicode P fromisoformat
      w.events (some (requestOf formatGmt w.now job)) put eventId).statusCode) :
    ∃ delivered w', (org p P).step w (.runJob k delivered statusCode eventId) = some w' ∧
      w'.events = (handler p.unicode P fromisoformat w.events
        (some (requestOf formatGmt w.now job)) put eventId).log := by
  -- a step whose request arrives or not, and which appends what it says
  have hstep : ∀ delivered, (isSuccess statusCode = true →
      posted p P delivered w.now job eventId ≠ none) →
      ∃ w', (org p P).step w (.runJob k delivered statusCode eventId) = some w' ∧
        w'.events = w.events ++ (posted p P delivered w.now job eventId).toList :=
    fun delivered hok => ⟨_, step_runJob.mpr ⟨job, hk, hok, rfl⟩, rfl⟩
  rw [handler, Option.bind_some, requestOf_arguments job hround] at hanswer ⊢
  simp only at hanswer ⊢
  cases hnew : newEvent p.unicode P job.identifier ((job.reason.map ruleText).getD [])
      "salesforce_inbound_guardrail".toList (wholeSeconds w.now) eventId with
  | error error =>
    rw [hnew] at hanswer
    have hnone : posted p P true w.now job eventId = none := by
      rw [posted, if_pos rfl, hnew]
      rfl
    have hfailed : isSuccess statusCode = false := by
      by_contra hsuccess
      have hcode : statusCode = 400 := hanswer (Bool.eq_true_of_not_eq_false hsuccess)
      exact hsuccess (by rw [hcode]; decide)
    obtain ⟨w', hs, hevents⟩ := hstep true fun h => absurd h (by simp [hfailed])
    rw [hnone, Option.toList_none, List.append_nil] at hevents
    exact ⟨true, w', hs, hevents⟩
  | ok e =>
    rw [hnew] at hanswer
    have hposted : posted p P true w.now job eventId = some e := posted_eq_some.mpr ⟨rfl, hnew⟩
    cases put with
    | stored =>
      obtain ⟨w', hs, hevents⟩ := hstep true fun _ => hposted ▸ Option.some_ne_none e
      rw [hposted] at hevents
      exact ⟨true, w', hs, hevents⟩
    | landed =>
      obtain ⟨w', hs, hevents⟩ := hstep true fun _ => hposted ▸ Option.some_ne_none e
      rw [hposted] at hevents
      exact ⟨true, w', hs, hevents⟩
    | lost =>
      have hfailed : isSuccess statusCode = false := by
        by_contra hsuccess
        have hcode : statusCode = badGateway := hanswer (Bool.eq_true_of_not_eq_false hsuccess)
        exact hsuccess (by rw [hcode]; decide)
      have hnone : posted p P false w.now job eventId = none := rfl
      obtain ⟨w', hs, hevents⟩ := hstep false fun h => absurd h (by simp [hfailed])
      rw [hnone, Option.toList_none, List.append_nil] at hevents
      exact ⟨false, w', hs, hevents⟩

end Runs

theorem optOut_mirrored_or_flagged_twins :
    ∃ w v v', (org gmtPlatform .e164).run twins [.beginInbound 0 stopForm] = some w ∧
      (org gmtPlatform .e164).step w (.finish 0 false false) = some v ∧
      (org gmtPlatform .e164).run v [.runJob 0 true 200 "1f".toList] = some v' ∧
      (v'.db.pendingFor w.db.messages.next = [] → v'.db.Flagged w.db.messages.next ∨
        Mirrored gmtPlatform .e164 stopForm v') ∧
      ((org gmtPlatform .e164).observe (tryOf gmtPlatform .e164 w.db.messages.next) v
        [.runJob 0 true 200 "1f".toList]).length ≤ maxAttempts ∧
      ∀ event, some event ∈ (org gmtPlatform .e164).observe
          (tryOf gmtPlatform .e164 w.db.messages.next) v [.runJob 0 true 200 "1f".toList] →
        event ∈ v'.events ∧ mirroredAs gmtPlatform .e164 stopForm = some event.identifier := by
  have hruns : ((org gmtPlatform .e164).run twins (.beginInbound 0 stopForm ::
      (.finish 0 false false :: [.runJob 0 true 200 "1f".toList]))).isSome = true := by
    decide +kernel
  obtain ⟨v', hv'⟩ := Option.isSome_iff_exists.mp hruns
  obtain ⟨w, hw, hrest⟩ := (org gmtPlatform .e164).run_cons_some.mp hv'
  obtain ⟨v, hend, hlater⟩ := (org gmtPlatform .e164).run_cons_some.mp hrest
  have hopened := Option.some.inj (hw.symm.trans stopForm_opened)
  have htx : w.txs 0 = some (.inbound stopForm "SM9".toList (some (readyLead 1 1))) := by
    rw [hopened, Org.txs_openTx]
  have hacc : w.db.accepts [inboundDraft w.now stopForm "SM9".toList (some (readyLead 1 1))] := by
    rw [hopened]
    exact stopForm_accepted
  have hr := (org gmtPlatform .e164).run_singleton.mpr hw
  exact ⟨w, v, v', hr, hend, hlater, optOut_mirrored_or_flagged rfl (fun _ => rfl) hr htx
    stopForm_suppresses hacc hend hlater⟩

/-- `phonenumbers` on numbers of thirteen characters in E.164; a London number may be
written with its national zero. -/
def londonPhones : PhoneNumbers Text where
  parse t _ :=
    if t = "+4402079460958".toList then some "+442079460958".toList
    else if t.head? = some '+' ∧ t.tail.all Char.isDigit then some t else none
  isValidNumber t := decide (t.head? = some '+' ∧ t.tail.all Char.isDigit ∧ t.length = 13)
  formatE164 t := t

theorem londonPhones_lawful : londonPhones.Lawful where
  shape n hn := by
    obtain ⟨hhead, hdigits, -⟩ := of_decide_eq_true hn
    exact plus_digits hhead hdigits
  stable n hn := by
    obtain ⟨hhead, hdigits, hlen⟩ := of_decide_eq_true hn
    refine ⟨n, ?_, hn, rfl⟩
    have hzero : n ≠ "+4402079460958".toList := fun h => absurd (h ▸ hlen) (by decide)
    exact (if_neg hzero).trans (if_pos ⟨hhead, hdigits⟩)

def londonStop : InboundForm :=
  ⟨some "SM11".toList, some "+4402079460958".toList, some "STOP".toList⟩

/-- The opt-out is mirrored under another identifier than the number of the job. -/
theorem londonStop_renamed :
    ∃ v, (org gmtPlatform londonPhones).run twins [.beginInbound 0 londonStop,
        .finish 0 false false, .runJob 0 true 200 "1f".toList] = some v ∧
      suppresses gmtPlatform.unicode londonStop.body ∧
      v.db.messages.rows.map OutreachMessage.id = [0] ∧ v.db.jobs = [] ∧ ¬ v.db.Flagged 0 ∧
      ¬ ∃ n, normalizePhone londonStop.fromNumber = some n ∧
        n ∈ v.events.map Event.identifier := by
  have hruns : ((org gmtPlatform londonPhones).run twins [.beginInbound 0 londonStop,
      .finish 0 false false, .runJob 0 true 200 "1f".toList]).map (fun v =>
        (v.db.messages.rows.map OutreachMessage.id, v.db.jobs, decide (v.db.Flagged 0),
          v.events.map Event.identifier)) =
      some ([0], [], false, ["+442079460958".toList]) := by
    decide +kernel
  obtain ⟨v, hv, hfields⟩ := Option.map_eq_some_iff.mp hruns
  simp only [Prod.mk.injEq] at hfields
  obtain ⟨hids, hjobs, hflag, hevents⟩ := hfields
  refine ⟨v, hv, by decide +kernel, hids, hjobs, of_decide_eq_false hflag, ?_⟩
  intro hlisted
  obtain ⟨n, hn, hmem⟩ := hlisted
  have hnumber : normalizePhone londonStop.fromNumber = some "+4402079460958".toList := by
    decide +kernel
  rw [hnumber] at hn
  obtain rfl : "+4402079460958".toList = n := Option.some.inj hn
  have hother : "+4402079460958".toList ∈ ["+442079460958".toList] := hevents ▸ hmem
  exact absurd (List.mem_singleton.mp hother) (by decide)

end Outreach.Salesforce
