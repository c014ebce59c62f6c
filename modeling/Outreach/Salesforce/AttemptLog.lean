import Outreach.Salesforce.Growth

/-!
# The log of a batch

The attempts of a batch are inserted together at its end, all or none. A status
callback that comes first for one of their ids leaves a stub, and the insert is
refused; so it is when an answer names an id twice or too long.
-/

namespace Outreach.Salesforce

open Outreach.Library Outreach.Guardrails Outreach.Cleansing

set_option autoImplicit false

/-- One call of the provider. -/
structure Call where
  lead : Lead
  template : ReplyTemplate
  sentAt : Time
  reply : ProviderReply

section Calls

variable (p : Platform)

def Call.attempt (c : Call) : MessageDraft := performSend p c.sentAt c.lead c.template c.reply

/-- What the row of the call has to hold as provider id and delivery status. -/
def Call.providerId (c : Call) : Option Text :=
  saved ((returned p c.reply).bind ProviderResult.messageId)

def Call.deliveryStatus (c : Call) : Option Text :=
  saved ((returned p c.reply).bind ProviderResult.status)

/-- The row carries the lead, the template and the outcome of the call. -/
structure Carries (c : Call) (m : OutreachMessage) : Prop where
  lead : m.lead = some c.lead.id
  template : m.replyTemplate = some c.template.id
  outcome : m.status = some .sent ↔ returned p c.reply ≠ none
  providerId : m.providerMessageId = c.providerId p

/-- Between the two tables every call has got its row, in order. -/
def Logged (calls : List Call) (before after : Database) : Prop :=
  ∃ rows, after.messages.rows = before.messages.rows ++ rows ∧ List.Forall₂ (Carries p) calls rows

/-- The answers name ids and statuses that fit, no id twice, and none that is taken. -/
structure Loggable (db : Database) (calls : List Call) : Prop where
  fits : ∀ c ∈ calls, fitsIn maxProviderMessageId (c.providerId p) = true ∧
    fitsIn maxDeliveryStatus (c.deliveryStatus p) = true
  distinct : (calls.filterMap (Call.providerId p)).Nodup
  free : ∀ c ∈ calls, ∀ sid, c.providerId p = some sid → ¬ db.logged sid

/-- The call of the batch under `h` in a step. -/
def callOf (h : Nat) (w : Org) : Label → Option Call
  | .visitLead i reply =>
      if i = h then (w.calls p (.visitLead i reply)).map fun c => ⟨c.1, c.2, w.now, reply⟩ else none
  | _ => none

end Calls

section Attempts

variable {p : Platform} {c : Call} {db : Database} {calls : List Call}

theorem fitsIn_saved {n : Nat} {t : Option Text} (h : fitsIn n t = true) :
    fitsIn n (saved t) = true := by
  unfold saved
  split
  · rfl
  · exact h

/-- An error text is cut to its field, and a template fits already. -/
theorem attempt_fits : (c.attempt p).saved.fits = true ↔
    fitsIn maxProviderMessageId (c.providerId p) = true ∧
      fitsIn maxDeliveryStatus (c.deliveryStatus p) = true := by
  have hbody : fitsIn maxBody (saved c.template.body) = true := fitsIn_saved c.template.bodyFits
  rcases performSend_cases p c.sentAt c.lead c.template c.reply with
    ⟨r, hr, he⟩ | ⟨hr, error, he⟩
  · rw [Call.attempt, Call.providerId, Call.deliveryStatus, hr, he]
    have hnone : fitsIn maxSendError (saved none) = true := rfl
    simp only [MessageDraft.fits, MessageDraft.saved, sentAttempt, newAttempt, hbody, hnone,
      Option.bind_some, Bool.and_true, Bool.and_eq_true]
  · rw [Call.attempt, Call.providerId, Call.deliveryStatus, hr, he]
    have hfailed : fitsIn maxDeliveryStatus (saved (some "failed".toList)) = true := by decide
    have herror : fitsIn maxSendError (saved (some (truncate error))) = true :=
      fitsIn_saved (decide_eq_true (length_abbreviate 255 (by decide) error))
    have hnone : ∀ n, fitsIn n (saved none) = true := fun _ => rfl
    simp only [MessageDraft.fits, MessageDraft.saved, failedAttempt, newAttempt, hbody, hfailed,
      herror, hnone, Option.bind_none, Bool.and_true, and_self]

theorem attempt_providerId : (c.attempt p).saved.providerMessageId = c.providerId p := by
  show saved (performSend p c.sentAt c.lead c.template c.reply).providerMessageId = _
  rw [(performSend_spec _ _ _ _ _).2.2.2]
  rfl

theorem providerIds_attempts :
    providerIds ((calls.map (Call.attempt p)).map MessageDraft.saved) =
      calls.filterMap (Call.providerId p) := by
  unfold providerIds
  rw [List.map_map, List.filterMap_map]
  exact List.filterMap_congr fun c _ => attempt_providerId

theorem accepts_attempts : db.accepts (calls.map (Call.attempt p)) ↔ Loggable p db calls := by
  unfold Database.accepts
  rw [providerIds_attempts]
  constructor
  · intro h
    obtain ⟨hfits, hdistinct, hfree⟩ := h
    refine ⟨fun c hc => ?_, hdistinct, fun c hc sid hsid => ?_⟩
    · exact attempt_fits.mp (hfits _ (List.mem_map_of_mem hc))
    · exact hfree sid (List.mem_filterMap.mpr ⟨c, hc, hsid⟩)
  · intro h
    refine ⟨fun d hd => ?_, h.distinct, fun sid hsid => ?_⟩
    · obtain ⟨c, hc, rfl⟩ := List.mem_map.mp hd
      exact attempt_fits.mpr (h.fits c hc)
    · obtain ⟨c, hc, hid⟩ := List.mem_filterMap.mp hsid
      exact h.free c hc sid hid

theorem carries_of_saved {m : OutreachMessage} (h : m.toMessageDraft = (c.attempt p).saved) :
    Carries p c m where
  lead := by
    rw [h]
    exact (performSend_spec _ _ _ _ _).1
  template := by
    rw [h]
    exact (performSend_spec _ _ _ _ _).2.1
  outcome := by
    rw [h]
    exact (performSend_spec _ _ _ _ _).2.2.1
  providerId := by
    rw [h]
    exact attempt_providerId

/-- One insert at the end logs all calls, or none. -/
theorem commit_logged {b : SendBatch} {now : Time}
    (hlog : b.attemptLog = calls.map (Call.attempt p)) :
    Logged p calls db ((b.commit now db).getD db) ↔ Loggable p db calls := by
  rw [← accepts_attempts, ← hlog]
  constructor
  · intro h
    obtain ⟨rows, hrows, hall⟩ := h
    by_contra hrefused
    have hnone : b.commit now db = none := by
      simp only [SendBatch.commit, Database.insert, if_neg hrefused, Option.map_none]
    rw [hnone, Option.getD_none] at hrows
    -- nothing was written, so there was nothing to log
    obtain rfl := List.append_right_eq_self.mp hrows.symm
    cases hall
    rw [hlog] at hrefused
    have hempty : Loggable p db [] :=
      ⟨List.forall_mem_nil _, List.nodup_nil, List.forall_mem_nil _⟩
    exact hrefused (accepts_attempts.mpr hempty)
  · intro hacc
    obtain ⟨db₁, hins⟩ : ∃ db₁, db.insert now b.attemptLog = some db₁ :=
      ⟨_, if_pos hacc⟩
    have hcommit : b.commit now db = some (b.contactedLeads.foldl
        (fun db c => db.modifyLead c.1 (markContacted c.2) fun _ => rfl) db₁) := by
      rw [SendBatch.commit, hins, Option.map_some]
    obtain ⟨-, -, -, -, rows, hrows, hall⟩ := Database.insert_spec hins
    rw [hcommit, Option.getD_some]
    refine ⟨rows, ?_, ?_⟩
    · rw [(contact_frame _ _).1]
      exact hrows
    · rw [hlog, List.forall₂_map_left_iff] at hall
      exact hall.imp fun _ _ h => carries_of_saved h.1

end Attempts

/-! ## Along a run -/

section Runs

variable {ν : Type} {p : Platform} {P : PhoneNumbers ν} {u v v₁ w : Org} {h : Nat}
  {es : List Label}

/-- A turn of the loop notes its call, if it makes one. -/
theorem visit_attemptLog {b : SendBatch} {lead : Lead} {rest : List Lead} {now : Time}
    {reply : ProviderReply} (hleads : b.leads = lead :: rest) :
    (b.visit p now lead rest reply).attemptLog = b.attemptLog ++
      ((b.calls p now).map fun c => performSend p now c.1 c.2 reply).toList := by
  unfold SendBatch.visit SendBatch.calls
  rw [hleads]
  cases hg : b.gate p now lead with
  | error reason => simp only [hg, SendBatch.skip, Option.map_none, Option.toList_none,
      List.append_nil]
  | ok t => simp only [hg, SendBatch.note, Option.map_some, Option.toList_some]

/-- The batch under `h` does nothing but visit leads. -/
def OnlyVisits (h : Nat) (e : Label) : Prop :=
  e.handle = some h → ∃ reply, e = .visitLead h reply

/-- The batch under `h` has noted these calls, and no others. -/
def Noted (p : Platform) (h : Nat) (calls : List Call) (w : Org) : Prop :=
  ∃ b, w.txs h = some (.send b) ∧ b.attemptLog = calls.map (Call.attempt p)

theorem step_noted {seen : List Call} {e : Label} (hok : OnlyVisits h e)
    (hs : (org p P).step u e = some w) (hb : Noted p h seen u) :
    Noted p h (seen ++ (callOf p h u e).toList) w := by
  obtain ⟨b, hopen, hlog⟩ := hb
  by_cases hh : e.handle = some h
  · obtain ⟨reply, rfl⟩ := hok hh
    obtain ⟨b₀, lead, rest, hb₀, hleads, rfl⟩ := step_visitLead.mp hs
    rw [hopen] at hb₀
    cases hb₀
    refine ⟨_, Org.txs_openTx .., ?_⟩
    have hcalls : u.calls p (.visitLead h reply) = b.calls p u.now := by
      simp only [Org.calls, hopen]
    rw [visit_attemptLog hleads, hlog, List.map_append]
    simp only [callOf, if_true, hcalls]
    cases b.calls p u.now <;> rfl
  · have hnone : callOf p h u e = none := by
      cases e with
      | visitLead i reply => exact if_neg fun hi => hh (congrArg some hi)
      | _ => rfl
    rw [hnone, Option.toList_none, List.append_nil]
    exact ⟨b, (step_other hh hs).trans hopen, hlog⟩

/-- When a batch is over, each of its calls has got its row exactly when the answers
name ids that fit, that differ, and that no row has by then. -/
theorem attempts_logged_iff {ids : List Id} {fault' : Bool}
    (hbegin : (org p P).step v (.beginSend h ids) = some v₁) (hes : ∀ e ∈ es, OnlyVisits h e)
    (hr : (org p P).run v₁ es = some u)
    (hend : (org p P).step u (.finish h false fault') = some w) :
    Logged p ((org p P).observe (callOf p h) v₁ es) u.db w.db ↔
      Loggable p u.db ((org p P).observe (callOf p h) v₁ es) := by
  obtain ⟨-, rfl⟩ := step_beginSend.mp hbegin
  have hinit : Noted p h [] (v.openTx h (.send (openBatch p v.now v.db ids))) :=
    ⟨_, Org.txs_openTx .., rfl⟩
  have hstep : ∀ seen s e t, Noted p h seen s → OnlyVisits h e → (org p P).step s e = some t →
      Noted p h (seen ++ (callOf p h s e).toList) t :=
    fun _ _ _ _ hb hok hs => step_noted hok hs hb
  obtain ⟨b, hopen, hlog⟩ := (org p P).run_observe (callOf p h) hstep hinit
    ((org p P).along_of_forall fun _ e he => hes e he) hr
  rcases step_of_open hend hopen with ⟨hne, -⟩ | ⟨_, _, _, he, -, -⟩ | ⟨_, _, he, -, rfl⟩ | ⟨he, -⟩
  · exact absurd rfl hne
  · exact nomatch he
  · cases he
    exact commit_logged hlog
  · exact nomatch he

end Runs

/-- The batch runs alone. -/
theorem attempts_logged_iff_alone :
    ∃ v₁ u w, (org gmtPlatform .e164).step twins (.beginSend 0 [0]) = some v₁ ∧
      (org gmtPlatform .e164).run v₁ [.visitLead 0 (.answered 200 sidBody)] = some u ∧
      (org gmtPlatform .e164).step u (.finish 0 false false) = some w ∧
      (Logged gmtPlatform ((org gmtPlatform .e164).observe (callOf gmtPlatform 0) v₁
          [.visitLead 0 (.answered 200 sidBody)]) u.db w.db ↔
        Loggable gmtPlatform u.db ((org gmtPlatform .e164).observe (callOf gmtPlatform 0) v₁
          [.visitLead 0 (.answered 200 sidBody)])) := by
  have hruns : ((org gmtPlatform .e164).run twins (.beginSend 0 [0] ::
      ([.visitLead 0 (.answered 200 sidBody)] ++ [.finish 0 false false]))).isSome = true := by
    decide +kernel
  obtain ⟨w, hw⟩ := Option.isSome_iff_exists.mp hruns
  obtain ⟨v₁, hbegin, hrest⟩ := (org gmtPlatform .e164).run_cons_some.mp hw
  obtain ⟨u, hu, hlast⟩ := (org gmtPlatform .e164).run_append_some.mp hrest
  have hend := (org gmtPlatform .e164).run_singleton.mp hlast
  have hvisits : ∀ e ∈ [Label.visitLead 0 (.answered 200 sidBody)], OnlyVisits 0 e :=
    fun e he _ => ⟨_, List.mem_singleton.mp he⟩
  exact ⟨v₁, u, w, hbegin, hu, hend, attempts_logged_iff hbegin hvisits hu hend⟩

/-- The provider's callback for the message, between the callout and the insert. -/
def callbackFirst : List Label :=
  [.visitLead 0 (.answered 200 sidBody),
    .beginStatus 1 ⟨some "SM1".toList, some "delivered".toList⟩, .finish 1 false false]

theorem callbackFirst_unlogged :
    ∃ v₁ u w, (org gmtPlatform .e164).step twins (.beginSend 0 [0]) = some v₁ ∧
      (org gmtPlatform .e164).run v₁ callbackFirst = some u ∧
      (org gmtPlatform .e164).step u (.finish 0 false false) = some w ∧
      ¬ Logged gmtPlatform ((org gmtPlatform .e164).observe (callOf gmtPlatform 0) v₁
          callbackFirst) u.db w.db := by
  have hbegin : ((org gmtPlatform .e164).step twins (.beginSend 0 [0])).isSome = true := by
    decide +kernel
  obtain ⟨v₁, hv₁⟩ := Option.isSome_iff_exists.mp hbegin
  -- one call, one row before the insert, and one row after it
  have hcounts : ((org gmtPlatform .e164).step twins (.beginSend 0 [0])).bind (fun v₁ =>
      ((org gmtPlatform .e164).run v₁ callbackFirst).bind fun u =>
        ((org gmtPlatform .e164).step u (.finish 0 false false)).map fun w =>
          (((org gmtPlatform .e164).observe (callOf gmtPlatform 0) v₁ callbackFirst).length,
            u.db.messages.rows.length, w.db.messages.rows.length)) = some (1, 1, 1) := by
    decide +kernel
  rw [hv₁, Option.bind_some] at hcounts
  obtain ⟨u, hu, hrest⟩ := Option.bind_eq_some_iff.mp hcounts
  obtain ⟨w, hw, hlengths⟩ := Option.map_eq_some_iff.mp hrest
  simp only [Prod.mk.injEq] at hlengths
  refine ⟨v₁, u, w, hv₁, hu, hw, ?_⟩
  intro h
  obtain ⟨rows, hrows, hall⟩ := h
  have hlen := congrArg List.length hrows
  have hcalls := hall.length_eq
  rw [List.length_append] at hlen
  omega

end Outreach.Salesforce
