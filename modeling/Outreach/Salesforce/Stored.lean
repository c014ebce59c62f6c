import Outreach.Salesforce.Growth

/-!
# What an answer 200 says

Both handlers take every refused insert for a race that another delivery has won,
and answer 200. Between the queries of a handler and its DML the org may take any
steps.
-/

namespace Outreach.Salesforce

open Outreach.Library Outreach.Guardrails Outreach.Cleansing

set_option autoImplicit false

section Answers

variable (U : UnicodeData) (now : Time) (fault fault' : Bool) (queried db : Database)

/-- The body is no opt-out, or the lead that the number matches is opted out. -/
def OptOutTaken (form : InboundForm) (after : Database) : Prop :=
  suppresses U form.body → ∀ l, matchLead queried (normalizePhone form.fromNumber) = some l →
    after.OptedOut l.id

/-- 200 means that the message is logged and the opt-out taken. -/
def InboundStored (form : InboundForm) : Prop :=
  (handleInbound U now form fault queried db).2 = 200 →
    ∀ sid, form.messageSid = some sid →
      (handleInbound U now form fault queried db).1.logged sid ∧
        OptOutTaken U queried form (handleInbound U now form fault queried db).1

/-- 200 means that there is a row with the id. -/
def StatusStored (form : StatusForm) : Prop :=
  ∀ after, handleStatus now form fault fault' queried db = some (after, 200) →
    ∀ sid, form.messageSid = some sid → after.logged sid

end Answers

section Facts

variable {U : UnicodeData} {now : Time} {queried db db' : Database} {sid : Text}

theorem saved_of_not_blank (hsid : isBlank (some sid) = false) : saved (some sid) = some sid := by
  rw [saved, hsid, if_neg Bool.false_ne_true]

theorem addMessage_logged {d : MessageDraft} (hsid : isBlank (some sid) = false)
    (hd : d.providerMessageId = some sid) : (db.addMessage now d).logged sid := by
  refine mem_providerIds.mpr ⟨d.save now db.messages.next, ?_, ?_⟩
  · exact List.mem_append_right _ (List.mem_singleton_self _)
  · show saved d.providerMessageId = some sid
    rw [hd]
    exact saved_of_not_blank hsid

theorem findLogged_eq_none : findLogged db sid = none ↔ ¬ db.logged sid := by
  rw [Database.logged, mem_providerIds]
  simp [findLogged]

/-- An accepted delivery is stored, and its opt-out is taken. -/
theorem inbound_stored_of_accepts {form : InboundForm} {matched : Option Lead}
    (hsid : isBlank (some sid) = false) (hgrows : queried.Grows db)
    (hmatched : matchLead queried (normalizePhone form.fromNumber) = matched)
    (hacc : db.accepts [inboundDraft now form sid matched]) :
    (inboundCommit U now form sid matched false db).1.logged sid ∧
      OptOutTaken U queried form (inboundCommit U now form sid matched false db).1 := by
  have hgrows' := (persistVerdict_grows U now form matched db.messages.next
    (db.addMessage now (inboundDraft now form sid matched))).1
  rw [inboundCommit_stored _ _ _ _ _ _ hacc]
  refine ⟨hgrows'.logged (addMessage_logged hsid rfl), fun hstop l hl => ?_⟩
  obtain ⟨y, hy, hyid, -⟩ := hgrows.rows l ((matchLead_phone hl).1)
  obtain rfl := hl.symm.trans hmatched
  exact persistVerdict_optsOut hstop ⟨y, hy, hyid⟩

/-- An answer 200 of the inbound webhook means what it says exactly when the insert
is accepted, or there was nothing left to store. -/
theorem inboundStored_iff {form : InboundForm} {fault : Bool} (hform : form.messageSid = some sid)
    (hsid : isBlank (some sid) = false) (hgrows : queried.Grows db) :
    InboundStored U now fault queried db form ↔
      (¬ queried.logged sid ∧ fault = false ∧ db.accepts [inboundDraft now form sid
        (matchLead queried (normalizePhone form.fromNumber))]) ∨
      (db.logged sid ∧ OptOutTaken U queried form db) := by
  have hunchanged : handleInbound U now form fault queried db = (db, 200) →
      (InboundStored U now fault queried db form ↔
        db.logged sid ∧ OptOutTaken U queried form db) := by
    intro hout
    unfold InboundStored
    rw [hout, hform]
    constructor
    · exact fun h => h rfl sid rfl
    · rintro h - _ heq
      cases heq
      exact h
  by_cases hlogged : queried.logged sid
  · have hq : inboundQuery queried form = .answered 200 := by
      simp only [inboundQuery, hform, hsid, hlogged, if_true, Bool.false_eq_true, if_false]
    rw [hunchanged (by rw [handleInbound, hq])]
    exact ⟨Or.inr, fun h => h.resolve_left fun h => h.1 hlogged⟩
  · have hq : inboundQuery queried form =
        .unlogged sid (matchLead queried (normalizePhone form.fromNumber)) := by
      simp only [inboundQuery, hform, hsid, hlogged, Bool.false_eq_true, if_false]
    have hout : handleInbound U now form fault queried db = inboundCommit U now form sid
        (matchLead queried (normalizePhone form.fromNumber)) fault db := by
      rw [handleInbound, hq]
    by_cases hstored : fault = false ∧ db.accepts [inboundDraft now form sid
        (matchLead queried (normalizePhone form.fromNumber))]
    · obtain ⟨rfl, hacc⟩ := hstored
      refine iff_of_true ?_ (Or.inl ⟨hlogged, rfl, hacc⟩)
      unfold InboundStored
      rw [hout, hform]
      rintro - _ heq
      cases heq
      exact inbound_stored_of_accepts hsid hgrows rfl hacc
    · rw [hunchanged (by rw [hout, inboundCommit_refused _ _ _ _ _ _ _ hstored])]
      exact ⟨Or.inr, fun h => h.resolve_left fun h => hstored h.2⟩

/-- Whatever a callback does to a row that is there, it keeps it. -/
theorem statusCommit_logged {q : StatusQuery} {fault fault' : Bool} {after : Database}
    (h : statusCommit now fault fault' db q = some (after, 200)) (hl : db.logged sid) :
    after.logged sid := (statusCommit_grows h).1.logged hl

theorem stub_stored {status : Text} (now : Time) (fault' : Bool) (hsid : isBlank (some sid) = false)
    (hacc : db.accepts [statusStub sid status]) :
    ∃ after, statusCommit now false fault' db (.unknown sid status) = some (after, 200) ∧
      after.logged sid := by
  refine ⟨db.addMessage now (statusStub sid status), ?_, addMessage_logged hsid rfl⟩
  simp only [statusCommit, Database.insert, if_pos hacc, Bool.false_eq_true, if_false,
    List.foldl_cons, List.foldl_nil]

/-- A stub that is refused while there is no row is dropped, and answered 200. -/
theorem stub_dropped {status : Text} {fault fault' : Bool} (hl : ¬ db.logged sid)
    (hrefused : ¬ (fault = false ∧ db.accepts [statusStub sid status])) :
    statusCommit now fault fault' db (.unknown sid status) = some (db, 200) := by
  have hnone : (if fault = true then none else db.insert now [statusStub sid status]) = none := by
    cases fault with
    | true => rfl
    | false => exact if_neg fun hacc => hrefused ⟨rfl, hacc⟩
  simp only [statusCommit, hnone, findLogged_eq_none.mpr hl]

theorem statusQuery_blank {form : StatusForm} (hblank : isBlank form.messageStatus = true) :
    statusQuery queried form = .answered 400 := by
  unfold statusQuery
  split
  · rename_i sid status _ hm
    rw [hm] at hblank
    rw [hblank, Bool.or_true, if_pos rfl]
  · rfl

theorem statusQuery_unknown {form : StatusForm} {status : Text} (hform : form.messageSid = some sid)
    (hsid : isBlank (some sid) = false) (hm : form.messageStatus = some status)
    (hblank : isBlank (some status) = false) (hl : ¬ queried.logged sid) :
    statusQuery queried form = .unknown sid status := by
  have hnew : findLogged queried sid = none := findLogged_eq_none.mpr hl
  simp only [statusQuery, hform, hm, hsid, hblank, hnew, Bool.or_self, Bool.false_eq_true, if_false]

/-- An answer 200 of the status webhook means what it says exactly when the row is
there by then, or the insert of the stub is accepted. -/
theorem statusStored_iff {form : StatusForm} {fault fault' : Bool}
    (hform : form.messageSid = some sid) (hsid : isBlank (some sid) = false)
    (hgrows : queried.Grows db) :
    StatusStored now fault fault' queried db form ↔
      isBlank form.messageStatus = true ∨ db.logged sid ∨
        fault = false ∧ db.accepts [statusStub sid (form.messageStatus.getD [])] := by
  unfold StatusStored handleStatus
  rw [hform]
  cases hblank : isBlank form.messageStatus with
  | true =>
    refine iff_of_true ?_ (Or.inl rfl)
    rw [statusQuery_blank hblank]
    intro after h
    cases h
  | false =>
    obtain ⟨status, hm⟩ : ∃ status, form.messageStatus = some status := by
      cases hm : form.messageStatus with
      | none =>
        rw [hm] at hblank
        cases hblank
      | some status => exact ⟨status, rfl⟩
    rw [hm] at hblank
    rw [hm, Option.getD_some]
    by_cases hl : db.logged sid
    · refine iff_of_true ?_ (Or.inr (Or.inl hl))
      rintro after h _ heq
      cases heq
      exact statusCommit_logged h hl
    · rw [statusQuery_unknown hform hsid hm hblank fun h => hl (hgrows.logged h)]
      by_cases hstored : fault = false ∧ db.accepts [statusStub sid status]
      · refine iff_of_true ?_ (Or.inr (Or.inr hstored))
        obtain ⟨rfl, hacc⟩ := hstored
        obtain ⟨after, hout, hlogged⟩ := stub_stored now fault' hsid hacc
        intro after' h _ heq
        cases heq
        rw [hout] at h
        cases h
        exact hlogged
      · apply iff_of_false
        · intro h
          exact hl (h db (stub_dropped hl hstored) sid rfl)
        · rintro (h | h | h)
          · cases h
          · exact hl h
          · exact hstored h

end Facts

/-- What 200 says, whatever the org does between the queries and the DML of a handler. -/
theorem answered_stored_iff {ν : Type} {p : Platform} {P : PhoneNumbers ν} {w₀ w : Org}
    {es : List Label} (hr : (org p P).run w₀ es = some w) {sid : Text}
    (hsid : isBlank (some sid) = false) :
    (∀ (form : InboundForm) (fault : Bool), form.messageSid = some sid →
      (InboundStored p.unicode w.now fault w₀.db w.db form ↔
        (¬ w₀.db.logged sid ∧ fault = false ∧ w.db.accepts [inboundDraft w.now form sid
          (matchLead w₀.db (normalizePhone form.fromNumber))]) ∨
        (w.db.logged sid ∧ OptOutTaken p.unicode w₀.db form w.db))) ∧
    ∀ (form : StatusForm) (fault fault' : Bool), form.messageSid = some sid →
      (StatusStored w.now fault fault' w₀.db w.db form ↔
        isBlank form.messageStatus = true ∨ w.db.logged sid ∨
          fault = false ∧ w.db.accepts [statusStub sid (form.messageStatus.getD [])]) := by
  have hgrows := (run_grows hr).1
  exact ⟨fun form fault hform => inboundStored_iff hform hsid hgrows,
    fun form fault fault' hform => statusStored_iff hform hsid hgrows⟩

theorem answered_stored_iff_twins :
    ∃ w, (org gmtPlatform .e164).run twins [.tick 5] = some w ∧
      (∀ (form : InboundForm) (fault : Bool), form.messageSid = some "SM9".toList →
        (InboundStored gmtPlatform.unicode w.now fault twins.db w.db form ↔
          (¬ twins.db.logged "SM9".toList ∧ fault = false ∧
            w.db.accepts [inboundDraft w.now form "SM9".toList
              (matchLead twins.db (normalizePhone form.fromNumber))]) ∨
          (w.db.logged "SM9".toList ∧ OptOutTaken gmtPlatform.unicode twins.db form w.db))) ∧
      ∀ (form : StatusForm) (fault fault' : Bool), form.messageSid = some "SM9".toList →
        (StatusStored w.now fault fault' twins.db w.db form ↔
          isBlank form.messageStatus = true ∨ w.db.logged "SM9".toList ∨
            fault = false ∧
              w.db.accepts [statusStub "SM9".toList (form.messageStatus.getD [])]) :=
  ⟨_, rfl, @answered_stored_iff Text gmtPlatform .e164 twins _ [.tick 5] rfl _ (by decide)⟩

/-- A signed STOP whose id is too long for its field. -/
def longForm : InboundForm :=
  ⟨some (List.replicate 256 'S'), some sharedPhone, some "STOP".toList⟩

/-- It is answered 200; nothing is stored, and its sender is not opted out. -/
theorem longForm_not_stored :
    suppresses gmtPlatform.unicode longForm.body ∧
      (matchLead twins.db (normalizePhone longForm.fromNumber)).isSome = true ∧
      (handleInbound gmtPlatform.unicode noon longForm false twins.db twins.db).2 = 200 ∧
      ¬ InboundStored gmtPlatform.unicode noon false twins.db twins.db longForm := by
  have hok : (handleInbound gmtPlatform.unicode noon longForm false twins.db twins.db).2 = 200 := by
    decide +kernel
  have hlost : ¬ (handleInbound gmtPlatform.unicode noon longForm false twins.db twins.db).1.logged
      (List.replicate 256 'S') := by
    decide +kernel
  refine ⟨by decide +kernel, by decide +kernel, hok, fun h => ?_⟩
  exact hlost (h hok _ rfl).1

end Outreach.Salesforce
