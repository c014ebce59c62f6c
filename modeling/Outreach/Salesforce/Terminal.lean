import Outreach.Salesforce.FirstTouch
import Outreach.Salesforce.SendGate

/-!
# The status of a lead that was opted out

`Opted_Out__c` stays; `Outreach_Status__c` follows the replies. A later message of
the lead writes its status again, `Suppressed` or `Replied`. A batch that has
queried the lead before the opt-out and has sent to it writes `Contacted` when it
ends; a batch that queries the lead afterwards passes it over.
-/

namespace Outreach.Salesforce

open Outreach.Library Outreach.Guardrails Outreach.Cleansing

set_option autoImplicit false

/-- The table has the lead, opted out, with the status. -/
def Database.Stands (db : Database) (lead : Id) (status : OutreachStatus) : Prop :=
  ∃ x ∈ db.leads.rows, x.id = lead ∧ x.optedOut = true ∧ x.outreachStatus = some status

instance (db : Database) (lead : Id) (status : OutreachStatus) : Decidable (db.Stands lead status) :=
  List.decidableBEx _ _

/-- The batch has not contacted the lead, and does not go on to. -/
structure SendBatch.PassesOver (b : SendBatch) (lead : Id) : Prop where
  contacted : lead ∉ b.contactedLeads.map Prod.fst
  leads : ∀ l ∈ b.leads, l.id = lead → l.optedOut = true

/-- The status that the replies leave, the latest of them last. -/
def statusAfter (optOuts : List Bool) : OutreachStatus :=
  match optOuts.getLast? with
  | some false => .replied
  | _ => .suppressed

theorem statusAfter_append (seen : List Bool) (optOut : Bool) :
    statusAfter (seen ++ [optOut]) = if optOut then .suppressed else .replied := by
  rw [statusAfter, List.getLast?_concat]
  cases optOut <;> rfl

/-- A delivery matched to the lead is stored in the step: whether it is an opt-out. -/
def replyOf (p : Platform) (lead : Id) (w : Org) : Label → Option Bool
  | .finish h fault _ =>
      match w.txs h with
      | some (.inbound form sid matched) =>
          if fault = false ∧ w.db.accepts [inboundDraft w.now form sid matched] ∧
              matched.map Lead.id = some lead then
            some (decide (suppresses p.unicode form.body))
          else none
      | _ => none
  | _ => none

section Writes

variable {db : Database} {lead : Id} {status : OutreachStatus}

theorem Database.Stands.of_leads {db' : Database} (h : db.Stands lead status)
    (hl : db'.leads = db.leads) : db'.Stands lead status := by
  obtain ⟨x, hx, hrest⟩ := h
  exact ⟨x, hl ▸ hx, hrest⟩

theorem Database.Stands.modifyLead {i : Id} {f : Lead → Lead} {hf : ∀ l, (f l).id = l.id}
    (h : db.Stands lead status)
    (hkeep : i = lead → ∀ l : Lead, (f l).optedOut = l.optedOut ∧
      (f l).outreachStatus = l.outreachStatus) : (db.modifyLead i f hf).Stands lead status := by
  obtain ⟨x, hx, hid, hout, hstatus⟩ := h
  refine ⟨if x.id = i then f x else x, List.mem_map_of_mem hx, ?_⟩
  split
  · rename_i hi
    obtain ⟨ho, hs⟩ := hkeep (hi.symm.trans hid) x
    exact ⟨(hf x).trans hid, ho.trans hout, hs.trans hstatus⟩
  · exact ⟨hid, hout, hstatus⟩

theorem Database.Stands.contact {contacted : List (Id × Time)}
    (h : db.Stands lead status) (hout : lead ∉ contacted.map Prod.fst) :
    (contacted.foldl (fun db c => db.modifyLead c.1 (markContacted c.2) fun _ => rfl) db).Stands
      lead status := by
  induction contacted generalizing db with
  | nil => exact h
  | cons c contacted ih =>
    rw [List.map_cons, List.mem_cons, not_or] at hout
    exact ih (h.modifyLead fun hi => absurd hi.symm hout.1) hout.2

theorem Database.Stands.commit {b : SendBatch} {now : Time} (h : db.Stands lead status)
    (hb : b.PassesOver lead) : ((b.commit now db).getD db).Stands lead status := by
  cases hc : b.commit now db with
  | none => exact h
  | some db' =>
    obtain ⟨db₁, hins, rfl⟩ := Option.map_eq_some_iff.mp hc
    exact (h.of_leads (Database.insert_spec hins).2.1).contact hb.contacted

theorem statusCommit_leads {now : Time} {fault fault' : Bool} {q : StatusQuery}
    {out : Database × Nat} (h : statusCommit now fault fault' db q = some out) :
    out.1.leads = db.leads := by
  have hset : ∀ {i status fault db'}, setDeliveryStatus db i status fault = some db' →
      db'.leads = db.leads := by
    intro i status fault db' h
    unfold setDeliveryStatus at h
    split at h
    · cases h
    · cases h
      rfl
  cases q with
  | answered statusCode =>
    cases h
    rfl
  | existing i status =>
    obtain ⟨db', hdb', rfl⟩ := Option.map_eq_some_iff.mp h
    exact hset hdb'
  | unknown sid status =>
    simp only [statusCommit] at h
    split at h
    · rename_i db' hins
      cases h
      cases fault with
      | true => cases hins
      | false => exact (Database.insert_spec hins).2.1
    · split at h
      · cases h
        rfl
      · obtain ⟨db', hdb', rfl⟩ := Option.map_eq_some_iff.mp h
        exact hset hdb'

theorem Database.Stands.upsert (h : db.Stands lead status) (now : Time) (r : LeadRecord) :
    (upsertLead now r db).Stands lead status := by
  unfold upsertLead
  split
  · exact h.modifyLead fun _ _ => ⟨rfl, rfl⟩
  · obtain ⟨x, hx, hrest⟩ := h
    exact ⟨x, List.mem_append_left _ hx, hrest⟩

/-- What a stored delivery leaves of the lead. -/
theorem Database.Stands.reply (h : db.Stands lead status) (U : UnicodeData) (now : Time)
    (form : InboundForm) (sid : Text) (matched : Option Lead) :
    (persistVerdict U now form matched db.messages.next
        (db.addMessage now (inboundDraft now form sid matched))).Stands lead
      (if matched.map Lead.id = some lead then
        if suppresses U form.body then .suppressed else .replied
      else status) := by
  obtain ⟨x, hx, rfl, hout, hstatus⟩ := h
  refine ⟨afterReply U now form matched x, ?_, ?_⟩
  · rw [(persistVerdict_leads U now form matched _ _).1]
    exact List.mem_map_of_mem hx
  · unfold afterReply
    by_cases hm : matched.map Lead.id = some x.id
    · rw [if_pos hm, if_pos hm, applyReply_id]
      by_cases hs : suppresses U form.body
      · rw [decide_eq_true hs, if_pos hs]
        exact ⟨rfl, rfl, rfl⟩
      · rw [decide_eq_false hs, if_neg hs]
        exact ⟨rfl, hout, rfl⟩
    · rw [if_neg hm, if_neg hm]
      exact ⟨rfl, hout, hstatus⟩

theorem optOut_stands {U : UnicodeData} {now : Time} {form : InboundForm} {l : Lead}
    {messageId : Id} (hstop : suppresses U form.body) (hrow : ∃ x ∈ db.leads.rows, x.id = l.id) :
    (persistVerdict U now form (some l) messageId db).Stands l.id .suppressed := by
  obtain ⟨x, hx, hid⟩ := hrow
  have hhit : (some l).map Lead.id = some x.id := by
    rw [Option.map_some, hid]
  refine ⟨afterReply U now form (some l) x, ?_, ?_⟩
  · rw [(persistVerdict_leads U now form (some l) messageId db).1]
    exact List.mem_map_of_mem hx
  · rw [afterReply, if_pos hhit, applyReply_id, decide_eq_true hstop]
    exact ⟨hid, rfl, rfl⟩

end Writes

section Runs

variable {ν : Type} {p : Platform} {P : PhoneNumbers ν} {w w' : Org} {lead : Id} {e : Label}
  {es : List Label}

structure TerminalInv (lead : Id) (seen : List Bool) (w : Org) : Prop where
  stands : w.db.Stands lead (statusAfter seen)
  passes : ∀ h b, w.txs h = some (.send b) → b.PassesOver lead

theorem openBatch_passesOver {db : Database} {now : Time} {ids : List Id}
    (h : db.OptedOut lead) : (openBatch p now db ids).PassesOver lead where
  contacted := List.not_mem_nil
  leads _ hl hid := h.of_mem (mem_openBatch.mp hl).1 hid

theorem visit_passesOver {b : SendBatch} {l : Lead} {rest : List Lead} {now : Time}
    (reply : ProviderReply) (hleads : b.leads = l :: rest) (hb : b.PassesOver lead) :
    (b.visit p now l rest reply).PassesOver lead where
  contacted := by
    unfold SendBatch.visit
    cases hg : b.gate p now l with
    | error reason => exact hb.contacted
    | ok t =>
      have hne : lead ≠ l.id := by
        intro he
        have hout := hb.leads l (hleads ▸ List.mem_cons_self) he.symm
        rw [(gate_eq_ok.mp hg).1] at hout
        cases hout
      simp only [SendBatch.note]
      split
      · rw [List.map_append, List.mem_append, not_or]
        exact ⟨hb.contacted, fun h => hne (List.mem_singleton.mp h)⟩
      · exact hb.contacted
  leads x hx := by
    rw [(visit_frame p now b l rest reply).1] at hx
    exact hb.leads x (hleads ▸ List.mem_cons_of_mem l hx)

theorem Database.Stands.optedOut {db : Database} {status : OutreachStatus}
    (h : db.Stands lead status) : db.OptedOut lead := by
  obtain ⟨x, hx, hid, hout, -⟩ := h
  exact ⟨x, hx, hid, hout⟩

theorem step_passes {seen : List Bool} (hinv : TerminalInv lead seen w)
    (hs : (org p P).step w e = some w') :
    ∀ h b, w'.txs h = some (.send b) → b.PassesOver lead := by
  intro h b hb
  rcases step_batch hs hb with ⟨ids, -, -, rfl⟩ | ⟨reply, b₀, l, rest, -, hb₀, hl, rfl⟩ |
    ⟨-, hsame⟩
  · exact openBatch_passesOver hinv.stands.optedOut
  · exact visit_passesOver reply hl (hinv.passes h b₀ hb₀)
  · exact hinv.passes h b hsame

/-- The end of a transaction writes the status that its reply leaves, if it is one. -/
theorem finish_stands {seen : List Bool} {h : Nat} {fault fault' : Bool}
    (hinv : TerminalInv lead seen w) (hs : (org p P).step w (.finish h fault fault') = some w') :
    w'.db.Stands lead
      (statusAfter (seen ++ (replyOf p lead w (.finish h fault fault')).toList)) := by
  obtain ⟨tx, db, hopen, hdb, rfl⟩ := step_finish.mp hs
  show db.Stands lead _
  have hstands := hinv.stands
  cases tx with
  | send b =>
    have hnone : replyOf p lead w (.finish h fault fault') = none := by simp only [replyOf, hopen]
    rw [hnone, Option.toList_none, List.append_nil]
    simp only [Org.finished] at hdb
    split at hdb
    · cases hdb
      split
      · exact hstands
      · exact hstands.commit (hinv.passes h b hopen)
    · cases hdb
  | status query =>
    have hnone : replyOf p lead w (.finish h fault fault') = none := by simp only [replyOf, hopen]
    rw [hnone, Option.toList_none, List.append_nil]
    simp only [Org.finished, Option.some.injEq] at hdb
    cases hc : statusCommit w.now fault fault' w.db query with
    | none =>
      rw [hc] at hdb
      exact hdb ▸ hstands
    | some out =>
      rw [hc] at hdb
      exact hdb ▸ hstands.of_leads (statusCommit_leads hc)
  | inbound form sid matched =>
    have hreply : replyOf p lead w (.finish h fault fault') =
        if fault = false ∧ w.db.accepts [inboundDraft w.now form sid matched] ∧
            matched.map Lead.id = some lead then
          some (decide (suppresses p.unicode form.body))
        else none := by
      simp only [replyOf, hopen]
    rw [hreply]
    by_cases hstored : fault = false ∧ w.db.accepts [inboundDraft w.now form sid matched]
    · obtain ⟨rfl, hacc⟩ := hstored
      obtain rfl := Option.some.inj ((finished_stored hacc).symm.trans hdb)
      have hwritten := hstands.reply p.unicode w.now form sid matched
      by_cases hm : matched.map Lead.id = some lead
      · rw [if_pos hm] at hwritten
        rw [if_pos ⟨rfl, hacc, hm⟩, Option.toList_some, statusAfter_append]
        simpa only [decide_eq_true_eq] using hwritten
      · rw [if_neg hm] at hwritten
        rw [if_neg fun h => hm h.2.2, Option.toList_none, List.append_nil]
        exact hwritten
    · obtain rfl := Option.some.inj ((finished_refused hstored).symm.trans hdb)
      rw [if_neg fun h => hstored ⟨h.1, h.2.1⟩, Option.toList_none, List.append_nil]
      exact hstands

theorem terminal_step {seen : List Bool} (hinv : TerminalInv lead seen w)
    (hs : (org p P).step w e = some w') :
    TerminalInv lead (seen ++ (replyOf p lead w e).toList) w' := by
  refine ⟨?_, step_passes hinv hs⟩
  have hstands := hinv.stands
  rcases step_db hs with hdb | ⟨h, fault, fault', tx, rfl, -, -⟩ |
    ⟨i, delivered, statusCode, eventId, job, rfl, -, hdb⟩ | ⟨record, rfl, hdb⟩
  · cases e with
    | finish h fault fault' => exact finish_stands hinv hs
    | _ =>
      rw [hdb]
      simpa only [replyOf, Option.toList_none, List.append_nil] using hstands
  · exact finish_stands hinv hs
  · have hl := (afterSync_leads job statusCode { w.db with jobs := w.db.jobs.eraseIdx i }).1
    rw [hdb]
    simpa only [replyOf, Option.toList_none, List.append_nil] using hstands.of_leads hl
  · rw [hdb]
    simpa only [replyOf, Option.toList_none, List.append_nil] using hstands.upsert w.now record

/-- A lead that an inbound message has opted out stays so, and its status is what its
latest stored message makes it, when no batch is about to write to it from an older query. -/
theorem optedOut_status {form : InboundForm} {sid : Text} {l : Lead} {w₀ w₁ v v' : Org} {h : Nat}
    {fault' : Bool} {fs : List Label}
    (hfirst : inboundQuery w₀.db form = .unlogged sid (some l))
    (hbegin : (org p P).step w₀ (.beginInbound h form) = some w₁)
    (hes : ∀ e ∈ es, e.handle ≠ some h) (hr : (org p P).run w₁ es = some w)
    (hstop : suppresses p.unicode form.body)
    (hacc : w.db.accepts [inboundDraft w.now form sid (some l)])
    (hend : (org p P).step w (.finish h false fault') = some v)
    (hopen : ∀ i b, v.txs i = some (.send b) → b.PassesOver l.id)
    (hlater : (org p P).run v fs = some v') :
    v'.db.Stands l.id (statusAfter ((org p P).observe (replyOf p l.id) v fs)) := by
  obtain ⟨htx, hdb₁⟩ := inbound_open hfirst hbegin hes hr
  have hrow : ∃ x ∈ w.db.leads.rows, x.id = l.id := by
    have hmem := (matchLead_phone (inboundQuery_matched hfirst).symm).1
    obtain ⟨y, hy, hid, -⟩ := (run_grows hr).1.rows l (hdb₁ ▸ hmem)
    exact ⟨y, hy, hid⟩
  have hinit : TerminalInv l.id [] v := by
    refine ⟨?_, hopen⟩
    obtain ⟨db, hdb, rfl⟩ := (step_finish_of_open htx).mp hend
    obtain rfl := Option.some.inj ((finished_stored hacc).symm.trans hdb)
    exact optOut_stands hstop hrow
  exact ((org p P).run_observe (replyOf p l.id) (fun _ _ _ _ hinv _ hs => terminal_step hinv hs)
    hinit ((org p P).along_of_forall fun _ _ _ => trivial) hlater).stands

end Runs

/-- A later message of the newer twin, which is no opt-out. -/
def thanksForm : InboundForm :=
  ⟨some "SM10".toList, some "(650) 253-0000".toList, some "Thanks".toList⟩

def thanks : List Label := [.beginInbound 0 thanksForm, .finish 0 false false]

theorem optedOut_status_twins :
    ∃ v v', (org gmtPlatform .e164).run twins [.beginInbound 0 stopForm, .finish 0 false false] =
        some v ∧ (org gmtPlatform .e164).run v thanks = some v' ∧
      v'.db.Stands 1
        (statusAfter ((org gmtPlatform .e164).observe (replyOf gmtPlatform 1) v thanks)) := by
  have hruns : ((org gmtPlatform .e164).run twins ([.beginInbound 0 stopForm,
      .finish 0 false false] ++ thanks)).isSome = true := by decide +kernel
  obtain ⟨v', hv'⟩ := Option.isSome_iff_exists.mp hruns
  obtain ⟨v, hv, hlater⟩ := (org gmtPlatform .e164).run_append_some.mp hv'
  obtain ⟨w₁, hbegin, hrest⟩ := (org gmtPlatform .e164).run_cons_some.mp hv
  have hend := (org gmtPlatform .e164).run_singleton.mp hrest
  have hrun : (org gmtPlatform .e164).run w₁ [] = some w₁ := rfl
  have hnone : ∀ e ∈ ([] : List Label), e.handle ≠ some 0 := List.forall_mem_nil _
  have hw₁ : w₁ = twins.openTx 0 (.inbound stopForm "SM9".toList (some (readyLead 1 1))) :=
    Option.some.inj (hbegin.symm.trans stopForm_opened)
  have hacc : w₁.db.accepts [inboundDraft w₁.now stopForm "SM9".toList (some (readyLead 1 1))] := by
    rw [hw₁]
    exact stopForm_accepted
  have hidle : ∀ i b, v.txs i = some (.send b) → b.PassesOver (readyLead 1 1).id := by
    intro i b hb
    obtain ⟨_, _, -, -, rfl⟩ := step_finish.mp hend
    by_cases hi : i = 0
    · rw [hi, Org.txs_close] at hb
      cases hb
    · rw [Org.txs_close_of_ne hi, hw₁, Org.txs_openTx_of_ne hi] at hb
      cases hb
  exact ⟨v, v', hv, hlater, optedOut_status stopForm_first hbegin hnone hrun stopForm_suppresses
    hacc hend hidle hlater⟩

/-- The lead that sent STOP says thanks, and is no longer `Suppressed`. -/
theorem suppressed_not_terminal :
    ∃ v v', (org gmtPlatform .e164).run twins [.beginInbound 0 stopForm, .finish 0 false false] =
        some v ∧ v.db.Stands 1 .suppressed ∧
      (org gmtPlatform .e164).run v thanks = some v' ∧
      v'.db.Stands 1 .replied ∧ ¬ v'.db.Stands 1 .suppressed := by
  have hstop : (((org gmtPlatform .e164).run twins [.beginInbound 0 stopForm,
      .finish 0 false false]).map fun v => decide (v.db.Stands 1 .suppressed)) = some true := by
    decide +kernel
  have hthanks : (((org gmtPlatform .e164).run twins ([.beginInbound 0 stopForm,
      .finish 0 false false] ++ thanks)).map fun v' =>
        (decide (v'.db.Stands 1 .replied), decide (v'.db.Stands 1 .suppressed))) =
      some (true, false) := by
    decide +kernel
  obtain ⟨v', hv', hafter⟩ := Option.map_eq_some_iff.mp hthanks
  obtain ⟨v, hv, hlater⟩ := (org gmtPlatform .e164).run_append_some.mp hv'
  rw [hv, Option.map_some, Option.some.injEq] at hstop
  rw [Prod.mk.injEq] at hafter
  exact ⟨v, v', hv, of_decide_eq_true hstop, hlater, of_decide_eq_true hafter.1,
    of_decide_eq_false hafter.2⟩

end Outreach.Salesforce
