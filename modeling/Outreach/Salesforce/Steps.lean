import Outreach.Salesforce.Org

/-!
# What each step of the org does

One inversion lemma for each kind of step. From these: what a step makes of the
table, and how a transaction comes to be open and what can happen to it.
-/

namespace Outreach.Salesforce

open Outreach.Library Outreach.Cleansing Outreach.Suppression

set_option autoImplicit false

variable {ν : Type} {p : Platform} {P : PhoneNumbers ν} {w w' : Org} {h : Nat}

theorem step_beginSend {ids : List Id} :
    (org p P).step w (.beginSend h ids) = some w' ↔
      w.txs h = none ∧ w' = w.openTx h (.send (openBatch p w.now w.db ids)) := by
  simp only [org, Org.step]
  cases w.txs h <;> simp [eq_comm]

theorem step_visitLead {reply : ProviderReply} :
    (org p P).step w (.visitLead h reply) = some w' ↔
      ∃ b lead rest, w.txs h = some (.send b) ∧ b.leads = lead :: rest ∧
        w' = w.openTx h (.send (b.visit p w.now lead rest reply)) := by
  simp only [org, Org.step]
  constructor
  · intro hs
    split at hs
    · rename_i b hopen
      split at hs
      · rename_i lead rest hleads
        exact ⟨b, lead, rest, hopen, hleads, (Option.some.inj hs).symm⟩
      · cases hs
    · cases hs
  · intro h
    obtain ⟨b, lead, rest, hopen, hleads, rfl⟩ := h
    simp only [hopen, hleads]

theorem step_beginInbound {form : InboundForm} :
    (org p P).step w (.beginInbound h form) = some w' ↔
      w.txs h = none ∧
        ((∃ statusCode, inboundQuery w.db form = .answered statusCode) ∧ w' = w ∨
          ∃ sid matched, inboundQuery w.db form = .unlogged sid matched ∧
            w' = w.openTx h (.inbound form sid matched)) := by
  simp only [org, Org.step]
  cases w.txs h with
  | none => cases inboundQuery w.db form <;> simp [eq_comm]
  | some tx => simp

theorem step_beginStatus {form : StatusForm} :
    (org p P).step w (.beginStatus h form) = some w' ↔
      w.txs h = none ∧ w' = w.openTx h (.status (statusQuery w.db form)) := by
  simp only [org, Org.step]
  cases w.txs h <;> simp [eq_comm]

theorem step_finish {fault fault' : Bool} :
    (org p P).step w (.finish h fault fault') = some w' ↔
      ∃ tx db, w.txs h = some tx ∧ w.finished p fault fault' tx = some db ∧ w' = w.close h db := by
  simp only [org, Org.step]
  cases w.txs h <;> simp [eq_comm]

/-- The end of a transaction that is known. -/
theorem step_finish_of_open {fault fault' : Bool} {tx : Tx} (hopen : w.txs h = some tx) :
    (org p P).step w (.finish h fault fault') = some w' ↔
      ∃ db, w.finished p fault fault' tx = some db ∧ w' = w.close h db := by
  rw [step_finish]
  constructor
  · rintro ⟨tx', db, htx, hdb, rfl⟩
    rw [hopen] at htx
    cases htx
    exact ⟨db, hdb, rfl⟩
  · rintro ⟨db, hdb, rfl⟩
    exact ⟨tx, db, hopen, hdb, rfl⟩

theorem step_abort :
    (org p P).step w (.abort h) = some w' ↔
      (∃ tx, w.txs h = some tx) ∧ w' = w.close h w.db := by
  simp only [org, Org.step]
  cases w.txs h <;> simp [eq_comm]

theorem step_runJob {i : Nat} {delivered : Bool} {statusCode : Int} {eventId : Text} :
    (org p P).step w (.runJob i delivered statusCode eventId) = some w' ↔
      ∃ job, w.db.jobs[i]? = some job ∧
        (isSuccess statusCode = true → posted p P delivered w.now job eventId ≠ none) ∧
        w' = { w with
          events := w.events ++ (posted p P delivered w.now job eventId).toList
          db := afterSync job statusCode { w.db with jobs := w.db.jobs.eraseIdx i } } := by
  simp only [org, Org.step]
  cases w.db.jobs[i]? with
  | none => simp
  | some job =>
    constructor
    · intro hs
      by_cases hguard :
          (isSuccess statusCode && (posted p P delivered w.now job eventId).isNone) = true
      · simp only [hguard, if_true] at hs
        cases hs
      · simp only [hguard, if_false, Bool.false_eq_true] at hs
        refine ⟨job, rfl, fun hok hnone => hguard ?_, (Option.some.inj hs).symm⟩
        rw [hok, hnone]
        rfl
    · intro h
      obtain ⟨job', hj, hok, rfl⟩ := h
      cases hj
      refine if_neg fun hguard => ?_
      rw [Bool.and_eq_true] at hguard
      exact hok hguard.1 (Option.isNone_iff_eq_none.mp hguard.2)

/-! ## By the part of the state that changes -/

section Inbound

variable {form : InboundForm} {sid : Text} {matched : Option Lead}

theorem finished_stored {fault' : Bool} (hacc : w.db.accepts [inboundDraft w.now form sid matched]) :
    w.finished p false fault' (.inbound form sid matched) =
      some (persistVerdict p.unicode w.now form matched w.db.messages.next
        (w.db.addMessage w.now (inboundDraft w.now form sid matched))) := by
  rw [Org.finished, inboundCommit_stored _ _ _ _ _ _ hacc]

theorem finished_refused {fault fault' : Bool}
    (h : ¬ (fault = false ∧ w.db.accepts [inboundDraft w.now form sid matched])) :
    w.finished p fault fault' (.inbound form sid matched) = some w.db := by
  rw [Org.finished, inboundCommit_refused _ _ _ _ _ _ _ h]

end Inbound

/-- What a transaction leaves when it ends: the table as it was, or what its DML made of it. -/
theorem finished_cases {fault fault' : Bool} {tx : Tx} {db : Database}
    (hdb : w.finished p fault fault' tx = some db) :
    db = w.db ∨
    (∃ b, tx = .send b ∧ b.commit w.now w.db = some db) ∨
    (∃ form sid matched, tx = .inbound form sid matched ∧
      w.db.accepts [inboundDraft w.now form sid matched] ∧
      db = persistVerdict p.unicode w.now form matched w.db.messages.next
        (w.db.addMessage w.now (inboundDraft w.now form sid matched))) ∨
    ∃ query out, tx = .status query ∧ statusCommit w.now fault fault' w.db query = some out ∧
      db = out.1 := by
  cases tx with
  | send b =>
    simp only [Org.finished] at hdb
    split at hdb
    · rw [Option.some.injEq] at hdb
      split at hdb
      · exact Or.inl hdb.symm
      · cases hc : b.commit w.now w.db with
        | none =>
          rw [hc] at hdb
          exact Or.inl hdb.symm
        | some db' =>
          rw [hc, Option.getD_some] at hdb
          exact Or.inr (Or.inl ⟨b, rfl, hdb ▸ hc⟩)
    · cases hdb
  | inbound form sid matched =>
    by_cases hstored : fault = false ∧ w.db.accepts [inboundDraft w.now form sid matched]
    · obtain ⟨rfl, hacc⟩ := hstored
      have hwritten := Option.some.inj (hdb.symm.trans (finished_stored hacc))
      exact Or.inr (Or.inr (Or.inl ⟨form, sid, matched, rfl, hacc, hwritten⟩))
    · exact Or.inl (Option.some.inj (hdb.symm.trans (finished_refused hstored)))
  | status query =>
    simp only [Org.finished, Option.some.injEq] at hdb
    cases hs : statusCommit w.now fault fault' w.db query with
    | none =>
      rw [hs] at hdb
      exact Or.inl hdb.symm
    | some out =>
      rw [hs] at hdb
      exact Or.inr (Or.inr (Or.inr ⟨query, out, rfl, hs, hdb.symm⟩))

/-- The table changes with the end of a transaction, a job or an upsert. -/
theorem step_db {e : Label} (hs : (org p P).step w e = some w') :
    w'.db = w.db ∨
    (∃ h fault fault' tx, e = .finish h fault fault' ∧ w.txs h = some tx ∧
      w.finished p fault fault' tx = some w'.db) ∨
    (∃ i delivered statusCode eventId job, e = .runJob i delivered statusCode eventId ∧
      w.db.jobs[i]? = some job ∧
      w'.db = afterSync job statusCode { w.db with jobs := w.db.jobs.eraseIdx i }) ∨
    ∃ record, e = .upsert record ∧ w'.db = upsertLead w.now record w.db := by
  cases e with
  | tick d =>
    cases hs
    exact Or.inl rfl
  | beginSend h ids =>
    obtain ⟨-, rfl⟩ := step_beginSend.mp hs
    exact Or.inl rfl
  | visitLead h reply =>
    obtain ⟨_, _, _, -, -, rfl⟩ := step_visitLead.mp hs
    exact Or.inl rfl
  | beginInbound h form =>
    obtain ⟨-, ⟨-, rfl⟩ | ⟨_, _, -, rfl⟩⟩ := step_beginInbound.mp hs
    · exact Or.inl rfl
    · exact Or.inl rfl
  | beginStatus h form =>
    obtain ⟨-, rfl⟩ := step_beginStatus.mp hs
    exact Or.inl rfl
  | finish h fault fault' =>
    obtain ⟨tx, db, hopen, hdb, rfl⟩ := step_finish.mp hs
    exact Or.inr (Or.inl ⟨h, fault, fault', tx, rfl, hopen, hdb⟩)
  | abort h =>
    obtain ⟨-, rfl⟩ := step_abort.mp hs
    exact Or.inl rfl
  | runJob i delivered statusCode eventId =>
    obtain ⟨job, hj, -, rfl⟩ := step_runJob.mp hs
    exact Or.inr (Or.inr (Or.inl ⟨i, delivered, statusCode, eventId, job, rfl, hj, rfl⟩))
  | upsert record =>
    cases hs
    exact Or.inr (Or.inr (Or.inr ⟨record, rfl, rfl⟩))
  | postSuppression identifier reason source occurredAt eventId =>
    cases hs
    exact Or.inl rfl
  | reconcile seen raw occurredAt eventId =>
    cases hs
    exact Or.inl rfl

theorem step_now {e : Label} (hs : (org p P).step w e = some w') : w.now ≤ w'.now := by
  cases e with
  | tick d =>
    cases hs
    exact Int.le_add_of_nonneg_right (Int.natCast_nonneg d)
  | beginSend h ids =>
    obtain ⟨-, rfl⟩ := step_beginSend.mp hs
    exact le_refl _
  | visitLead h reply =>
    obtain ⟨_, _, _, -, -, rfl⟩ := step_visitLead.mp hs
    exact le_refl _
  | beginInbound h form =>
    obtain ⟨-, ⟨-, rfl⟩ | ⟨_, _, -, rfl⟩⟩ := step_beginInbound.mp hs
    · exact le_refl _
    · exact le_refl _
  | beginStatus h form =>
    obtain ⟨-, rfl⟩ := step_beginStatus.mp hs
    exact le_refl _
  | finish h fault fault' =>
    obtain ⟨_, _, -, -, rfl⟩ := step_finish.mp hs
    exact le_refl _
  | abort h =>
    obtain ⟨-, rfl⟩ := step_abort.mp hs
    exact le_refl _
  | runJob i delivered statusCode eventId =>
    obtain ⟨_, -, -, rfl⟩ := step_runJob.mp hs
    exact le_refl _
  | _ =>
    cases hs
    exact le_refl _

/-- Only its own labels change what is open under a handle. -/
def Label.handle : Label → Option Nat
  | .beginSend h _ => some h
  | .visitLead h _ => some h
  | .beginInbound h _ => some h
  | .beginStatus h _ => some h
  | .finish h _ _ => some h
  | .abort h => some h
  | _ => none

theorem step_other {e : Label} (hl : e.handle ≠ some h) (hs : (org p P).step w e = some w') :
    w'.txs h = w.txs h := by
  have hne : ∀ i, e.handle = some i → h ≠ i := fun i hi he => hl (he ▸ hi)
  cases e with
  | tick d =>
    cases hs
    rfl
  | beginSend i ids =>
    obtain ⟨-, rfl⟩ := step_beginSend.mp hs
    exact Org.txs_openTx_of_ne (hne i rfl)
  | visitLead i reply =>
    obtain ⟨b, lead, rest, -, -, rfl⟩ := step_visitLead.mp hs
    exact Org.txs_openTx_of_ne (hne i rfl)
  | beginInbound i form =>
    obtain ⟨-, ⟨-, rfl⟩ | ⟨sid, matched, -, rfl⟩⟩ := step_beginInbound.mp hs
    · rfl
    · exact Org.txs_openTx_of_ne (hne i rfl)
  | beginStatus i form =>
    obtain ⟨-, rfl⟩ := step_beginStatus.mp hs
    exact Org.txs_openTx_of_ne (hne i rfl)
  | finish i fault fault' =>
    obtain ⟨tx, db, -, -, rfl⟩ := step_finish.mp hs
    exact Org.txs_close_of_ne (hne i rfl)
  | abort i =>
    obtain ⟨-, rfl⟩ := step_abort.mp hs
    exact Org.txs_close_of_ne (hne i rfl)
  | runJob i delivered statusCode eventId =>
    obtain ⟨job, -, -, rfl⟩ := step_runJob.mp hs
    rfl
  | upsert record =>
    cases hs
    rfl
  | postSuppression identifier reason source occurredAt eventId =>
    cases hs
    rfl
  | reconcile seen raw occurredAt eventId =>
    cases hs
    rfl

theorem run_other {es : List Label} (hes : ∀ e ∈ es, e.handle ≠ some h)
    (hr : (org p P).run w es = some w') : w'.txs h = w.txs h := by
  have hstep : ∀ u e v, u.txs h = w.txs h → e.handle ≠ some h → (org p P).step u e = some v →
      v.txs h = w.txs h := fun u e v hu he hs => (step_other he hs).trans hu
  exact (org p P).run_preserves_along hstep rfl
    ((org p P).along_of_forall fun _ e he => hes e he) hr

/-- A first delivery is open under its handle until a label of its own ends it. -/
theorem inbound_open {w₀ w₁ : Org} {es : List Label} {form : InboundForm} {sid : Text}
    {matched : Option Lead} (hfirst : inboundQuery w₀.db form = .unlogged sid matched)
    (hbegin : (org p P).step w₀ (.beginInbound h form) = some w₁)
    (hes : ∀ e ∈ es, e.handle ≠ some h) (hr : (org p P).run w₁ es = some w) :
    w.txs h = some (.inbound form sid matched) ∧ w₁.db = w₀.db := by
  obtain ⟨-, ⟨⟨_, hq⟩, -⟩ | ⟨_, _, hq, rfl⟩⟩ := step_beginInbound.mp hbegin
  · rw [hfirst] at hq
    cases hq
  · rw [hfirst] at hq
    cases hq
    exact ⟨(run_other hes hr).trans (Org.txs_openTx ..), rfl⟩

/-- How a transaction comes to be open: it stays, or has begun, or has visited a lead. -/
theorem step_opened {e : Label} {tx : Tx} (hs : (org p P).step w e = some w')
    (htx : w'.txs h = some tx) :
    (e.handle ≠ some h ∧ w.txs h = some tx) ∨
    (∃ ids, e = .beginSend h ids ∧ w.txs h = none ∧
      tx = .send (openBatch p w.now w.db ids)) ∨
    (∃ reply b lead rest, e = .visitLead h reply ∧ w.txs h = some (.send b) ∧
      b.leads = lead :: rest ∧ tx = .send (b.visit p w.now lead rest reply)) ∨
    (∃ form sid matched, e = .beginInbound h form ∧
      inboundQuery w.db form = .unlogged sid matched ∧ tx = .inbound form sid matched) ∨
    ∃ form, e = .beginStatus h form ∧ tx = .status (statusQuery w.db form) := by
  by_cases hl : e.handle = some h
  · cases e with
    | beginSend i ids =>
      cases hl
      obtain ⟨hfree, rfl⟩ := step_beginSend.mp hs
      rw [Org.txs_openTx, Option.some.injEq] at htx
      exact Or.inr (Or.inl ⟨ids, rfl, hfree, htx.symm⟩)
    | visitLead i reply =>
      cases hl
      obtain ⟨b, lead, rest, hopen, hleads, rfl⟩ := step_visitLead.mp hs
      rw [Org.txs_openTx, Option.some.injEq] at htx
      exact Or.inr (Or.inr (Or.inl ⟨reply, b, lead, rest, rfl, hopen, hleads, htx.symm⟩))
    | beginInbound i form =>
      cases hl
      obtain ⟨hfree, ⟨-, rfl⟩ | ⟨sid, matched, hq, rfl⟩⟩ := step_beginInbound.mp hs
      · rw [hfree] at htx
        cases htx
      · rw [Org.txs_openTx, Option.some.injEq] at htx
        exact Or.inr (Or.inr (Or.inr (Or.inl ⟨form, sid, matched, rfl, hq, htx.symm⟩)))
    | beginStatus i form =>
      cases hl
      obtain ⟨-, rfl⟩ := step_beginStatus.mp hs
      rw [Org.txs_openTx, Option.some.injEq] at htx
      exact Or.inr (Or.inr (Or.inr (Or.inr ⟨form, rfl, htx.symm⟩)))
    | finish i fault fault' =>
      cases hl
      obtain ⟨_, _, -, -, rfl⟩ := step_finish.mp hs
      rw [Org.txs_close] at htx
      cases htx
    | abort i =>
      cases hl
      obtain ⟨-, rfl⟩ := step_abort.mp hs
      rw [Org.txs_close] at htx
      cases htx
    | _ => cases hl
  · exact Or.inl ⟨hl, (step_other hl hs).symm.trans htx⟩

/-- How a batch comes to be open: it is opened, or visits a lead, or stays. -/
theorem step_batch {e : Label} {b : SendBatch} (hs : (org p P).step w e = some w')
    (hb : w'.txs h = some (.send b)) :
    (∃ ids, e = .beginSend h ids ∧ w.txs h = none ∧ b = openBatch p w.now w.db ids) ∨
    (∃ reply b₀ lead rest, e = .visitLead h reply ∧ w.txs h = some (.send b₀) ∧
      b₀.leads = lead :: rest ∧ b = b₀.visit p w.now lead rest reply) ∨
    (e.handle ≠ some h ∧ w.txs h = some (.send b)) := by
  rcases step_opened hs hb with hsame | ⟨ids, hl, hfree, heq⟩ |
    ⟨reply, b₀, lead, rest, hl, hb₀, hleads, heq⟩ | ⟨_, _, _, -, -, heq⟩ | ⟨_, -, heq⟩
  · exact Or.inr (Or.inr hsame)
  · cases heq
    exact Or.inl ⟨ids, hl, hfree, rfl⟩
  · cases heq
    exact Or.inr (Or.inl ⟨reply, b₀, lead, rest, hl, hb₀, hleads, rfl⟩)
  · cases heq
  · cases heq

/-- What comes of an open batch: it stays, visits a lead, or ends. -/
theorem step_of_open {e : Label} {b : SendBatch} (hs : (org p P).step w e = some w')
    (hb : w.txs h = some (.send b)) :
    (e.handle ≠ some h ∧ w'.txs h = some (.send b)) ∨
    (∃ reply lead rest, e = .visitLead h reply ∧ b.leads = lead :: rest ∧
      w' = w.openTx h (.send (b.visit p w.now lead rest reply))) ∨
    (∃ fault fault', e = .finish h fault fault' ∧ b.leads = [] ∧
      w' = w.close h (if fault then w.db else (b.commit w.now w.db).getD w.db)) ∨
    (e = .abort h ∧ w' = w.close h w.db) := by
  by_cases hl : e.handle = some h
  · cases e with
    | beginSend i ids =>
      cases hl
      rw [(step_beginSend.mp hs).1] at hb
      exact nomatch hb
    | visitLead i reply =>
      cases hl
      obtain ⟨b₀, lead, rest, hopen, hleads, rfl⟩ := step_visitLead.mp hs
      rw [hb] at hopen
      cases hopen
      exact Or.inr (Or.inl ⟨reply, lead, rest, rfl, hleads, rfl⟩)
    | beginInbound i form =>
      cases hl
      rw [(step_beginInbound.mp hs).1] at hb
      exact nomatch hb
    | beginStatus i form =>
      cases hl
      rw [(step_beginStatus.mp hs).1] at hb
      exact nomatch hb
    | finish i fault fault' =>
      cases hl
      obtain ⟨db, hdb, rfl⟩ := (step_finish_of_open hb).mp hs
      simp only [Org.finished] at hdb
      split at hdb
      · rename_i hdone
        cases hdb
        exact Or.inr (Or.inr (Or.inl ⟨fault, fault', rfl, hdone, rfl⟩))
      · cases hdb
    | abort i =>
      cases hl
      obtain ⟨-, rfl⟩ := step_abort.mp hs
      exact Or.inr (Or.inr (Or.inr ⟨rfl, rfl⟩))
    | _ => exact nomatch hl
  · exact Or.inl ⟨hl, (step_other hl hs).trans hb⟩

theorem Org.calls_eq_some {reply : ProviderReply} {l : Lead} {t : ReplyTemplate} :
    w.calls p (.visitLead h reply) = some (l, t) ↔
      ∃ b rest, w.txs h = some (.send b) ∧ b.leads = l :: rest ∧ b.gate p w.now l = .ok t := by
  simp only [Org.calls]
  split
  · rename_i b hb
    rw [Salesforce.calls_eq_some]
    constructor
    · intro h
      obtain ⟨rest, hl, hg⟩ := h
      exact ⟨b, rest, hb, hl, hg⟩
    · intro h
      obtain ⟨b', rest, hb', hl, hg⟩ := h
      rw [hb] at hb'
      cases hb'
      exact ⟨rest, hl, hg⟩
  · rename_i hne
    constructor
    · exact fun h => nomatch h
    · intro h
      obtain ⟨b, rest, hb, -, -⟩ := h
      exact absurd hb (hne b)

end Outreach.Salesforce
