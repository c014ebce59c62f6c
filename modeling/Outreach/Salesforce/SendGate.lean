import Outreach.Salesforce.Growth

/-!
# What closes the send gate

An opt-out closes it for the lead, in every batch begun later. An inbound
opt-out is written to one lead, and the gate asks leads and not numbers: the
number stays open as far as another lead that has it can be sent to.
-/

namespace Outreach.Salesforce

open Outreach.Library Outreach.Guardrails Outreach.Cleansing Outreach.Suppression

set_option autoImplicit false

section Gate

variable {ν : Type} {p : Platform} {P : PhoneNumbers ν} {v u w : Org} {es : List Label}

/-- A call of a batch that was begun in the run is about a row of one of its states. -/
theorem run_calls {h : Nat} {reply : ProviderReply} {l : Lead} {t : ReplyTemplate}
    (hr : (org p P).run v es = some u) (hbegin : ∃ ids, Label.beginSend h ids ∈ es)
    (hcall : u.calls p (.visitLead h reply) = some (l, t)) :
    ∃ (pre post : List Label) (w : Org) (b : SendBatch),
      es = pre ++ post ∧ (org p P).run v pre = some w ∧ (org p P).run w post = some u ∧
      b.OpenedIn p w ∧ l ∈ w.db.leads.rows ∧ b.gate p u.now l = .ok t := by
  obtain ⟨b, rest, hb, hl, hg⟩ := Org.calls_eq_some.mp hcall
  obtain ⟨pre, post, w, hes, hpre, hpost, hin⟩ := run_batches hr hb hbegin
  have hmem : l ∈ w.db.leads.rows := by
    apply hin.leads
    rw [hl]
    exact List.mem_cons_self
  exact ⟨pre, post, w, b, hes, hpre, hpost, hin, hmem, hg⟩

/-- A batch begun later queries the opt-out, and the gate reads it. -/
theorem not_called_of_optedOut {lead : Id} {h : Nat} {ids : List Id} {reply : ProviderReply}
    {l : Lead} {t : ReplyTemplate} (hout : v.db.OptedOut lead) (hr : (org p P).run v es = some u)
    (hids : Label.beginSend h ids ∈ es) (hcall : u.calls p (.visitLead h reply) = some (l, t)) :
    l.id ≠ lead := by
  intro hid
  obtain ⟨pre, post, w, b, -, hpre, -, -, hmem, hg⟩ := run_calls hr ⟨ids, hids⟩ hcall
  have ho : l.optedOut = true := (hout.grows (run_grows hpre).1).of_mem hmem hid
  have hno : l.optedOut = false := (gate_eq_ok.mp hg).1
  rw [ho] at hno
  exact nomatch hno

/-- An opt-out once committed stays, and closes the gate for every batch begun later. -/
theorem optedOut_never_called {lead : Id} (hout : v.db.OptedOut lead)
    (hr : (org p P).run v es = some u) :
    u.db.OptedOut lead ∧
      ∀ h ids reply l t, Label.beginSend h ids ∈ es →
        u.calls p (.visitLead h reply) = some (l, t) → l.id ≠ lead :=
  ⟨hout.grows (run_grows hr).1, fun _ _ _ _ _ hids hcall =>
    not_called_of_optedOut hout hr hids hcall⟩

/-! ## A number -/

/-- Some later batch may send to the lead as it is in the table. -/
structure Sendable (p : Platform) (w : Org) (l : Lead) : Prop where
  optedOut : l.optedOut = false
  ready : l.outreachStatus = some .ready
  phone : isBlank l.phone = false
  template : approvedFirstTouchTemplate w.db.templates ≠ none
  /-- an hour to come at which the recipient is awake and the limit is not used up -/
  later : ∃ d : Nat, quietHoursBlockReason p (w.now + d) l.quietHoursTimezone = none ∧
    sentSince w.db.messages.rows (w.now + d - hourMillis) < p.hourlyLimit

/-- No batch begun after `w` calls the provider for a lead with the number, as long
as no upsert gives a lead the number. -/
def NumberClosed (p : Platform) (P : PhoneNumbers ν) (w : Org) (n : Option Text) : Prop :=
  ∀ es u h ids reply l t, (∀ e ∈ es, e.gives n = false) → (org p P).run w es = some u →
    Label.beginSend h ids ∈ es → u.calls p (.visitLead h reply) = some (l, t) → l.phone ≠ n

theorem sentSince_eq (messages : List OutreachMessage) (since : Time) :
    sentSince messages since = (messages.map OutreachMessage.stamp).countP fun s =>
      decide (s.2.1 = .outbound) && decide (since ≤ s.2.2.1) := by
  rw [List.countP_map]
  rfl

/-- More messages and a longer time back count more. -/
theorem sentSince_le {a b : Database} (hg : a.Grows b) {since since' : Time}
    (hs : since ≤ since') : sentSince a.messages.rows since' ≤ sentSince b.messages.rows since := by
  rw [sentSince_eq, sentSince_eq]
  refine (List.countP_mono_left fun s _ h => ?_).trans (hg.messages.sublist.countP_le)
  simp only [Bool.and_eq_true, decide_eq_true_eq] at h ⊢
  exact ⟨h.1, hs.trans h.2⟩

/-- A batch that is begun when the recipient is awake calls for a lead that may be sent to. -/
theorem Sendable.called {l : Lead} {h : Nat} (hs : Sendable p w l) (hl : l ∈ w.db.leads.rows)
    (hfree : w.txs h = none) :
    ∃ es u ids t, (∀ n, ∀ e ∈ es, e.gives n = false) ∧ (org p P).run w es = some u ∧
      Label.beginSend h ids ∈ es ∧ u.calls p (.visitLead h (.raised [])) = some (l, t) := by
  obtain ⟨d, hawake, hlimit⟩ := hs.later
  obtain ⟨t, ht⟩ := Option.ne_none_iff_exists'.mp hs.template
  let b := openBatch p (w.now + d) w.db [l.id]
  have hall : ∀ x ∈ b.leads, x = l := by
    intro x hx
    obtain ⟨hrow, hid⟩ := mem_openBatch.mp hx
    exact w.db.leads.eq_of_id_eq hrow hl (List.mem_singleton.mp hid)
  have hmem : l ∈ b.leads := mem_openBatch.mpr ⟨hl, List.mem_singleton_self _⟩
  obtain ⟨x, rest, hrows⟩ := List.exists_cons_of_ne_nil (List.ne_nil_of_mem hmem)
  have hx : x = l := hall x (hrows ▸ List.mem_cons_self)
  rw [hx] at hrows
  have hgate : b.gate p (w.now + d) l = .ok t := by
    have hcount : ((sentSince w.db.messages.rows (w.now + d - hourMillis) : Nat) : Int) +
        ((0 : Nat) : Int) < p.hourlyLimit := by omega
    have hmax : 0 < maxCalloutsPerRun := by decide
    exact gate_eq_ok.mpr ⟨hs.optedOut, hs.ready, hawake, hcount, ht, hs.phone, hmax⟩
  let u : Org := { w with now := w.now + d }
  refine ⟨[.tick d, .beginSend h [l.id]], u.openTx h (.send b), [l.id], t, ?_, ?_, ?_, ?_⟩
  · intro n e he
    simp only [List.mem_cons, List.not_mem_nil, or_false] at he
    obtain rfl | rfl := he <;> rfl
  · refine (org p P).run_cons_some.mpr ⟨u, rfl, ?_⟩
    exact (org p P).run_singleton.mpr (step_beginSend.mpr ⟨hfree, rfl⟩)
  · exact List.mem_cons_of_mem _ (List.mem_singleton_self _)
  · exact Org.calls_eq_some.mpr ⟨b, rest, Org.txs_openTx .., hrows, hgate⟩

/-- What a later batch calls for could already be sent to. -/
theorem sendable_of_call {n : Text} {h : Nat} {ids : List Id} {reply : ProviderReply} {l : Lead}
    {t : ReplyTemplate} (hes : ∀ e ∈ es, e.gives (some n) = false)
    (hr : (org p P).run w es = some u) (hids : Label.beginSend h ids ∈ es)
    (hcall : u.calls p (.visitLead h reply) = some (l, t)) (hn : l.phone = some n) :
    ∃ x ∈ w.db.leads.rows, x.phone = some n ∧ Sendable p w x := by
  obtain ⟨pre, post, s, b, rfl, hpre, hpost, hin, hmem, hg⟩ := run_calls hr ⟨ids, hids⟩ hcall
  obtain ⟨hout, hready, hawake, hlimit, htemplate, hblank, -⟩ := gate_eq_ok.mp hg
  obtain ⟨hgrows, hnow⟩ := run_grows hpre
  have hnow' := (run_grows hpost).2
  obtain ⟨d, htime⟩ := Int.exists_add_of_le (hnow.trans hnow')
  obtain ⟨x, hx, hxid, hphone⟩ :=
    run_keepsNumber (fun e he => hes e (List.mem_append_left post he)) hpre l hmem hn
  -- the row that was ready is the row that had the number
  obtain ⟨y, hy, hyid, hyready, htz⟩ := hgrows.ready l hmem hready
  obtain rfl : y = x := w.db.leads.eq_of_id_eq hy hx (hyid.trans hxid.symm)
  refine ⟨y, hx, hphone, ?_, hyready, ?_, ?_, d, ?_, ?_⟩
  · cases ho : y.optedOut with
    | false => rfl
    | true =>
      have hl := (Database.OptedOut.grows ⟨y, hx, rfl, ho⟩ hgrows).of_mem hmem hxid.symm
      rw [hout] at hl
      exact nomatch hl
  · rw [hphone, ← hn]
    exact hblank
  · rw [← hgrows.templates, ← hin.template, htemplate]
    exact Option.some_ne_none t
  · rw [← htime, htz]
    exact hawake
  · rw [← htime]
    have hle : sentSince w.db.messages.rows (u.now - hourMillis) ≤ b.sentThisHour := by
      rw [hin.sentThisHour]
      exact sentSince_le hgrows (Int.sub_le_sub_right hnow' hourMillis)
    rw [hin.hourlyLimit] at hlimit
    omega

/-- A number is closed when no lead that has it may be sent to. -/
theorem numberClosed_iff_of_free {n : Option Text} {h : Nat} (hfree : w.txs h = none) :
    NumberClosed p P w n ↔ ∀ l ∈ w.db.leads.rows, l.phone = n → ¬ Sendable p w l := by
  constructor
  · intro hclosed l hl hn hs
    obtain ⟨es, u, ids, t, hes, hr, hids, hcall⟩ := hs.called (P := P) hl hfree
    exact hclosed es u h ids _ l t (hes n) hr hids hcall hn
  · intro hnone es u i ids reply l t hes hr hids hcall hn
    cases n with
    | none =>
      -- a blank phone is never called
      obtain ⟨b, rest, -, -, hg⟩ := Org.calls_eq_some.mp hcall
      have hblank := (gate_eq_ok.mp hg).2.2.2.2.2.1
      rw [hn] at hblank
      exact nomatch hblank
    | some n =>
      obtain ⟨x, hx, hphone, hs⟩ := sendable_of_call hes hr hids hcall hn
      exact hnone x hx hphone hs

/-! ## An inbound opt-out -/

theorem Sendable.congr {l : Lead} (hs : Sendable p w l) (hnow : u.now = w.now)
    (ht : u.db.templates = w.db.templates)
    (hsent : ∀ since, sentSince u.db.messages.rows since = sentSince w.db.messages.rows since) :
    Sendable p u l where
  optedOut := hs.optedOut
  ready := hs.ready
  phone := hs.phone
  template := ht ▸ hs.template
  later := by
    obtain ⟨d, hawake, hlimit⟩ := hs.later
    refine ⟨d, ?_, ?_⟩
    · rw [hnow]
      exact hawake
    · rw [hsent, hnow]
      exact hlimit

section Inbound

variable {form : InboundForm} {sid : Text} {matched : Option Lead}

/-- What a stored delivery leaves of the table. -/
theorem stored_tables {U : UnicodeData} {now : Time} {db db' : Database}
    (hacc : db.accepts [inboundDraft now form sid matched])
    (h : (inboundCommit U now form sid matched false db).1 = db') :
    db'.leads.rows = db.leads.rows.map (afterReply U now form matched) ∧
      db'.templates = db.templates ∧
      ∀ since, sentSince db'.messages.rows since = sentSince db.messages.rows since := by
  rw [inboundCommit_stored _ _ _ _ _ _ hacc] at h
  obtain ⟨hrows, ht⟩ := persistVerdict_leads U now form matched db.messages.next
    (db.addMessage now (inboundDraft now form sid matched))
  obtain ⟨f, hf, hmessages⟩ := persistVerdict_messages U now form matched db.messages.next
    (db.addMessage now (inboundDraft now form sid matched))
  rw [← h]
  refine ⟨hrows, ht, fun since => ?_⟩
  rw [hmessages, sentSince_eq, Database.modifyMessage_stamps _ _ f hf,
    sentSince_eq]
  -- an inbound row does not count
  show (List.map _ (db.messages.rows ++ [_])).countP _ = _
  rw [List.map_append, List.countP_append]
  exact Nat.add_zero _

/-- The delivery opts out the matched lead, when it is stored, and no other. -/
theorem sendable_after_inbound {h : Nat} {fault fault' : Bool}
    (hopen : w.txs h = some (.inbound form sid matched)) (hstop : suppresses p.unicode form.body)
    (hend : (org p P).step w (.finish h fault fault') = some u) (n : Option Text) :
    (∃ l ∈ u.db.leads.rows, l.phone = n ∧ Sendable p u l) ↔
      ∃ l ∈ w.db.leads.rows, l.phone = n ∧ Sendable p w l ∧
        ¬ (fault = false ∧ w.db.accepts [inboundDraft w.now form sid matched] ∧
          matched.map Lead.id = some l.id) := by
  obtain ⟨db, hdb, rfl⟩ := (step_finish_of_open hopen).mp hend
  simp only [Org.finished, Option.some.injEq] at hdb
  by_cases hstored : fault = false ∧ w.db.accepts [inboundDraft w.now form sid matched]
  · obtain ⟨rfl, hacc⟩ := hstored
    obtain ⟨hrows, ht, hsent⟩ := stored_tables hacc hdb
    have hafter : ∀ l, matched.map Lead.id ≠ some l.id →
        afterReply p.unicode w.now form matched l = l := fun l hne => if_neg hne
    constructor
    · intro h
      obtain ⟨l, hl, hn, hs⟩ := h
      obtain ⟨x, hx, rfl⟩ := List.mem_map.mp (hrows ▸ hl : l ∈ List.map _ _)
      have hne : matched.map Lead.id ≠ some x.id := by
        intro he
        have hout := hs.optedOut
        rw [afterReply, if_pos he, applyReply, decide_eq_true hstop] at hout
        cases hout
      rw [hafter x hne] at hn hs
      exact ⟨x, hx, hn, hs.congr rfl ht.symm fun since => (hsent since).symm, fun h => hne h.2.2⟩
    · intro h
      obtain ⟨l, hl, hn, hs, hne⟩ := h
      refine ⟨l, ?_, hn, hs.congr rfl ht hsent⟩
      show l ∈ db.leads.rows
      rw [hrows]
      exact List.mem_map.mpr ⟨l, hl, hafter l fun he => hne ⟨rfl, hacc, he⟩⟩
  · rw [inboundCommit_refused _ _ _ _ _ _ _ hstored] at hdb
    subst hdb
    constructor
    · intro h
      obtain ⟨l, hl, hn, hs⟩ := h
      exact ⟨l, hl, hn, hs.congr rfl rfl fun _ => rfl, fun h => hstored ⟨h.1, h.2.1⟩⟩
    · intro h
      obtain ⟨l, hl, hn, hs, -⟩ := h
      exact ⟨l, hl, hn, hs.congr rfl rfl fun _ => rfl⟩

/-- A first delivery that is an opt-out closes the gate for its number exactly when
no lead with the number may be sent to, but for the matched one when the delivery is
stored. -/
theorem optOut_closes_iff {w₀ w₁ w' : Org} {h : Nat} {fault fault' : Bool}
    (hfirst : inboundQuery w₀.db form = .unlogged sid matched)
    (hstop : suppresses p.unicode form.body)
    (hbegin : (org p P).step w₀ (.beginInbound h form) = some w₁)
    (hes : ∀ e ∈ es, e.handle ≠ some h) (hr : (org p P).run w₁ es = some w)
    (hend : (org p P).step w (.finish h fault fault') = some w') :
    NumberClosed p P w' (normalizePhone form.fromNumber) ↔
      ∀ l ∈ w.db.leads.rows, l.phone = normalizePhone form.fromNumber → Sendable p w l →
        fault = false ∧ w.db.accepts [inboundDraft w.now form sid matched] ∧
          matched.map Lead.id = some l.id := by
  have hopen := (inbound_open hfirst hbegin hes hr).1
  have hfree : w'.txs h = none := by
    obtain ⟨_, _, -, -, rfl⟩ := step_finish.mp hend
    exact Org.txs_close ..
  have hiff := sendable_after_inbound hopen hstop hend (normalizePhone form.fromNumber)
  rw [numberClosed_iff_of_free hfree]
  constructor
  · intro hnone l hl hn hs
    by_contra hne
    obtain ⟨x, hx, hxn, hxs⟩ := hiff.mpr ⟨l, hl, hn, hs, hne⟩
    exact hnone x hx hxn hxs
  · intro honly x hx hxn hxs
    obtain ⟨l, hl, hn, hs, hne⟩ := hiff.mp ⟨x, hx, hxn, hxs⟩
    exact hne (honly l hl hn hs)

end Inbound

end Gate

/-- A signed STOP from the number that the twins share. -/
def stopForm : InboundForm :=
  ⟨some "SM9".toList, some "(650) 253-0000".toList, some "STOP".toList⟩

theorem stopForm_suppresses : suppresses gmtPlatform.unicode stopForm.body := by decide +kernel

theorem stopForm_first :
    inboundQuery twins.db stopForm = .unlogged "SM9".toList (some (readyLead 1 1)) := by
  decide +kernel

/-- The delivery opens, and its insert is accepted. -/
theorem stopForm_opened :
    (org gmtPlatform .e164).step twins (.beginInbound 0 stopForm) =
      some (twins.openTx 0 (.inbound stopForm "SM9".toList (some (readyLead 1 1)))) :=
  step_beginInbound.mpr ⟨rfl, Or.inr ⟨_, _, stopForm_first, rfl⟩⟩

theorem stopForm_accepted :
    twins.db.accepts [inboundDraft noon stopForm "SM9".toList (some (readyLead 1 1))] := by
  decide +kernel

/-- The newer of the twins is opted out and is not called. -/
theorem optedOut_never_called_twins :
    ∃ v u, (org gmtPlatform .e164).run twins [.beginInbound 0 stopForm, .finish 0 false false] =
        some v ∧
      (org gmtPlatform .e164).run v [.beginSend 0 [0, 1], .visitLead 0 (.raised [])] = some u ∧
      u.db.OptedOut 1 ∧ ∀ h ids reply l t,
        Label.beginSend h ids ∈ [Label.beginSend 0 [0, 1], Label.visitLead 0 (.raised [])] →
          u.calls gmtPlatform (.visitLead h reply) = some (l, t) → l.id ≠ 1 := by
  have hruns : ((org gmtPlatform .e164).run twins ([.beginInbound 0 stopForm,
      .finish 0 false false] ++ [.beginSend 0 [0, 1], .visitLead 0 (.raised [])])).isSome = true := by
    decide +kernel
  obtain ⟨u, hu⟩ := Option.isSome_iff_exists.mp hruns
  obtain ⟨v, hv, hvu⟩ := (org gmtPlatform .e164).run_append_some.mp hu
  have hrow : (((org gmtPlatform .e164).run twins [.beginInbound 0 stopForm,
      .finish 0 false false]).map fun v =>
        v.db.leads.rows.any fun l => decide (l.id = 1) && l.optedOut) = some true := by
    decide +kernel
  rw [hv, Option.map_some, Option.some.injEq, List.any_eq_true] at hrow
  obtain ⟨l, hl, hout⟩ := hrow
  rw [Bool.and_eq_true, decide_eq_true_eq] at hout
  exact ⟨v, u, hv, hvu, optedOut_never_called ⟨l, hl, hout.1, hout.2⟩ hvu⟩

theorem optOut_closes_iff_twins :
    ∃ w₁ w', (org gmtPlatform .e164).step twins (.beginInbound 0 stopForm) = some w₁ ∧
      (org gmtPlatform .e164).step w₁ (.finish 0 false false) = some w' ∧
      (NumberClosed gmtPlatform .e164 w' (normalizePhone stopForm.fromNumber) ↔
        ∀ l ∈ w₁.db.leads.rows, l.phone = normalizePhone stopForm.fromNumber →
          Sendable gmtPlatform w₁ l →
            false = false ∧
              w₁.db.accepts [inboundDraft w₁.now stopForm "SM9".toList (some (readyLead 1 1))] ∧
              (some (readyLead 1 1)).map Lead.id = some l.id) := by
  have hruns : ((org gmtPlatform .e164).run twins
      [.beginInbound 0 stopForm, .finish 0 false false]).isSome = true := by decide +kernel
  obtain ⟨w', hw'⟩ := Option.isSome_iff_exists.mp hruns
  obtain ⟨w₁, hbegin, hrest⟩ := (org gmtPlatform .e164).run_cons_some.mp hw'
  have hend := (org gmtPlatform .e164).run_singleton.mp hrest
  have hrun : (org gmtPlatform .e164).run w₁ [] = some w₁ := rfl
  have hnone : ∀ e ∈ ([] : List Label), e.handle ≠ some 0 := List.forall_mem_nil _
  exact ⟨w₁, w', hbegin, hend,
    optOut_closes_iff stopForm_first stopForm_suppresses hbegin hnone hrun hend⟩

/-- The older of the twins is still called after the STOP. -/
theorem twins_not_closed :
    ∃ w', inboundQuery twins.db stopForm = .unlogged "SM9".toList (some (readyLead 1 1)) ∧
      suppresses gmtPlatform.unicode stopForm.body ∧
      (org gmtPlatform .e164).run twins [.beginInbound 0 stopForm, .finish 0 false false] =
        some w' ∧
      ¬ NumberClosed gmtPlatform .e164 w' (normalizePhone stopForm.fromNumber) := by
  have hcall : (((org gmtPlatform .e164).run twins ([.beginInbound 0 stopForm,
      .finish 0 false false] ++ [.beginSend 0 [0, 1]])).bind fun u =>
        u.calls gmtPlatform (.visitLead 0 (.raised []))).map (fun c => c.1.phone) =
      some (normalizePhone stopForm.fromNumber) := by
    decide +kernel
  obtain ⟨⟨l, t⟩, hsome, hphone⟩ := Option.map_eq_some_iff.mp hcall
  obtain ⟨u, hu, hcalls⟩ := Option.bind_eq_some_iff.mp hsome
  obtain ⟨w', hw', hrest⟩ := (org gmtPlatform .e164).run_append_some.mp hu
  refine ⟨w', stopForm_first, stopForm_suppresses, hw', fun hclosed => ?_⟩
  refine hclosed [.beginSend 0 [0, 1]] u 0 [0, 1] _ l t ?_ hrest ?_ hcalls hphone
  · intro e he
    rw [List.mem_singleton.mp he]
    rfl
  · exact List.mem_singleton_self _

end Outreach.Salesforce
