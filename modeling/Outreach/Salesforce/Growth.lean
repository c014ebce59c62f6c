import Outreach.Salesforce.Steps

/-!
# What only grows in the org

Over every step: no row is lost, no opt-out is taken back, no lead becomes
ready, no message is lost or re-dated, and time does not run back. A batch works
on the rows of its own query; what held of every table since then holds of them.
-/

namespace Outreach.Salesforce

open Outreach.Library Outreach.Cleansing Outreach.Suppression

set_option autoImplicit false

/-- What a message keeps: its id, direction, creation date, provider id and lead. -/
def OutreachMessage.stamp (m : OutreachMessage) :
    Id × Direction × Time × Option Text × Option Id :=
  (m.id, m.direction, m.createdDate, m.providerMessageId, m.lead)

/-- A change of a draft that leaves the stamp of its message. -/
def KeepsStamp (f : MessageDraft → MessageDraft) : Prop :=
  ∀ d, (f d).direction = d.direction ∧ (f d).providerMessageId = d.providerMessageId ∧
    (f d).lead = d.lead

/-- From `a` to `b`: no row is lost, no opt-out is taken back, no lead becomes
ready, no message is lost or re-dated. -/
structure Database.Grows (a b : Database) : Prop where
  rows : ∀ x ∈ a.leads.rows, ∃ y ∈ b.leads.rows, y.id = x.id ∧ (x.optedOut = true → y.optedOut = true)
  ready : ∀ y ∈ b.leads.rows, y.outreachStatus = some .ready →
    ∃ x ∈ a.leads.rows, x.id = y.id ∧ x.outreachStatus = some .ready ∧
      x.quietHoursTimezone = y.quietHoursTimezone
  messages : a.messages.rows.map OutreachMessage.stamp <+: b.messages.rows.map OutreachMessage.stamp
  templates : b.templates = a.templates

/-- No phone number changes hands from `a` to `b`. -/
def Database.KeepsPhones (a b : Database) : Prop :=
  ∀ y ∈ b.leads.rows, ∃ x ∈ a.leads.rows, x.id = y.id ∧ x.phone = y.phone

/-- No lead comes to have the number from `a` to `b`. -/
def Database.KeepsNumber (n : Text) (a b : Database) : Prop :=
  ∀ y ∈ b.leads.rows, y.phone = some n → ∃ x ∈ a.leads.rows, x.id = y.id ∧ x.phone = some n

/-- The lead is opted out in the table. -/
def Database.OptedOut (db : Database) (lead : Id) : Prop :=
  ∃ l ∈ db.leads.rows, l.id = lead ∧ l.optedOut = true

namespace Database

theorem Grows.refl (a : Database) : a.Grows a :=
  ⟨fun x hx => ⟨x, hx, rfl, id⟩, fun y hy h => ⟨y, hy, rfl, h, rfl⟩, List.prefix_refl _, rfl⟩

theorem Grows.trans {a b c : Database} (hab : a.Grows b) (hbc : b.Grows c) : a.Grows c where
  rows x hx := by
    obtain ⟨y, hy, hyx, ho⟩ := hab.rows x hx
    obtain ⟨z, hz, hzy, ho'⟩ := hbc.rows y hy
    exact ⟨z, hz, hzy.trans hyx, fun h => ho' (ho h)⟩
  ready z hz h := by
    obtain ⟨y, hy, hyz, hr, htz⟩ := hbc.ready z hz h
    obtain ⟨x, hx, hxy, hr', htz'⟩ := hab.ready y hy hr
    exact ⟨x, hx, hxy.trans hyz, hr', htz'.trans htz⟩
  messages := hab.messages.trans hbc.messages
  templates := hbc.templates.trans hab.templates

theorem KeepsPhones.refl (a : Database) : a.KeepsPhones a := fun y hy => ⟨y, hy, rfl, rfl⟩

theorem KeepsPhones.trans {a b c : Database} (hab : a.KeepsPhones b) (hbc : b.KeepsPhones c) :
    a.KeepsPhones c := by
  intro z hz
  obtain ⟨y, hy, hyz, hp⟩ := hbc z hz
  obtain ⟨x, hx, hxy, hp'⟩ := hab y hy
  exact ⟨x, hx, hxy.trans hyz, hp'.trans hp⟩

theorem KeepsPhones.number {a b : Database} (h : a.KeepsPhones b) (n : Text) :
    a.KeepsNumber n b := by
  intro y hy hn
  obtain ⟨x, hx, hxy, hp⟩ := h y hy
  exact ⟨x, hx, hxy, hp.trans hn⟩

theorem KeepsNumber.trans {n : Text} {a b c : Database} (hab : a.KeepsNumber n b)
    (hbc : b.KeepsNumber n c) : a.KeepsNumber n c := by
  intro z hz hn
  obtain ⟨y, hy, hyz, hn'⟩ := hbc z hz hn
  obtain ⟨x, hx, hxy, hn''⟩ := hab y hy hn'
  exact ⟨x, hx, hxy.trans hyz, hn''⟩

theorem OptedOut.grows {a b : Database} {lead : Id} (h : a.OptedOut lead) (hg : a.Grows b) :
    b.OptedOut lead := by
  obtain ⟨x, hx, hid, ho⟩ := h
  obtain ⟨y, hy, hyx, hy'⟩ := hg.rows x hx
  exact ⟨y, hy, hyx.trans hid, hy' ho⟩

theorem OptedOut.of_mem {db : Database} {lead : Id} {x : Lead} (h : db.OptedOut lead)
    (hx : x ∈ db.leads.rows) (hid : x.id = lead) : x.optedOut = true := by
  obtain ⟨y, hy, hyid, ho⟩ := h
  rw [db.leads.eq_of_id_eq hx hy (hid.trans hyid.symm)]
  exact ho

theorem Grows.stamp {a b : Database} (h : a.Grows b) {m : OutreachMessage}
    (hm : m ∈ a.messages.rows) : ∃ m' ∈ b.messages.rows, m'.stamp = m.stamp :=
  List.mem_map.mp (h.messages.subset (List.mem_map_of_mem hm))

/-- A message that is logged stays. -/
theorem Grows.logged {a b : Database} (h : a.Grows b) {sid : Text} (hl : a.logged sid) :
    b.logged sid := by
  obtain ⟨m, hm, hsid⟩ := mem_providerIds.mp hl
  obtain ⟨m', hm', heq⟩ := h.stamp hm
  have hid : m'.providerMessageId = m.providerMessageId := congrArg (fun s => s.2.2.2.1) heq
  exact mem_providerIds.mpr ⟨m', hm', hid.trans hsid⟩

/-- A write of a lead that takes no opt-out back and makes no lead ready. -/
structure Cautious (f : Lead → Lead) : Prop where
  optedOut : ∀ l, l.optedOut = true → (f l).optedOut = true
  ready : ∀ l, (f l).outreachStatus = some .ready → l.outreachStatus = some .ready
  timezone : ∀ l, (f l).quietHoursTimezone = l.quietHoursTimezone

theorem modifyLead_grows {db : Database} {i : Id} {f : Lead → Lead} {hf : ∀ l, (f l).id = l.id}
    (hc : Cautious f) : db.Grows (db.modifyLead i f hf) where
  rows x hx := by
    refine ⟨if x.id = i then f x else x, List.mem_map_of_mem hx, ?_, fun h => ?_⟩
    · split
      · exact hf x
      · rfl
    · split
      · exact hc.optedOut x h
      · exact h
  ready y hy h := by
    obtain ⟨x, hx, rfl⟩ := List.mem_map.mp hy
    refine ⟨x, hx, ?_, ?_, ?_⟩ <;> split_ifs at h ⊢
    · exact (hf x).symm
    · rfl
    · exact hc.ready x h
    · exact h
    · exact (hc.timezone x).symm
    · rfl
  messages := List.prefix_refl _
  templates := rfl

theorem modifyLead_keepsPhones {db : Database} {i : Id} {f : Lead → Lead}
    {hf : ∀ l, (f l).id = l.id} (hp : ∀ l, (f l).phone = l.phone) :
    db.KeepsPhones (db.modifyLead i f hf) := by
  intro y hy
  obtain ⟨x, hx, rfl⟩ := List.mem_map.mp hy
  refine ⟨x, hx, ?_, ?_⟩ <;> split_ifs
  · exact (hf x).symm
  · rfl
  · exact (hp x).symm
  · rfl

/-- Leads and templates stay, messages are added or changed in place. -/
theorem grows_of_leads {a b : Database} (hl : b.leads = a.leads) (ht : b.templates = a.templates)
    (hm : a.messages.rows.map OutreachMessage.stamp <+: b.messages.rows.map OutreachMessage.stamp) :
    a.Grows b where
  rows x hx := ⟨x, hl ▸ hx, rfl, id⟩
  ready y hy h := ⟨y, hl ▸ hy, rfl, h, rfl⟩
  messages := hm
  templates := ht

theorem keepsPhones_of_leads {a b : Database} (hl : b.leads = a.leads) : a.KeepsPhones b :=
  fun y hy => ⟨y, hl ▸ hy, rfl, rfl⟩

theorem modifyMessage_stamps (db : Database) (i : Id) (f : MessageDraft → MessageDraft)
    (hf : KeepsStamp f) :
    (db.modifyMessage i f).messages.rows.map OutreachMessage.stamp =
      db.messages.rows.map OutreachMessage.stamp := by
  show (db.messages.rows.map _).map _ = _
  rw [List.map_map]
  refine List.map_congr_left fun m _ => ?_
  rw [Function.comp_apply]
  split
  · obtain ⟨hd, hp, hl⟩ := hf m.toMessageDraft
    simp only [OutreachMessage.stamp, hd, hp, hl]
  · rfl

theorem modifyMessage_grows (db : Database) (i : Id) (f : MessageDraft → MessageDraft)
    (hf : KeepsStamp f) :
    db.Grows (db.modifyMessage i f) :=
  grows_of_leads rfl rfl (modifyMessage_stamps db i f hf ▸ List.prefix_refl _)

theorem insert_spec {db db' : Database} {now : Time} {ds : List MessageDraft}
    (h : db.insert now ds = some db') :
    db.accepts ds ∧ db'.leads = db.leads ∧ db'.templates = db.templates ∧ db'.jobs = db.jobs ∧
      ∃ rows, db'.messages.rows = db.messages.rows ++ rows ∧
        List.Forall₂ (fun d m => m.toMessageDraft = d.saved ∧ m.createdDate = now) ds rows := by
  unfold Database.insert at h
  split at h
  · rename_i hacc
    obtain ⟨rows, hrows, hall, hl, ht, hj⟩ := addMessages_rows now ds db
    rw [Option.some.injEq] at h
    rw [h] at hrows hl ht hj
    exact ⟨hacc, hl, ht, hj, rows, hrows, hall⟩
  · exact nomatch h

theorem insert_grows {db db' : Database} {now : Time} {ds : List MessageDraft}
    (h : db.insert now ds = some db') : db.Grows db' := by
  obtain ⟨-, hl, ht, -, rows, hrows, -⟩ := insert_spec h
  apply grows_of_leads hl ht
  rw [hrows, List.map_append]
  exact List.prefix_append _ _

end Database

/-! ## Each transaction -/

theorem markContacted_cautious (contactedAt : Time) :
    Database.Cautious (markContacted contactedAt) where
  optedOut _ h := h
  ready _ h := nomatch h
  timezone _ := rfl

/-- The late update touches the status of the contacted leads only. -/
theorem contact_grows (contacted : List (Id × Time)) (db : Database) :
    db.Grows (contacted.foldl
      (fun db c => db.modifyLead c.1 (markContacted c.2) fun _ => rfl) db) ∧
    db.KeepsPhones (contacted.foldl
      (fun db c => db.modifyLead c.1 (markContacted c.2) fun _ => rfl) db) := by
  induction contacted generalizing db with
  | nil => exact ⟨.refl db, .refl db⟩
  | cons c contacted ih =>
    obtain ⟨hg, hk⟩ := ih (db.modifyLead c.1 (markContacted c.2) fun _ => rfl)
    have hc := markContacted_cautious c.2
    have hp : ∀ l, (markContacted c.2 l).phone = l.phone := fun _ => rfl
    exact ⟨(Database.modifyLead_grows hc).trans hg, (Database.modifyLead_keepsPhones hp).trans hk⟩

theorem contact_frame (contacted : List (Id × Time)) (db : Database) :
    (contacted.foldl (fun db c => db.modifyLead c.1 (markContacted c.2) fun _ => rfl) db).messages =
        db.messages ∧
      (contacted.foldl (fun db c => db.modifyLead c.1 (markContacted c.2) fun _ => rfl) db).jobs =
        db.jobs := by
  induction contacted generalizing db with
  | nil => exact ⟨rfl, rfl⟩
  | cons c contacted ih => exact ih _

theorem commit_grows {b : SendBatch} {now : Time} {db db' : Database}
    (h : b.commit now db = some db') : db.Grows db' ∧ db.KeepsPhones db' := by
  obtain ⟨db₁, hins, rfl⟩ := Option.map_eq_some_iff.mp h
  obtain ⟨hg, hk⟩ := contact_grows b.contactedLeads db₁
  have hl := (Database.insert_spec hins).2.1
  exact ⟨(Database.insert_grows hins).trans hg, (Database.keepsPhones_of_leads hl).trans hk⟩

theorem applyReply_cautious (now : Time) (suppress : Bool) :
    Database.Cautious (applyReply now suppress) where
  optedOut l h := by
    cases suppress with
    | true => rfl
    | false => exact h
  ready l h := by
    cases suppress with
    | true => exact nomatch h
    | false => exact nomatch h
  timezone l := by cases suppress <;> rfl

theorem persistVerdict_grows (U : UnicodeData) (now : Time) (form : InboundForm)
    (matched : Option Lead) (messageId : Id) (db : Database) :
    db.Grows (persistVerdict U now form matched messageId db) ∧
      db.KeepsPhones (persistVerdict U now form matched messageId db) := by
  unfold persistVerdict
  extract_lets prior v suppress normalizedFrom db₁ db₂
  have h₁ : db.Grows db₁ := Database.modifyMessage_grows _ _ _ fun _ => ⟨rfl, rfl, rfl⟩
  have hk₁ : db.KeepsPhones db₁ := Database.keepsPhones_of_leads rfl
  have h₂ : db₁.Grows db₂ ∧ db₁.KeepsPhones db₂ := by
    cases matched with
    | none => exact ⟨.refl _, .refl _⟩
    | some l =>
      refine ⟨Database.modifyLead_grows (applyReply_cautious now suppress),
        Database.modifyLead_keepsPhones fun x => ?_⟩
      cases suppress <;> rfl
  have hg := h₁.trans h₂.1
  have hk := hk₁.trans h₂.2
  cases suppress with
  | false => exact ⟨hg, hk⟩
  | true =>
    cases normalizedFrom with
    | none => exact ⟨hg, hk⟩
    | some n =>
      exact ⟨hg.trans (Database.grows_of_leads rfl rfl (List.prefix_refl _)),
        hk.trans (Database.keepsPhones_of_leads rfl)⟩

/-- An opt-out opts out the matched lead. -/
theorem persistVerdict_optsOut {U : UnicodeData} {now : Time} {form : InboundForm} {l : Lead}
    {messageId : Id} {db : Database} (hstop : suppresses U form.body)
    (hl : ∃ x ∈ db.leads.rows, x.id = l.id) :
    (persistVerdict U now form (some l) messageId db).OptedOut l.id := by
  obtain ⟨x, hx, hid⟩ := hl
  have hhit : (some l).map Lead.id = some x.id := by
    rw [Option.map_some, hid]
  refine ⟨afterReply U now form (some l) x, ?_, ?_, ?_⟩
  · rw [(persistVerdict_leads U now form (some l) messageId db).1]
    exact List.mem_map_of_mem hx
  · rw [afterReply, if_pos hhit, applyReply_id, hid]
  · rw [afterReply, if_pos hhit, applyReply, decide_eq_true hstop]
    rfl

theorem stored_grows (U : UnicodeData) (now : Time) (form : InboundForm) (sid : Text)
    (matched : Option Lead) (db : Database) :
    db.Grows (persistVerdict U now form matched db.messages.next
        (db.addMessage now (inboundDraft now form sid matched))) ∧
      db.KeepsPhones (persistVerdict U now form matched db.messages.next
        (db.addMessage now (inboundDraft now form sid matched))) := by
  obtain ⟨hg, hk⟩ := persistVerdict_grows U now form matched db.messages.next
    (db.addMessage now (inboundDraft now form sid matched))
  have hadded : db.Grows (db.addMessage now (inboundDraft now form sid matched)) := by
    refine Database.grows_of_leads rfl rfl ?_
    show _ <+: List.map _ (db.messages.rows ++ [_])
    rw [List.map_append]
    exact List.prefix_append _ _
  exact ⟨hadded.trans hg, (Database.keepsPhones_of_leads rfl).trans hk⟩

theorem setDeliveryStatus_grows {db db' : Database} {i : Id} {status : Text} {fault : Bool}
    (h : setDeliveryStatus db i status fault = some db') :
    db.Grows db' ∧ db.KeepsPhones db' := by
  unfold setDeliveryStatus at h
  split at h
  · exact nomatch h
  · rw [Option.some.injEq] at h
    rw [← h]
    exact ⟨Database.modifyMessage_grows _ _ _ fun _ => ⟨rfl, rfl, rfl⟩,
      Database.keepsPhones_of_leads rfl⟩

theorem statusCommit_grows {now : Time} {fault fault' : Bool} {db : Database} {q : StatusQuery}
    {out : Database × Nat} (h : statusCommit now fault fault' db q = some out) :
    db.Grows out.1 ∧ db.KeepsPhones out.1 := by
  cases q with
  | answered statusCode =>
    cases h
    exact ⟨.refl db, .refl db⟩
  | existing i status =>
    obtain ⟨db', hset, rfl⟩ := Option.map_eq_some_iff.mp h
    exact setDeliveryStatus_grows hset
  | unknown sid status =>
    simp only [statusCommit] at h
    split at h
    · rename_i db' hins
      cases h
      cases fault with
      | true => exact nomatch hins
      | false =>
        rw [if_neg Bool.false_ne_true] at hins
        exact ⟨Database.insert_grows hins,
          Database.keepsPhones_of_leads (Database.insert_spec hins).2.1⟩
    · split at h
      · cases h
        exact ⟨.refl db, .refl db⟩
      · obtain ⟨db', hset, rfl⟩ := Option.map_eq_some_iff.mp h
        exact setDeliveryStatus_grows hset

theorem upsertLead_grows (now : Time) (r : LeadRecord) (db : Database) :
    db.Grows (upsertLead now r db) := by
  unfold upsertLead
  split
  · exact Database.modifyLead_grows ⟨fun _ h => h, fun _ h => h, fun _ => rfl⟩
  · refine ⟨fun x hx => ⟨x, List.mem_append_left _ hx, rfl, id⟩, fun y hy h => ?_,
      List.prefix_refl _, rfl⟩
    rcases List.mem_append.mp hy with hy | hy
    · exact ⟨y, hy, rfl, h, rfl⟩
    · -- a new lead has the default status
      rw [List.mem_singleton.mp hy] at h
      exact nomatch h

theorem upsertLead_keepsNumber {n : Text} {r : LeadRecord} (hr : r.phone ≠ n) (now : Time)
    (db : Database) : db.KeepsNumber n (upsertLead now r db) := by
  intro y hy hn
  unfold upsertLead at hy
  split at hy
  · rename_i l _
    obtain ⟨x, hx, rfl⟩ := List.mem_map.mp hy
    refine ⟨x, hx, ?_, ?_⟩
    · split <;> rfl
    · split at hn
      · simp only [LeadRecord.write, overwrite] at hn
        split at hn
        · exact hn
        · exact absurd (Option.some.inj hn) hr
      · exact hn
  · rcases List.mem_append.mp hy with hy | hy
    · exact ⟨y, hy, rfl, hn⟩
    · rw [List.mem_singleton.mp hy] at hn
      simp only [LeadRecord.create, saved] at hn
      split at hn
      · cases hn
      · exact absurd (Option.some.inj hn) hr

theorem afterSync_leads (job : SyncJob) (statusCode : Int) (db : Database) :
    (afterSync job statusCode db).leads = db.leads ∧
      (afterSync job statusCode db).templates = db.templates := by
  unfold afterSync
  split
  · exact ⟨rfl, rfl⟩
  · split <;> exact ⟨rfl, rfl⟩

theorem afterSync_grows (job : SyncJob) (statusCode : Int) (db : Database) :
    db.Grows (afterSync job statusCode db) := by
  unfold afterSync
  split
  · exact .refl db
  · split
    · exact Database.grows_of_leads rfl rfl (List.prefix_refl _)
    · exact Database.modifyMessage_grows db job.messageId _ fun _ => ⟨rfl, rfl, rfl⟩

/-! ## Each step -/

section Step

variable {ν : Type} {p : Platform} {P : PhoneNumbers ν} {w w' : Org} {l : Label}

/-- The step writes the number into a lead. -/
def Label.gives (n : Option Text) : Label → Bool
  | .upsert record => decide (some record.phone = n)
  | _ => false

theorem finished_grows {fault fault' : Bool} {tx : Tx} {db : Database}
    (h : w.finished p fault fault' tx = some db) : w.db.Grows db ∧ w.db.KeepsPhones db := by
  rcases finished_cases h with rfl | ⟨b, -, hc⟩ | ⟨form, sid, matched, -, -, rfl⟩ |
    ⟨query, out, -, hs, rfl⟩
  · exact ⟨.refl _, .refl _⟩
  · exact commit_grows hc
  · exact stored_grows p.unicode w.now form sid matched w.db
  · exact statusCommit_grows hs

theorem step_grows (h : (org p P).step w l = some w') :
    w.db.Grows w'.db ∧ ∀ n, l.gives (some n) = false → w.db.KeepsNumber n w'.db := by
  rcases step_db h with hdb | ⟨i, fault, fault', tx, -, -, hdb⟩ |
    ⟨i, delivered, statusCode, eventId, job, -, -, hdb⟩ | ⟨record, rfl, hdb⟩
  · rw [hdb]
    exact ⟨.refl _, fun n _ => (Database.KeepsPhones.refl _).number n⟩
  · obtain ⟨hg, hk⟩ := finished_grows hdb
    exact ⟨hg, fun n _ => hk.number n⟩
  · rw [hdb]
    have hjobs : w.db.Grows { w.db with jobs := w.db.jobs.eraseIdx i } :=
      Database.grows_of_leads rfl rfl (List.prefix_refl _)
    have hl := (afterSync_leads job statusCode { w.db with jobs := w.db.jobs.eraseIdx i }).1
    exact ⟨hjobs.trans (afterSync_grows _ _ _), fun n _ => (Database.keepsPhones_of_leads hl).number n⟩
  · rw [hdb]
    exact ⟨upsertLead_grows _ _ _, fun n hn =>
      upsertLead_keepsNumber (fun h => of_decide_eq_false hn (congrArg some h)) _ _⟩

theorem run_grows {es : List Label} (h : (org p P).run w es = some w') :
    w.db.Grows w'.db ∧ w.now ≤ w'.now := by
  have hstep : ∀ u e v, w.db.Grows u.db ∧ w.now ≤ u.now → (org p P).step u e = some v →
      w.db.Grows v.db ∧ w.now ≤ v.now := by
    intro u e v hu hs
    exact ⟨hu.1.trans (step_grows hs).1, hu.2.trans (step_now hs)⟩
  exact (org p P).run_preserves hstep ⟨.refl _, le_refl _⟩ h

theorem run_keepsNumber {n : Text} {es : List Label} (hes : ∀ e ∈ es, e.gives (some n) = false)
    (h : (org p P).run w es = some w') : w.db.KeepsNumber n w'.db := by
  have hstep : ∀ u e v, w.db.KeepsNumber n u.db → e.gives (some n) = false →
      (org p P).step u e = some v → w.db.KeepsNumber n v.db :=
    fun u e v hu he hs => hu.trans ((step_grows hs).2 n he)
  exact (org p P).run_preserves_along hstep ((Database.KeepsPhones.refl _).number n)
    ((org p P).along_of_forall fun _ e he => hes e he) h

/-! ## Open batches -/

/-- The batch was opened in `u`: its rows, its template and its count are those of `u`. -/
structure SendBatch.OpenedIn (p : Platform) (u : Org) (b : SendBatch) : Prop where
  leads : b.leads ⊆ u.db.leads.rows
  template : b.template = approvedFirstTouchTemplate u.db.templates
  hourlyLimit : b.hourlyLimit = p.hourlyLimit
  sentThisHour : b.sentThisHour = sentSince u.db.messages.rows (u.now - hourMillis)

theorem openBatch_openedIn (u : Org) (ids : List Id) :
    (openBatch p u.now u.db ids).OpenedIn p u where
  leads _ hx := (mem_openBatch.mp hx).1
  template := rfl
  hourlyLimit := rfl
  sentThisHour := rfl

theorem visit_openedIn {u : Org} {b : SendBatch} {lead : Lead} {rest : List Lead} {now : Time}
    (reply : ProviderReply) (hleads : b.leads = lead :: rest) (hb : b.OpenedIn p u) :
    (b.visit p now lead rest reply).OpenedIn p u := by
  obtain ⟨hl, ht, hlim, hs⟩ := visit_frame p now b lead rest reply
  refine ⟨fun x hx => hb.leads ?_, ht.trans hb.template, hlim.trans hb.hourlyLimit,
    hs.trans hb.sentThisHour⟩
  rw [hleads]
  rw [hl] at hx
  exact List.mem_cons_of_mem lead hx

/-- A batch begun in a run was opened in one of its states, and has since only visited leads. -/
theorem run_batches {es : List Label} {h : Nat} {b : SendBatch}
    (hr : (org p P).run w es = some w') (hb : w'.txs h = some (.send b))
    (hbegin : ∃ ids, Label.beginSend h ids ∈ es) :
    ∃ pre post u, es = pre ++ post ∧ (org p P).run w pre = some u ∧
      (org p P).run u post = some w' ∧ b.OpenedIn p u := by
  have hstep : ∀ seen s e t,
      ((org p P).run w seen = some s ∧
        ∀ b, s.txs h = some (.send b) → (∃ ids, Label.beginSend h ids ∈ seen) →
          ∃ pre post u, seen = pre ++ post ∧ (org p P).run w pre = some u ∧
            (org p P).run u post = some s ∧ b.OpenedIn p u) →
      True → (org p P).step s e = some t →
      (org p P).run w (seen ++ [e]) = some t ∧
        ∀ b, t.txs h = some (.send b) → (∃ ids, Label.beginSend h ids ∈ seen ++ [e]) →
          ∃ pre post u, seen ++ [e] = pre ++ post ∧ (org p P).run w pre = some u ∧
            (org p P).run u post = some t ∧ b.OpenedIn p u := by
    intro seen s e t ⟨hrun, hall⟩ _ hs
    refine ⟨(org p P).run_append_some.mpr ⟨s, hrun, (org p P).run_singleton.mpr hs⟩, ?_⟩
    intro b hb ⟨ids, hids⟩
    -- an earlier batch has taken one step more
    have hlater : ∀ b₀, s.txs h = some (.send b₀) → Label.beginSend h ids ∈ seen →
        (∀ u, b₀.OpenedIn p u → b.OpenedIn p u) →
        ∃ pre post u, seen ++ [e] = pre ++ post ∧ (org p P).run w pre = some u ∧
          (org p P).run u post = some t ∧ b.OpenedIn p u := by
      intro b₀ hb₀ hseen himp
      obtain ⟨pre, post, u, rfl, hpre, hpost, hin⟩ := hall b₀ hb₀ ⟨ids, hseen⟩
      exact ⟨pre, post ++ [e], u, List.append_assoc .., hpre,
        (org p P).run_append_some.mpr ⟨s, hpost, (org p P).run_singleton.mpr hs⟩, himp u hin⟩
    have hseen : e ≠ .beginSend h ids → Label.beginSend h ids ∈ seen := fun hne =>
      (List.mem_append.mp hids).resolve_right fun h => hne (List.mem_singleton.mp h).symm
    rcases step_batch hs hb with ⟨ids', rfl, -, rfl⟩ | ⟨reply, b₀, lead, rest, rfl, hb₀, hl, rfl⟩ |
      ⟨hne, hsame⟩
    · exact ⟨seen, [.beginSend h ids'], s, rfl, hrun, (org p P).run_singleton.mpr hs,
        openBatch_openedIn s ids'⟩
    · exact hlater b₀ hb₀ (hseen fun h => nomatch h) fun u => visit_openedIn reply hl
    · exact hlater b hsame (hseen fun he => hne (by rw [he]; rfl)) fun u hu => hu
  have hinit : (org p P).run w [] = some w ∧
      ∀ b, w.txs h = some (.send b) → (∃ ids, Label.beginSend h ids ∈ []) →
        ∃ pre post u, [] = pre ++ post ∧ (org p P).run w pre = some u ∧
          (org p P).run u post = some w ∧ b.OpenedIn p u :=
    ⟨rfl, fun _ _ ⟨_, h⟩ => nomatch h⟩
  exact ((org p P).run_history hstep hinit
    ((org p P).along_of_forall fun _ _ _ => trivial) hr).2 b hb hbegin

end Step

end Outreach.Salesforce
