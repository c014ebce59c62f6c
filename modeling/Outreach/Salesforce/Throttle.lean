import Outreach.Library.Window
import Outreach.Salesforce.FirstTouch
import Outreach.Salesforce.SendGate

/-!
# The hourly limit over a run of batches

A batch counts the rows of the hour before it started and its own calls; its
rows come into the table when it commits. Where the batches run one after another
and each commits its log, every call of the last hour is in one of the two counts.
-/

namespace Outreach.Salesforce

open Outreach.Library Outreach.Cleansing

set_option autoImplicit false

section Defs

variable (p : Platform)

/-- The time at which a step calls the provider. -/
def calledAt (w : Org) (e : Label) : Option Time := (w.calls p e).map fun _ => w.now

/-- No batch is open. -/
def Idle (w : Org) : Prop := ∀ i b, w.txs i ≠ some (.send b)

/-- A batch starts when no other is open, and commits the log of its calls. -/
def OneByOne (w : Org) : Label → Prop
  | .beginSend _ _ => Idle w
  | .finish h fault _ =>
      ∀ b, w.txs h = some (.send b) → fault = false ∧ w.db.accepts b.attemptLog
  | .abort h => ∀ b, w.txs h = some (.send b) → b.attemptLog = []
  | _ => True

/-- The table has a row for each of the calls, not older than the call. -/
def InTable (calls : List Time) (db : Database) : Prop :=
  ∀ since, countSince calls since ≤ sentSince db.messages.rows since

/-- What the open batch knows: the calls before it are in the table and, while they
are within the hour, in its count; its own calls are in its log. -/
structure Counted (w : Org) (b : SendBatch) (earlier own : List Time) : Prop where
  limit : b.hourlyLimit = p.hourlyLimit
  made : b.calloutsMade = own.length
  log : b.attemptLog.length = own.length
  outbound : ∀ d ∈ b.attemptLog, d.direction = .outbound
  table : InTable earlier w.db
  hour : ∀ since, w.now - hourMillis ≤ since → countSince earlier since ≤ b.sentThisHour

/-- Between two batches, or in one. -/
def Standing (calls : List Time) (w : Org) : Prop :=
  (Idle w ∧ InTable calls w.db) ∨
    ∃ h b earlier own, w.txs h = some (.send b) ∧ (∀ i c, w.txs i = some (.send c) → i = h) ∧
      calls = earlier ++ own ∧ Counted p w b earlier own

/-- The invariant of a throttled run. -/
structure Throttled (calls : List Time) (w : Org) : Prop where
  past : ∀ t ∈ calls, t ≤ w.now
  windows : ∀ a, countWithin calls a (a + hourMillis) ≤ p.hourlyLimit.toNat
  standing : Standing p calls w

end Defs

section Steps

variable {ν : Type} {p : Platform} {P : PhoneNumbers ν} {w w' : Org} {e : Label} {h : Nat}
  {b : SendBatch} {calls earlier own : List Time}

theorem InTable.grows {db db' : Database} (ht : InTable calls db) (hg : db.Grows db') :
    InTable calls db' := fun since => (ht since).trans (sentSince_le hg le_rfl)

theorem Counted.later (hc : Counted p w b earlier own) (hs : (org p P).step w e = some w') :
    Counted p w' b earlier own where
  limit := hc.limit
  made := hc.made
  log := hc.log
  outbound := hc.outbound
  table := hc.table.grows (step_grows hs).1
  hour since hsince := hc.hour since ((Int.sub_le_sub_right (step_now hs) _).trans hsince)

/-- Only a step of an open batch calls the provider. -/
theorem calledAt_of_closed (hclosed : ∀ i c, w.txs i = some (.send c) → e.handle ≠ some i) :
    calledAt p w e = none := by
  rw [calledAt, Option.map_eq_none_iff]
  cases e with
  | visitLead i reply =>
    by_contra hne
    obtain ⟨⟨l, t⟩, hcall⟩ := Option.ne_none_iff_exists'.mp hne
    obtain ⟨c, -, hc, -⟩ := Org.calls_eq_some.mp hcall
    exact hclosed i c hc rfl
  | _ => rfl

theorem calledAt_of_handle (halone : ∀ i c, w.txs i = some (.send c) → i = h)
    (he : e.handle ≠ some h) : calledAt p w e = none :=
  calledAt_of_closed fun i c hc => halone i c hc ▸ he

theorem Idle.calledAt (hidle : Idle w) : calledAt p w e = none :=
  calledAt_of_closed fun i c hc => (hidle i c hc).elim

theorem performSend_outbound (now : Time) (lead : Lead) (template : ReplyTemplate)
    (reply : ProviderReply) : (performSend p now lead template reply).direction = .outbound := by
  rcases performSend_cases p now lead template reply with ⟨r, -, he⟩ | ⟨-, error, he⟩
  · rw [he]
    rfl
  · rw [he]
    rfl

/-- A batch opens on the table in which all calls are. -/
theorem openBatch_counted (ids : List Id) (ht : InTable calls w.db) :
    Counted p (w.openTx h (.send (openBatch p w.now w.db ids))) (openBatch p w.now w.db ids)
      calls [] where
  limit := rfl
  made := rfl
  log := rfl
  outbound _ hd := nomatch hd
  table := ht
  hour _ hsince := (countSince_anti hsince).trans (ht (w.now - hourMillis))

/-- A turn of the loop that makes no call counts nothing. -/
theorem skip_counted {lead : Lead} {rest : List Lead} {reason : BlockReason}
    (hc : Counted p w b earlier own) {tx : Tx} :
    Counted p (w.openTx h tx) (b.skip lead rest reason) earlier own :=
  ⟨hc.limit, hc.made, hc.log, hc.outbound, hc.table, hc.hour⟩

theorem note_counted {lead : Lead} {rest : List Lead} {attempt : MessageDraft}
    (hc : Counted p w b earlier own) (hout : attempt.direction = .outbound) {tx : Tx} :
    Counted p (w.openTx h tx) (b.note w.now lead rest attempt) earlier (own ++ [w.now]) where
  limit := hc.limit
  made := by
    rw [List.length_append, ← hc.made]
    rfl
  log := by
    show (b.attemptLog ++ [attempt]).length = _
    rw [List.length_append, List.length_append, hc.log]
    rfl
  outbound d hd := by
    rcases List.mem_append.mp hd with hd | hd
    · exact hc.outbound d hd
    · rw [List.mem_singleton.mp hd]
      exact hout
  table := hc.table
  hour := hc.hour

/-- A call leaves the windows within the limit: the gate has counted the last hour. -/
theorem windows_of_gate {lead : Lead} {t : ReplyTemplate} (hc : Counted p w b earlier own)
    (hwin : ∀ a, countWithin (earlier ++ own) a (a + hourMillis) ≤ p.hourlyLimit.toNat)
    (hg : b.gate p w.now lead = .ok t) (a : Int) :
    countWithin (earlier ++ own ++ [w.now]) a (a + hourMillis) ≤ p.hourlyLimit.toNat := by
  have hroom : (b.sentThisHour : Int) + b.calloutsMade < b.hourlyLimit :=
    (gate_eq_ok.mp hg).2.2.2.1
  refine countWithin_snoc_le hwin ?_ a
  have hold : countSince earlier (w.now - hourMillis) ≤ b.sentThisHour := hc.hour _ le_rfl
  have hown : countSince own (w.now - hourMillis) ≤ own.length := countSince_le_length _
  rw [countSince_append]
  rw [hc.limit, hc.made] at hroom
  omega

/-- The commit puts a row into the table for each call of the batch. -/
theorem commit_inTable (hc : Counted p w b earlier own) (hown : ∀ t ∈ own, t ≤ w.now)
    {db : Database} (hdb : b.commit w.now w.db = some db) : InTable (earlier ++ own) db := by
  intro since
  obtain ⟨db₁, hins, rfl⟩ := Option.map_eq_some_iff.mp hdb
  obtain ⟨-, -, -, -, rows, hrows, hall⟩ := Database.insert_spec hins
  have hlen : rows.length = own.length := hall.length_eq.symm.trans hc.log
  have hnew : ∀ m ∈ rows, m.direction = .outbound ∧ m.createdDate = w.now := by
    intro m hm
    obtain ⟨i, hi, rfl⟩ := List.getElem_of_mem hm
    obtain ⟨hlog, hget⟩ := List.forall₂_iff_get.mp hall
    obtain ⟨hsaved, hcreated⟩ := hget i (hlog ▸ hi) hi
    have hdir : (rows.get ⟨i, hi⟩).direction = (b.attemptLog.get ⟨i, hlog ▸ hi⟩).direction :=
      (congrArg MessageDraft.direction hsaved).trans rfl
    exact ⟨hdir.trans (hc.outbound _ (List.get_mem ..)), hcreated⟩
  rw [countSince_append, (contact_frame _ _).1, hrows, sentSince, List.countP_append]
  refine Nat.add_le_add (hc.table since) ?_
  by_cases hsince : since ≤ w.now
  · have hcount : List.countP (fun m : OutreachMessage => decide (m.direction = .outbound) &&
        decide (since ≤ m.createdDate)) rows = rows.length := by
      refine List.countP_eq_length.mpr fun m hm => ?_
      obtain ⟨hd, hm⟩ := hnew m hm
      simp [hd, hm, hsince]
    rw [hcount, hlen]
    exact countSince_le_length since
  · rw [countSince_eq_zero fun t ht => (hown t ht).trans_lt (not_le.mp hsince)]
    exact Nat.zero_le _

theorem step_idle (hidle : Idle w) (ht : InTable calls w.db) (hs : (org p P).step w e = some w') :
    Standing p calls w' := by
  by_cases hbegin : ∃ h ids, e = .beginSend h ids
  · obtain ⟨h, ids, rfl⟩ := hbegin
    obtain ⟨-, rfl⟩ := step_beginSend.mp hs
    refine Or.inr ⟨h, openBatch p w.now w.db ids, calls, [], Org.txs_openTx .., fun i c hc => ?_,
      (List.append_nil _).symm, openBatch_counted ids ht⟩
    by_contra hi
    rw [Org.txs_openTx_of_ne hi] at hc
    exact hidle i c hc
  · refine Or.inl ⟨fun i c hc => ?_, ht.grows (step_grows hs).1⟩
    rcases step_batch hs hc with ⟨ids, he, -⟩ | ⟨_, c₀, _, _, -, hc₀, -⟩ | ⟨-, hc₀⟩
    · exact hbegin ⟨i, ids, he⟩
    · exact hidle i c₀ hc₀
    · exact hidle i c hc₀

/-- When its transaction is over, no batch is open. -/
theorem idle_close (halone : ∀ i c, w.txs i = some (.send c) → i = h) (db : Database) :
    Idle (w.close h db) := by
  intro i c hc
  by_cases hi : i = h
  · rw [hi, Org.txs_close] at hc
    exact nomatch hc
  · rw [Org.txs_close_of_ne hi] at hc
    exact hi (halone i c hc)

/-- Only its own step changes the open batch, and no other batch starts beside it. -/
theorem alone_other (hb : w.txs h = some (.send b))
    (halone : ∀ i c, w.txs i = some (.send c) → i = h) (hok : OneByOne w e)
    (he : e.handle ≠ some h) (hs : (org p P).step w e = some w') :
    ∀ i c, w'.txs i = some (.send c) → i = h := by
  intro i c hc
  rcases step_batch hs hc with ⟨ids, rfl, -⟩ | ⟨reply, c₀, _, _, rfl, hc₀, -⟩ | ⟨-, hc₀⟩
  · exact absurd hb (hok h b)
  · exact absurd (congrArg some (halone i c₀ hc₀)) he
  · exact halone i c hc₀

/-- One turn of the loop of the open batch. -/
theorem visit_standing {lead : Lead} {rest : List Lead} {reply : ProviderReply}
    (hb : w.txs h = some (.send b)) (halone : ∀ i c, w.txs i = some (.send c) → i = h)
    (hc : Counted p w b earlier own) (hleads : b.leads = lead :: rest)
    (hwin : ∀ a, countWithin (earlier ++ own) a (a + hourMillis) ≤ p.hourlyLimit.toNat) :
    let seen := earlier ++ own ++ (calledAt p w (.visitLead h reply)).toList
    (∀ a, countWithin seen a (a + hourMillis) ≤ p.hourlyLimit.toNat) ∧
      Standing p seen (w.openTx h (.send (b.visit p w.now lead rest reply))) := by
  have halone' : ∀ (tx : Tx) i c, (w.openTx h tx).txs i = some (.send c) → i = h := by
    intro tx i c hi
    by_contra hne
    rw [Org.txs_openTx_of_ne hne] at hi
    exact hne (halone i c hi)
  have hcalls : w.calls p (.visitLead h reply) = b.calls p w.now := by
    simp only [Org.calls, hb]
  cases hg : b.gate p w.now lead with
  | error reason =>
    have hnone : b.calls p w.now = none := by
      simp only [SendBatch.calls, hleads, hg]
    have hskip : b.visit p w.now lead rest reply = b.skip lead rest reason := by
      simp only [SendBatch.visit, hg]
    rw [calledAt, hcalls, hnone, hskip, Option.map_none, Option.toList_none, List.append_nil]
    exact ⟨hwin, Or.inr ⟨h, _, earlier, own, Org.txs_openTx .., halone' _, rfl, skip_counted hc⟩⟩
  | ok t =>
    have hsome : b.calls p w.now = some (lead, t) := by
      simp only [SendBatch.calls, hleads, hg]
    have hnote : b.visit p w.now lead rest reply =
        b.note w.now lead rest (performSend p w.now lead t reply) := by
      simp only [SendBatch.visit, hg]
    rw [calledAt, hcalls, hsome, hnote, Option.map_some, Option.toList_some]
    refine ⟨windows_of_gate hc hwin hg, Or.inr ⟨h, _, earlier, own ++ [w.now],
      Org.txs_openTx .., halone' _, List.append_assoc .., ?_⟩⟩
    exact note_counted hc (performSend_outbound ..)

theorem throttled_step (hinv : Throttled p calls w) (hok : OneByOne w e)
    (hs : (org p P).step w e = some w') :
    Throttled p (calls ++ (calledAt p w e).toList) w' := by
  have hpast : ∀ t ∈ calls ++ (calledAt p w e).toList, t ≤ w'.now := by
    intro t ht
    refine le_trans ?_ (step_now hs)
    rcases List.mem_append.mp ht with ht | ht
    · exact hinv.past t ht
    · obtain ⟨_, -, rfl⟩ := Option.map_eq_some_iff.mp (Option.mem_toList.mp ht)
      exact le_rfl
  suffices h : (∀ a, countWithin (calls ++ (calledAt p w e).toList) a (a + hourMillis) ≤
      p.hourlyLimit.toNat) ∧ Standing p (calls ++ (calledAt p w e).toList) w' from
    ⟨hpast, h.1, h.2⟩
  rcases hinv.standing with ⟨hidle, ht⟩ | ⟨h, b, earlier, own, hb, halone, rfl, hc⟩
  · rw [hidle.calledAt, Option.toList_none, List.append_nil]
    exact ⟨hinv.windows, step_idle hidle ht hs⟩
  · rcases step_of_open hs hb with ⟨he, hb'⟩ | ⟨reply, lead, rest, rfl, hleads, rfl⟩ |
      ⟨fault, fault', rfl, -, rfl⟩ | ⟨rfl, rfl⟩
    · rw [calledAt_of_handle halone he, Option.toList_none, List.append_nil]
      exact ⟨hinv.windows, Or.inr ⟨h, b, earlier, own, hb',
        alone_other hb halone hok he hs, rfl, hc.later hs⟩⟩
    · exact visit_standing hb halone hc hleads hinv.windows
    · obtain ⟨rfl, hacc⟩ := hok b hb
      obtain ⟨db, hdb⟩ := commit_of_accepts w.now hacc
      have hown : ∀ t ∈ own, t ≤ w.now := fun t ht => hinv.past t (List.mem_append_right _ ht)
      rw [if_neg Bool.false_ne_true, hdb, Option.getD_some]
      have hnone : calledAt p w (.finish h false fault') = none := rfl
      rw [hnone, Option.toList_none, List.append_nil]
      exact ⟨hinv.windows, Or.inl ⟨idle_close halone db, commit_inTable hc hown hdb⟩⟩
    · have hnone : calledAt p w (.abort h) = none := rfl
      have hempty : own = [] := by
        rw [← List.length_eq_zero_iff, ← hc.log, hok b hb, List.length_nil]
      rw [hnone, Option.toList_none, List.append_nil]
      refine ⟨hinv.windows, Or.inl ⟨idle_close halone w.db, ?_⟩⟩
      rw [hempty, List.append_nil]
      exact hc.table

/-- In no hour does the provider get more calls than the limit allows. -/
theorem calls_within_hour {w₀ : Org} {es : List Label} (hidle : Idle w₀)
    (hok : (org p P).Along OneByOne w₀ es) (hr : (org p P).run w₀ es = some w) (a : Time) :
    countWithin ((org p P).observe (calledAt p) w₀ es) a (a + hourMillis) ≤
      p.hourlyLimit.toNat := by
  have hinit : Throttled p [] w₀ :=
    ⟨List.forall_mem_nil _, fun _ => Nat.zero_le _, Or.inl ⟨hidle, fun _ => Nat.zero_le _⟩⟩
  exact ((org p P).run_observe (calledAt p)
    (fun _ _ _ _ hinv hok hs => throttled_step hinv hok hs) hinit hok hr).windows a

end Steps

/-- The run goes on where a batch begins, so that nothing is open there. -/
theorem touchTwice_oneByOne : (org gmtPlatform .e164).Along OneByOne twins touchTwice := by
  have hruns : ((org gmtPlatform .e164).run twins touchTwice).isSome = true := by decide +kernel
  obtain ⟨w, hw⟩ := Option.isSome_iff_exists.mp hruns
  refine (org gmtPlatform .e164).along_iff.mpr fun pre e post u hsplit hu => ?_
  have hmem : e ∈ touchTwice := hsplit ▸ List.mem_append_right _ List.mem_cons_self
  have haccepts := fun b => touchTwice_accepts hsplit hu (b := b)
  have hbegins : ∀ ids, e = .beginSend 0 ids → Idle u := by
    rintro ids rfl i b hb
    by_cases hi : i = 0
    · obtain ⟨u', hu', hrest⟩ := (Machine.run_append_some _).mp (hsplit ▸ hw)
      obtain rfl := Option.some.inj (hu.symm.trans hu')
      obtain ⟨_, hstep, -⟩ := (Machine.run_cons_some _).mp hrest
      rw [hi, (step_beginSend.mp hstep).1] at hb
      cases hb
    · rw [touchTwice_alone hsplit hu hi] at hb
      cases hb
  simp only [touchTwice, List.mem_cons, List.not_mem_nil, or_false] at hmem
  rcases hmem with rfl | rfl | rfl | rfl | rfl | rfl | rfl | rfl
  · exact hbegins _ rfl
  · trivial
  · exact fun b hb => ⟨rfl, haccepts b hb⟩
  · trivial
  · exact hbegins _ rfl
  · trivial
  · trivial
  · exact fun b hb => ⟨rfl, haccepts b hb⟩

/-- Two calls, one in each of the batches. -/
theorem calls_within_hour_twins :
    ∃ w, (org gmtPlatform .e164).run twins touchTwice = some w ∧
      (org gmtPlatform .e164).observe (calledAt gmtPlatform) twins touchTwice =
        [noon, noon + 1000] ∧
      ∀ a : Time, countWithin ((org gmtPlatform .e164).observe (calledAt gmtPlatform) twins
        touchTwice) a (a + hourMillis) ≤ gmtPlatform.hourlyLimit.toNat := by
  have hruns : ((org gmtPlatform .e164).run twins touchTwice).isSome = true := by decide +kernel
  obtain ⟨w, hw⟩ := Option.isSome_iff_exists.mp hruns
  have hidle : Idle twins := fun _ _ h => nomatch h
  exact ⟨w, hw, by decide +kernel, calls_within_hour hidle touchTwice_oneByOne hw⟩

end Outreach.Salesforce
