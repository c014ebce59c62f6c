import Mathlib.Data.List.Infix
import Outreach.Salesforce.Growth

/-!
# One accepted first touch per lead

A lead leaves `Ready` only at the end of the batch that contacted it. Until then
nothing but the batch's own list says so, and that list is lost when the answer
is not recognized, when the last DML fails, or when the transaction is aborted;
and another batch that has queried the lead does not see it.
-/

namespace Outreach.Salesforce

open Outreach.Library Outreach.Guardrails Outreach.Cleansing

set_option autoImplicit false

/-- No row of the lead is ready. -/
def Database.Settled (db : Database) (lead : Id) : Prop :=
  ∀ x ∈ db.leads.rows, x.id = lead → x.outreachStatus ≠ some .ready

theorem Database.Settled.grows {a b : Database} {lead : Id} (h : a.Settled lead)
    (hg : a.Grows b) : b.Settled lead := by
  intro y hy hid hready
  obtain ⟨x, hx, hxy, hr, -⟩ := hg.ready y hy hready
  exact h x hx (hxy.trans hid) hr

/-- The leads that a batch has contacted, or has still to visit. -/
def SendBatch.handled (b : SendBatch) : List Id :=
  b.contactedLeads.map Prod.fst ++ b.leads.map Lead.id

section Batch

variable {p : Platform} {now : Time} {b : SendBatch} {lead : Lead} {rest : List Lead}

variable (p now b lead rest) in
theorem visit_contacted (reply : ProviderReply) :
    (b.visit p now lead rest reply).contactedLeads = b.contactedLeads ∨
      (b.visit p now lead rest reply).contactedLeads = b.contactedLeads ++ [(lead.id, now)] := by
  unfold SendBatch.visit
  split
  · exact Or.inl rfl
  · simp only [SendBatch.note]
    split
    · exact Or.inr rfl
    · exact Or.inl rfl

theorem visit_contacted_of_recognized {reply : ProviderReply} {t : ReplyTemplate}
    (hg : b.gate p now lead = .ok t) (hr : returned p reply ≠ none) :
    (b.visit p now lead rest reply).contactedLeads = b.contactedLeads ++ [(lead.id, now)] := by
  have hsent := (performSend_spec p now lead t reply).2.2.1.mpr hr
  simp only [SendBatch.visit, hg, SendBatch.note, hsent, decide_true, if_true]

theorem openBatch_handled (db : Database) (leadIds : List Id) :
    (openBatch p now db leadIds).handled.Nodup := by
  show ([] ++ List.map Lead.id (List.insertionSort _ _)).Nodup
  have hrows : ((db.leads.rows.filter fun l => leadIds.contains l.id).map Lead.id).Nodup :=
    db.leads.nodup.sublist (List.filter_sublist.map Lead.id)
  exact ((List.perm_insertionSort _ _).map Lead.id).nodup_iff.mpr hrows

theorem visit_handled (reply : ProviderReply) (hleads : b.leads = lead :: rest)
    (hb : b.handled.Nodup) : (b.visit p now lead rest reply).handled.Nodup := by
  unfold SendBatch.handled at hb ⊢
  rw [hleads, List.map_cons] at hb
  rw [(visit_frame p now b lead rest reply).1]
  rcases visit_contacted p now b lead rest reply
    with hc | hc
  · rw [hc]
    exact hb.sublist ((List.sublist_cons_self _ _).append_left _)
  · rw [hc, List.map_append, List.append_assoc]
    exact hb

/-- The late update settles every contacted lead. -/
theorem contact_settles (contacted : List (Id × Time)) (db : Database) :
    ∀ i ∈ contacted.map Prod.fst, (contacted.foldl
      (fun db c => db.modifyLead c.1 (markContacted c.2) fun _ => rfl) db).Settled i := by
  induction contacted generalizing db with
  | nil => exact fun i hi => nomatch hi
  | cons c contacted ih =>
    intro i hi
    rcases List.mem_cons.mp hi with rfl | hi
    · have hfirst : (db.modifyLead c.1 (markContacted c.2) fun _ => rfl).Settled c.1 := by
        intro y hy hid
        obtain ⟨x, -, rfl⟩ := List.mem_map.mp hy
        by_cases hx : x.id = c.1
        · rw [if_pos hx]
          exact fun h => nomatch h
        · rw [if_neg hx] at hid
          exact absurd hid hx
      exact hfirst.grows (contact_grows contacted _).1
    · exact ih _ i hi

theorem commit_settles {db db' : Database} (h : b.commit now db = some db') :
    ∀ i ∈ b.contactedLeads.map Prod.fst, db'.Settled i := by
  obtain ⟨db₁, -, rfl⟩ := Option.map_eq_some_iff.mp h
  exact contact_settles b.contactedLeads db₁

theorem commit_of_accepts (now : Time) {db : Database} (h : db.accepts b.attemptLog) :
    ∃ db', b.commit now db = some db' := by
  simp only [SendBatch.commit, Database.insert, if_pos h, Option.map_some]
  exact ⟨_, rfl⟩

end Batch

/-! ## Accepted calls along a run -/

section Runs

variable {ν : Type} {p : Platform} {P : PhoneNumbers ν} {w w' : Org} {e : Label}

/-- The lead of a call that the provider answered with a 2xx status. -/
def acceptedCall (p : Platform) (w : Org) : Label → Option Id
  | .visitLead h reply =>
      if reply.accepted then (w.calls p (.visitLead h reply)).map fun c => c.1.id else none
  | _ => none

/-- An accepted answer is recognized, and comes for a lead that is still ready and
that no other open batch has contacted. -/
def CallHeld (p : Platform) (w : Org) (h : Nat) (reply : ProviderReply) : Prop :=
  ∀ l t, w.calls p (.visitLead h reply) = some (l, t) → reply.accepted = true →
    returned p reply ≠ none ∧ (∃ x ∈ w.db.leads.rows, x.id = l.id ∧ x.outreachStatus = some .ready) ∧
      ∀ i b, i ≠ h → w.txs i = some (.send b) → l.id ∉ b.contactedLeads.map Prod.fst

/-- What a batch has contacted is not lost when it ends. -/
def Held (p : Platform) (w : Org) : Label → Prop
  | .visitLead h reply => CallHeld p w h reply
  | .finish h fault _ => ∀ b, w.txs h = some (.send b) → b.contactedLeads ≠ [] →
      fault = false ∧ w.db.accepts b.attemptLog
  | .abort h => ∀ b, w.txs h = some (.send b) → b.contactedLeads = []
  | _ => True

structure FirstTouchInv (seen : List Id) (w : Org) : Prop where
  once : seen.Nodup
  handled : ∀ h b, w.txs h = some (.send b) → b.handled.Nodup
  /-- who was called is no longer ready, or is on the list of an open batch -/
  settled : ∀ i ∈ seen, w.db.Settled i ∨
    ∃ h b, w.txs h = some (.send b) ∧ i ∈ b.contactedLeads.map Prod.fst

theorem acceptedCall_eq_some {i : Id} :
    acceptedCall p w e = some i ↔
      ∃ h reply l t, e = .visitLead h reply ∧ reply.accepted = true ∧
        w.calls p (.visitLead h reply) = some (l, t) ∧ l.id = i := by
  cases e with
  | visitLead h reply =>
    simp only [acceptedCall]
    cases hr : reply.accepted with
    | false => simp [hr]
    | true =>
      simp only [if_true, Option.map_eq_some_iff, Prod.exists]
      constructor
      · intro h
        obtain ⟨l, t, hc, rfl⟩ := h
        exact ⟨h, reply, l, t, rfl, hr, hc, rfl⟩
      · intro h
        obtain ⟨h', reply', l, t, he, -, hc, rfl⟩ := h
        cases he
        exact ⟨l, t, hc, rfl⟩
  | _ => simp [acceptedCall]

theorem step_handled (hi : ∀ h b, w.txs h = some (.send b) → b.handled.Nodup)
    (hs : (org p P).step w e = some w') :
    ∀ h b, w'.txs h = some (.send b) → b.handled.Nodup := by
  intro h b hb
  rcases step_batch hs hb with ⟨ids, -, -, rfl⟩ | ⟨reply, b₀, lead, rest, -, hb₀, hl, rfl⟩ |
    ⟨-, hsame⟩
  · exact openBatch_handled _ _
  · exact visit_handled reply hl (hi h b₀ hb₀)
  · exact hi h b hsame

/-- A lead on the list of an open batch stays there, or is settled with the batch. -/
theorem step_contacted {h : Nat} {b : SendBatch} {i : Id} (hs : (org p P).step w e = some w')
    (hok : Held p w e) (hb : w.txs h = some (.send b)) (hi : i ∈ b.contactedLeads.map Prod.fst) :
    w'.db.Settled i ∨ ∃ b', w'.txs h = some (.send b') ∧ i ∈ b'.contactedLeads.map Prod.fst := by
  rcases step_of_open hs hb with ⟨-, hsame⟩ | ⟨reply, lead, rest, rfl, -, rfl⟩ |
    ⟨fault, fault', rfl, -, rfl⟩ | ⟨rfl, rfl⟩
  · exact Or.inr ⟨b, hsame, hi⟩
  · refine Or.inr ⟨_, Org.txs_openTx .., ?_⟩
    rcases visit_contacted p w.now b lead rest reply
      with hc | hc
    · rw [hc]
      exact hi
    · rw [hc, List.map_append]
      exact List.mem_append_left _ hi
  · have hne : b.contactedLeads ≠ [] := by
      intro hnil
      rw [hnil] at hi
      exact nomatch hi
    obtain ⟨rfl, hacc⟩ := hok b hb hne
    obtain ⟨db', hdb'⟩ := commit_of_accepts w.now hacc
    refine Or.inl ?_
    show (if false = true then w.db else (b.commit w.now w.db).getD w.db).Settled i
    rw [hdb', Option.getD_some, if_neg Bool.false_ne_true]
    exact commit_settles hdb' i hi
  · rw [hok b hb] at hi
    exact nomatch hi

/-- An accepted call is the first for its lead, and puts it on the list of its batch. -/
theorem step_accepted {seen : List Id} {i : Id} (hinv : FirstTouchInv seen w)
    (hs : (org p P).step w e = some w') (hok : Held p w e) (hc : acceptedCall p w e = some i) :
    i ∉ seen ∧ ∃ h b, w'.txs h = some (.send b) ∧ i ∈ b.contactedLeads.map Prod.fst := by
  obtain ⟨h, reply, l, t, rfl, haccepted, hcall, rfl⟩ := acceptedCall_eq_some.mp hc
  obtain ⟨hrec, ⟨x, hx, hxid, hready⟩, hothers⟩ := hok l t hcall haccepted
  obtain ⟨b, rest, hb, hleads, hg⟩ := Org.calls_eq_some.mp hcall
  constructor
  · intro hseen
    rcases hinv.settled l.id hseen with hset | ⟨j, b', hb', hmem⟩
    · exact hset x hx hxid hready
    · by_cases hj : j = h
      · -- a batch does not visit a lead again
        rw [hj, hb] at hb'
        cases hb'
        have hnodup := hinv.handled h b hb
        rw [SendBatch.handled, hleads, List.map_cons] at hnodup
        exact (List.nodup_append.mp hnodup).2.2 _ hmem _ List.mem_cons_self rfl
      · exact hothers j b' hj hb' hmem
  · obtain ⟨b₀, lead, rest₀, hb₀, hleads₀, rfl⟩ := step_visitLead.mp hs
    rw [hb] at hb₀
    cases hb₀
    rw [hleads] at hleads₀
    cases hleads₀
    refine ⟨h, _, Org.txs_openTx .., ?_⟩
    rw [visit_contacted_of_recognized hg hrec, List.map_append]
    exact List.mem_append_right _ (List.mem_singleton_self _)

theorem firstTouch_step {seen : List Id} (hinv : FirstTouchInv seen w) (hok : Held p w e)
    (hs : (org p P).step w e = some w') :
    FirstTouchInv (seen ++ (acceptedCall p w e).toList) w' := by
  have hold : ∀ i ∈ seen, w'.db.Settled i ∨
      ∃ h b, w'.txs h = some (.send b) ∧ i ∈ b.contactedLeads.map Prod.fst := by
    intro i hi
    rcases hinv.settled i hi with hset | ⟨h, b, hb, hmem⟩
    · exact Or.inl (hset.grows (step_grows hs).1)
    · rcases step_contacted hs hok hb hmem with hset | ⟨b', hb', hmem'⟩
      · exact Or.inl hset
      · exact Or.inr ⟨h, b', hb', hmem'⟩
  have hhandled := step_handled hinv.handled hs
  cases hc : acceptedCall p w e with
  | none =>
    rw [Option.toList_none, List.append_nil]
    exact ⟨hinv.once, hhandled, hold⟩
  | some i =>
    obtain ⟨hnew, hheld⟩ := step_accepted hinv hs hok hc
    refine ⟨?_, hhandled, ?_⟩
    · exact List.nodup_append.mpr ⟨hinv.once, List.nodup_singleton i, fun x hx y hy hxy =>
        hnew (List.mem_singleton.mp hy ▸ hxy ▸ hx)⟩
    · intro j hj
      rcases List.mem_append.mp hj with hj | hj
      · exact hold j hj
      · rw [List.mem_singleton.mp hj]
        exact Or.inr hheld

/-- No lead is called twice with success in a run in which no contact is lost. -/
theorem accepted_at_most_once {w₀ : Org} {es : List Label}
    (hidle : ∀ h b, w₀.txs h ≠ some (.send b)) (hok : (org p P).Along (Held p) w₀ es)
    (hr : (org p P).run w₀ es = some w) :
    ∀ lead, ((org p P).observe (acceptedCall p) w₀ es).count lead ≤ 1 := by
  have hinit : FirstTouchInv [] w₀ :=
    ⟨List.nodup_nil, fun h b hb => absurd hb (hidle h b), fun i hi => nomatch hi⟩
  have hinv := (org p P).run_observe (acceptedCall p)
    (fun _ _ _ _ hinv hok hs => firstTouch_step hinv hok hs) hinit hok hr
  exact List.nodup_iff_count_le_one.mp hinv.once

end Runs

/-- A batch whose call is answered with a message id, and a second one, which queries both leads:
the first is contacted already, and the call for the other is refused. -/
def touchTwice : List Label :=
  [.beginSend 0 [0], .visitLead 0 (.answered 200 sidBody), .finish 0 false false, .tick 1000,
    .beginSend 0 [0, 1], .visitLead 0 (.answered 400 "Bad Request".toList),
    .visitLead 0 (.answered 400 "Bad Request".toList), .finish 0 false false]

/-- The log of the open batch is accepted, and its next call goes to a ready lead. -/
def touchSound (w : Org) : Bool :=
  (match w.txs 0 with
    | some (.send b) => decide (w.db.accepts b.attemptLog)
    | _ => true) &&
  (w.calls gmtPlatform (.visitLead 0 (.answered 200 sidBody))).all fun c =>
    w.db.leads.rows.any fun x => decide (x.id = c.1.id ∧ x.outreachStatus = some .ready)

section TouchTwice

variable {pre post : List Label} {e : Label} {w : Org}

theorem touchTwice_sound (hsplit : touchTwice = pre ++ e :: post)
    (hw : (org gmtPlatform .e164).run twins pre = some w) : touchSound w = true := by
  have hall : touchTwice.inits.all (fun pre =>
      ((org gmtPlatform .e164).run twins pre).all touchSound) = true := by
    decide +kernel
  have hpre : pre ∈ touchTwice.inits :=
    (List.mem_inits _ _).mpr (hsplit ▸ List.prefix_append _ _)
  have hsound := List.all_eq_true.mp hall pre hpre
  rw [hw] at hsound
  exact hsound

/-- Only the first transaction is ever open. -/
theorem touchTwice_alone (hsplit : touchTwice = pre ++ e :: post)
    (hw : (org gmtPlatform .e164).run twins pre = some w) {i : Nat} (hi : i ≠ 0) :
    w.txs i = none := by
  have hhandles : ∀ e ∈ touchTwice, e.handle = some 0 ∨ e.handle = none := by
    simp [touchTwice, Label.handle]
  refine run_other (fun f hf he => ?_) hw
  rcases hhandles f (hsplit ▸ List.mem_append_left _ hf) with h | h
  · exact hi (Option.some.inj (he.symm.trans h))
  · exact Option.some_ne_none i (he.symm.trans h)

theorem touchTwice_accepts (hsplit : touchTwice = pre ++ e :: post)
    (hw : (org gmtPlatform .e164).run twins pre = some w) {b : SendBatch}
    (hb : w.txs 0 = some (.send b)) : w.db.accepts b.attemptLog := by
  have hsound := touchTwice_sound hsplit hw
  rw [touchSound, hb, Bool.and_eq_true] at hsound
  exact of_decide_eq_true hsound.1

theorem touchTwice_held : (org gmtPlatform .e164).Along (Held gmtPlatform) twins touchTwice := by
  refine (org gmtPlatform .e164).along_iff.mpr fun pre e post u hsplit hu => ?_
  have hmem : e ∈ touchTwice := hsplit ▸ List.mem_append_right _ List.mem_cons_self
  have hsound := touchTwice_sound hsplit hu
  have haccepts := fun b => touchTwice_accepts hsplit hu (b := b)
  have halone := fun i => touchTwice_alone hsplit hu (i := i)
  simp only [touchTwice, List.mem_cons, List.not_mem_nil, or_false] at hmem
  rcases hmem with rfl | rfl | rfl | rfl | rfl | rfl | rfl | rfl
  · trivial
  · intro l t hcall _
    rw [touchSound, hcall, Bool.and_eq_true, Option.all_some, List.any_eq_true] at hsound
    obtain ⟨-, x, hx, hready⟩ := hsound
    refine ⟨by decide +kernel, ⟨x, hx, of_decide_eq_true hready⟩, fun i b hi hb => ?_⟩
    rw [halone i hi] at hb
    cases hb
  · exact fun b hb _ => ⟨rfl, haccepts b hb⟩
  · trivial
  · trivial
  · exact fun l t _ hrefused => absurd hrefused (by decide)
  · exact fun l t _ hrefused => absurd hrefused (by decide)
  · exact fun b hb _ => ⟨rfl, haccepts b hb⟩

end TouchTwice

theorem accepted_at_most_once_twins :
    ∃ w, (org gmtPlatform .e164).run twins touchTwice = some w ∧
      ∀ lead, ((org gmtPlatform .e164).observe (acceptedCall gmtPlatform) twins touchTwice).count
        lead ≤ 1 := by
  have hruns : ((org gmtPlatform .e164).run twins touchTwice).isSome = true := by decide +kernel
  obtain ⟨w, hw⟩ := Option.isSome_iff_exists.mp hruns
  exact ⟨w, hw, accepted_at_most_once (fun _ _ h => nomatch h) touchTwice_held hw⟩

/-- An answer whose body is no JSON is taken for a failure, and the next run calls again. -/
def unparsedTwice : List Label :=
  [.beginSend 0 [0], .visitLead 0 (.answered 200 "OK".toList), .finish 0 false false,
    .beginSend 0 [0], .visitLead 0 (.answered 200 "OK".toList), .finish 0 false false]

/-- Two batches that have both queried the lead while it was ready. -/
def overlapping : List Label :=
  [.beginSend 0 [0], .beginSend 1 [0], .visitLead 0 (.answered 200 sidBody),
    .visitLead 1 (.answered 200 sidBody)]

theorem twins_accepted_twice :
    (∃ w, (org gmtPlatform .e164).run twins unparsedTwice = some w ∧ ¬ ∀ lead,
        ((org gmtPlatform .e164).observe (acceptedCall gmtPlatform) twins unparsedTwice).count
          lead ≤ 1) ∧
      ∃ w, (org gmtPlatform .e164).run twins overlapping = some w ∧ ¬ ∀ lead,
        ((org gmtPlatform .e164).observe (acceptedCall gmtPlatform) twins overlapping).count
          lead ≤ 1 := by
  have htwice : ((org gmtPlatform .e164).observe (acceptedCall gmtPlatform) twins unparsedTwice) =
      [0, 0] := by
    decide +kernel
  have hoverlap : ((org gmtPlatform .e164).observe (acceptedCall gmtPlatform) twins overlapping) =
      [0, 0] := by
    decide +kernel
  have hcount : ¬ ∀ lead, ([0, 0] : List Id).count lead ≤ 1 := fun h => absurd (h 0) (by decide)
  have hruns : ((org gmtPlatform .e164).run twins unparsedTwice).isSome = true := by decide +kernel
  have hruns' : ((org gmtPlatform .e164).run twins overlapping).isSome = true := by decide +kernel
  obtain ⟨w, hw⟩ := Option.isSome_iff_exists.mp hruns
  obtain ⟨w', hw'⟩ := Option.isSome_iff_exists.mp hruns'
  exact ⟨⟨w, hw, htwice ▸ hcount⟩, w', hw', hoverlap ▸ hcount⟩

end Outreach.Salesforce
