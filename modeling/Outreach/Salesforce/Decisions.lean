import Outreach.Salesforce.AttemptLog
import Mathlib.Data.List.ReduceOption

/-!
# What a batch decides

The gates stand in one order for every lead; two of them count the calls made
for earlier leads. The loop calls the provider exactly where no gate blocks, and
each lead has its outcome. All of it reaches the caller and the tables when the
insert at the end is accepted, and none of it otherwise.
-/

namespace Outreach.Salesforce

open Outreach.Library Outreach.Guardrails Outreach.Cleansing

set_option autoImplicit false

/-- A lead of the batch, the clock when the loop comes to it, and what the provider answers
if it is called. -/
structure Visit where
  lead : Lead
  now : Time
  reply : ProviderReply

/-- What `sendBatch` has queried. -/
structure Query where
  template : Option ReplyTemplate
  hourlyLimit : Int
  sentThisHour : Nat

def Visit.call (v : Visit) (template : ReplyTemplate) : Call := ⟨v.lead, template, v.now, v.reply⟩

section Code

variable (p : Platform)

namespace SendBatch

/-- The locals of `sendBatch` before its loop. -/
def start (q : Query) (leads : List Lead) : SendBatch where
  leads := leads
  template := q.template
  hourlyLimit := q.hourlyLimit
  sentThisHour := q.sentThisHour

/-- The loop, with the call that is made for each lead. -/
def loop (b : SendBatch) : List Visit → SendBatch × List (Option Call)
  | [] => (b, [])
  | v :: visits =>
      let call := (b.calls p v.now).map fun c => ⟨c.1, c.2, v.now, v.reply⟩
      let rest := (b.visit p v.now v.lead b.leads.tail v.reply).loop visits
      (rest.1, call :: rest.2)

end SendBatch

/-- `sendBatch` from its queries on: the calls, and what it returns and leaves in the tables;
`none` is the `DmlException` of its insert. -/
def sendBatch (q : Query) (visits : List Visit) (ended : Time) (db : Database) :
    List (Option Call) × Option (List SendOutcome × Database) :=
  let done := (SendBatch.start q (visits.map Visit.lead)).loop p visits
  (done.2, (done.1.commit ended db).map fun db' => (done.1.outcomes, db'))

end Code

/-! ## What is specified -/

def dayMillis : Int := 24 * hourMillis

/-- Milliseconds since midnight, in the zone. -/
def TimeZone.timeOfDay (zone : TimeZone) (now : Time) : Int := (now + zone.offset now) % dayMillis

section Spec

variable (p : Platform) (q : Query)

/-- The zone that the lead names, when its id is recognized. -/
def zoneOf (lead : Lead) : Option TimeZone :=
  lead.quietHoursTimezone.bind fun name =>
    let zone := p.getTimeZone name
    if isBlank (some name) = false ∧ sameText zone.id name then some zone else none

/-- From 08:00, up to 21:00. -/
def awake (v : Visit) : Bool :=
  (zoneOf p v.lead).any fun zone =>
    decide (8 * hourMillis ≤ zone.timeOfDay v.now ∧ zone.timeOfDay v.now < 21 * hourMillis)

/-- What a lead must pass, in order, when `made` calls were made before it. -/
def gates (made : Nat) (v : Visit) : List (BlockReason × Bool) :=
  [(.suppressed, decide (¬ (v.lead.optedOut = true ∨ v.lead.outreachStatus = some .suppressed))),
    (.notReady, decide (v.lead.outreachStatus = some .ready)),
    (.unknownTimezone, (zoneOf p v.lead).isSome),
    (.quietHours, awake p v),
    (.rateLimited, decide (q.sentThisHour + made < q.hourlyLimit)),
    (.noApprovedTemplate, q.template.isSome),
    (.missingPhone, !isBlank v.lead.phone),
    (.deferred, decide (made < 90))]

def firstFailing (made : Nat) (v : Visit) : Option BlockReason :=
  ((gates p q made v).find? fun g => !g.2).map Prod.fst

/-- The calls that are due. -/
def dueCalls : Nat → List Visit → List Call
  | _, [] => []
  | made, v :: visits =>
      match firstFailing p q made v with
      | some _ => dueCalls made visits
      | none => (q.template.map v.call).toList ++ dueCalls (made + 1) visits

def madeBefore (calls : List (Option Call)) (i : Nat) : Nat := (calls.take i).countP Option.isSome

/-- The lead with this id was sent to, at this time. -/
def SentTo (visits : List Visit) (outcomes : List SendOutcome) (lead : Id) (t : Time) : Prop :=
  ∃ (i : Nat) (v : Visit) (o : SendOutcome), visits[i]? = some v ∧ outcomes[i]? = some o ∧
    o.sent = true ∧ v.lead.id = lead ∧ v.now = t

/-- The decisions about the leads, and what becomes of the tables. -/
structure Decided (visits : List Visit) (calls : List (Option Call))
    (outcomes : List SendOutcome) (db db' : Database) : Prop where
  called : ∀ (i : Nat) (v : Visit), visits[i]? = some v →
    ((∃ c, calls[i]? = some (some c)) ↔ ∀ g ∈ gates p q (madeBefore calls i) v, g.2 = true)
  call : ∀ (i : Nat) (v : Visit) (c : Call), visits[i]? = some v → calls[i]? = some (some c) →
    ∃ t, q.template = some t ∧ c = v.call t
  leads : outcomes.map SendOutcome.leadId = visits.map fun v => v.lead.id
  sent : ∀ (i : Nat) (v : Visit) (o : SendOutcome), visits[i]? = some v → outcomes[i]? = some o →
    (o.sent = true ↔ (∃ c, calls[i]? = some (some c)) ∧ returned p v.reply ≠ none)
  reason : ∀ (i : Nat) (v : Visit) (o : SendOutcome), visits[i]? = some v → outcomes[i]? = some o →
    o.reason = if o.sent then none
      else some ((firstFailing p q (madeBefore calls i) v).getD .sendFailed)
  logged : Logged p calls.reduceOption db db'
  contacted : List.Forall₂ (fun before after =>
    ((∀ t, ¬ SentTo visits outcomes before.id t) → after = before) ∧
      ((∃ t, SentTo visits outcomes before.id t) →
        ∃ t, SentTo visits outcomes before.id t ∧ after = markContacted t before))
    db.leads.rows db'.leads.rows

/-- `sendBatch` returns, with everything decided as it should be. -/
def DecidesAsSpecified (visits : List Visit) (ended : Time) (db : Database) : Prop :=
  ∃ outcomes db', (sendBatch p q visits ended db).2 = some (outcomes, db') ∧
    Decided p q visits (sendBatch p q visits ended db).1 outcomes db db'

end Spec

/-! ## One lead -/

section Gates

variable {p : Platform} {q : Query}

theorem hour_of_day (x : Int) : x / hourMillis % 24 = x % dayMillis / hourMillis := by
  have hhour : hourMillis = 3600000 := rfl
  have hday : dayMillis = 86400000 := rfl
  rw [hhour, hday]
  omega

/-- Whole hours past midnight against the time of day, for every instant and every offset. -/
theorem hour_iff (zone : TimeZone) (now : Time) :
    ¬ ((now + zone.offset now) / hourMillis % 24 < quietHoursStart ∨
        quietHoursEnd ≤ (now + zone.offset now) / hourMillis % 24) ↔
      8 * hourMillis ≤ zone.timeOfDay now ∧ zone.timeOfDay now < 21 * hourMillis := by
  have hpos : 0 < hourMillis := by decide
  rw [hour_of_day, not_or, not_lt, not_le]
  exact and_congr (Int.le_ediv_iff_mul_le hpos) (Int.ediv_lt_iff_lt_mul hpos)

/-- The quiet hours block is the third gate, or the fourth. -/
theorem quietHours_eq (v : Visit) :
    quietHoursBlockReason p v.now v.lead.quietHoursTimezone =
      if (zoneOf p v.lead).isSome then if awake p v then none else some .quietHours
      else some .unknownTimezone := by
  unfold quietHoursBlockReason awake zoneOf
  cases v.lead.quietHoursTimezone with
  | none => rfl
  | some name =>
    rw [Option.bind_some]
    cases hblank : isBlank (some name) with
    | true => simp [hblank]
    | false =>
      cases hsame : sameText (p.getTimeZone name).id name with
      | false => simp [hsame]
      | true =>
        simp only [hblank, hsame, Bool.not_true, Bool.false_eq_true, if_false, true_and, if_true,
          Option.isSome_some, Option.any_some]
        have hhour := hour_iff (p.getTimeZone name) v.now
        split
        · rename_i hout
          rw [if_neg fun hin => hhour.mpr (of_decide_eq_true hin) hout]
        · rename_i hin
          rw [if_pos (decide_eq_true (hhour.mp hin))]

/-- The gates of the code are the gates of the specification. -/
theorem gate_eq_gates (b : SendBatch) (v : Visit) (ht : b.template = q.template)
    (hl : b.hourlyLimit = q.hourlyLimit) (hs : b.sentThisHour = q.sentThisHour) :
    b.gate p v.now v.lead =
      match firstFailing p q b.calloutsMade v, q.template with
      | some reason, _ => .error reason
      | none, some template => .ok template
      | none, none => .error .noApprovedTemplate := by
  unfold SendBatch.gate firstFailing gates
  rw [quietHours_eq, ht, hl, hs]
  by_cases hsup : v.lead.optedOut = true ∨ v.lead.outreachStatus = some .suppressed
  · simp [hsup]
  by_cases hready : v.lead.outreachStatus = some .ready
  · have hopted : v.lead.optedOut = false := Bool.eq_false_iff.mpr fun h => hsup (Or.inl h)
    cases hzone : (zoneOf p v.lead).isSome with
    | false => simp [hopted, hready]
    | true =>
      cases hawake : awake p v with
      | false => simp [hopted, hready]
      | true =>
        by_cases hrate : q.sentThisHour + b.calloutsMade < q.hourlyLimit
        · have hnot := not_le.mpr hrate
          cases q.template with
          | none => simp [hopted, hready, hrate, hnot]
          | some t =>
            cases hblank : isBlank v.lead.phone with
            | true => simp [hopted, hready, hrate, hnot]
            | false =>
              by_cases hmax : b.calloutsMade < 90
              · simp [hopted, hready, hrate, hnot, hmax, not_le.mpr hmax, maxCalloutsPerRun]
              · simp [hopted, hready, hrate, hnot, hmax, maxCalloutsPerRun, not_lt.mp hmax]
        · simp [hopted, hready, hrate, not_lt.mp hrate]
  · simp [hsup, hready]

theorem firstFailing_eq_none {made : Nat} {v : Visit} :
    firstFailing p q made v = none ↔ ∀ g ∈ gates p q made v, g.2 = true := by
  rw [firstFailing, Option.map_eq_none_iff, List.find?_eq_none]
  simp only [Bool.not_eq_true', Bool.not_eq_false]

/-- A template is one of the gates. -/
theorem template_of_passed {made : Nat} {v : Visit} (h : firstFailing p q made v = none) :
    ∃ t, q.template = some t := by
  have hgate : (.noApprovedTemplate, q.template.isSome) ∈ gates p q made v := by simp [gates]
  exact Option.isSome_iff_exists.mp (firstFailing_eq_none.mp h _ hgate)

end Gates

/-! ## The loop -/

section Loop

variable (p : Platform) (q : Query)

/-- What one turn of the loop does: the call, and the outcome. -/
inductive Turn (made : Nat) (v : Visit) : Option Call → SendOutcome → Prop
  | blocked {reason : BlockReason} (h : firstFailing p q made v = some reason) :
      Turn made v none ⟨v.lead.id, false, some reason⟩
  | called {t : ReplyTemplate} (h : firstFailing p q made v = none) (ht : q.template = some t) :
      Turn made v (some (v.call t)) ⟨v.lead.id, (returned p v.reply).isSome,
        if (returned p v.reply).isSome then none else some .sendFailed⟩

/-- The turns of the loop, with the calls made counted on. -/
inductive Turns : Nat → List Visit → List (Option Call) → List SendOutcome → Prop
  | nil (made : Nat) : Turns made [] [] []
  | cons {made : Nat} {v : Visit} {visits : List Visit} {c : Option Call}
      {calls : List (Option Call)} {o : SendOutcome} {outcomes : List SendOutcome}
      (first : Turn p q made v c o)
      (rest : Turns (made + if c.isSome then 1 else 0) visits calls outcomes) :
      Turns made (v :: visits) (c :: calls) (o :: outcomes)

/-- The leads that the update at the end names. -/
def contacts (visits : List Visit) (outcomes : List SendOutcome) : List (Id × Time) :=
  (visits.zip outcomes).filterMap fun d =>
    if d.2.sent then some (d.1.lead.id, d.1.now) else none

variable {p q}

theorem mem_contacts {visits : List Visit} {outcomes : List SendOutcome} {lead : Id} {t : Time} :
    (lead, t) ∈ contacts visits outcomes ↔ SentTo visits outcomes lead t := by
  simp only [contacts, List.mem_filterMap, Option.ite_none_right_eq_some, Option.some.injEq,
    Prod.mk.injEq, SentTo]
  constructor
  · intro h
    obtain ⟨⟨v, o⟩, hmem, hsent, hlead, ht⟩ := h
    obtain ⟨i, hi⟩ := List.mem_iff_getElem?.mp hmem
    obtain ⟨hv, ho⟩ := List.getElem?_zip_eq_some.mp hi
    exact ⟨i, v, o, hv, ho, hsent, hlead, ht⟩
  · intro h
    obtain ⟨i, v, o, hv, ho, hsent, hlead, ht⟩ := h
    have hi : (visits.zip outcomes)[i]? = some (v, o) := List.getElem?_zip_eq_some.mpr ⟨hv, ho⟩
    exact ⟨(v, o), List.mem_of_getElem? hi, hsent, hlead, ht⟩

theorem visit_turn {b : SendBatch} {v : Visit} {rest : List Lead} (hleads : b.leads = v.lead :: rest)
    (ht : b.template = q.template) (hl : b.hourlyLimit = q.hourlyLimit)
    (hs : b.sentThisHour = q.sentThisHour) :
    ∃ c o, Turn p q b.calloutsMade v c o ∧
      ((b.calls p v.now).map fun c => (⟨c.1, c.2, v.now, v.reply⟩ : Call)) = c ∧
      (b.visit p v.now v.lead rest v.reply).outcomes = b.outcomes ++ [o] ∧
      (b.visit p v.now v.lead rest v.reply).calloutsMade =
        b.calloutsMade + (if c.isSome then 1 else 0) ∧
      (b.visit p v.now v.lead rest v.reply).attemptLog =
        b.attemptLog ++ c.toList.map (Call.attempt p) ∧
      (b.visit p v.now v.lead rest v.reply).contactedLeads =
        b.contactedLeads ++ (if o.sent then [(v.lead.id, v.now)] else []) := by
  have hgate := gate_eq_gates b v ht hl hs (p := p)
  simp only [SendBatch.visit, SendBatch.calls, hleads]
  cases hf : firstFailing p q b.calloutsMade v with
  | some reason =>
    rw [hf] at hgate
    rw [hgate]
    exact ⟨none, _, .blocked hf, rfl, rfl, rfl, (List.append_nil _).symm, (List.append_nil _).symm⟩
  | none =>
    obtain ⟨t, htemplate⟩ := template_of_passed hf
    rw [hf, htemplate] at hgate
    rw [hgate]
    have hstatus := (performSend_spec p v.now v.lead t v.reply).2.2.1
    rw [← Option.isSome_iff_ne_none] at hstatus
    refine ⟨_, _, .called hf htemplate, rfl, ?_, rfl, rfl, ?_⟩
    · simp only [SendBatch.note, hstatus, Bool.decide_eq_true]
    · simp only [SendBatch.note, hstatus, Bool.decide_eq_true]
      split
      · rfl
      · exact (List.append_nil _).symm

/-- The loop takes its turns, and notes each of them. -/
theorem loop_turns {b : SendBatch} {visits : List Visit} (hleads : b.leads = visits.map Visit.lead)
    (ht : b.template = q.template) (hl : b.hourlyLimit = q.hourlyLimit)
    (hs : b.sentThisHour = q.sentThisHour) :
    ∃ outcomes, Turns p q b.calloutsMade visits (b.loop p visits).2 outcomes ∧
      (b.loop p visits).1.outcomes = b.outcomes ++ outcomes ∧
      (b.loop p visits).1.attemptLog =
        b.attemptLog ++ (b.loop p visits).2.reduceOption.map (Call.attempt p) ∧
      (b.loop p visits).1.contactedLeads = b.contactedLeads ++ contacts visits outcomes := by
  induction visits generalizing b with
  | nil =>
    exact ⟨[], .nil _, (List.append_nil _).symm, (List.append_nil _).symm, (List.append_nil _).symm⟩
  | cons v visits ih =>
    have htail : b.leads.tail = visits.map Visit.lead := by rw [hleads]; rfl
    obtain ⟨c, o, hturn, hcall, houtcomes, hmade, hattempts, hcontacts⟩ :=
      visit_turn hleads ht hl hs (p := p)
    obtain ⟨hleads', ht', hl', hs'⟩ :=
      visit_frame p v.now b v.lead (visits.map Visit.lead) v.reply
    obtain ⟨outcomes, hturns, ho, ha, hc⟩ := ih hleads' (ht'.trans ht) (hl'.trans hl) (hs'.trans hs)
    rw [hmade] at hturns
    simp only [SendBatch.loop, htail]
    rw [hcall]
    refine ⟨o :: outcomes, .cons hturn hturns, ?_, ?_, ?_⟩
    · rw [ho, houtcomes, List.append_assoc, List.singleton_append]
    · rw [ha, hattempts, List.append_assoc, ← List.map_append]
      cases c <;> rfl
    · rw [hc, hcontacts, List.append_assoc]
      unfold contacts
      rw [List.zip_cons_cons, List.filterMap_cons]
      cases o.sent <;> rfl

/-! ## What the turns amount to -/

theorem madeBefore_succ (c : Option Call) (calls : List (Option Call)) (i : Nat) :
    madeBefore (c :: calls) (i + 1) = (if c.isSome then 1 else 0) + madeBefore calls i := by
  rw [madeBefore, List.take_succ_cons, List.countP_cons, Nat.add_comm]
  rfl

/-- The turn of one lead, with the calls made before it. -/
theorem Turns.get {made : Nat} {visits : List Visit} {calls : List (Option Call)}
    {outcomes : List SendOutcome} (h : Turns p q made visits calls outcomes) {i : Nat} {v : Visit}
    (hv : visits[i]? = some v) :
    ∃ c o, calls[i]? = some c ∧ outcomes[i]? = some o ∧
      Turn p q (made + madeBefore calls i) v c o := by
  induction h generalizing i with
  | nil => exact nomatch hv
  | cons first rest ih =>
    cases i with
    | zero =>
      cases hv
      exact ⟨_, _, rfl, rfl, first⟩
    | succ i =>
      obtain ⟨c, o, hc, ho, hturn⟩ := ih hv
      rw [Nat.add_assoc, ← madeBefore_succ] at hturn
      exact ⟨c, o, hc, ho, hturn⟩

theorem Turns.leads {made : Nat} {visits : List Visit} {calls : List (Option Call)}
    {outcomes : List SendOutcome} (h : Turns p q made visits calls outcomes) :
    outcomes.map SendOutcome.leadId = visits.map fun v => v.lead.id := by
  induction h with
  | nil => rfl
  | cons first rest ih =>
    rw [List.map_cons, List.map_cons, ih]
    cases first <;> rfl

theorem Turns.dueCalls {made : Nat} {visits : List Visit} {calls : List (Option Call)}
    {outcomes : List SendOutcome} (h : Turns p q made visits calls outcomes) :
    calls.reduceOption = dueCalls p q made visits := by
  induction h with
  | nil => rfl
  | cons first rest ih =>
    cases first with
    | blocked hf =>
      rw [List.reduceOption_cons_of_none, ih, Salesforce.dueCalls, hf]
      rfl
    | called hf ht =>
      rw [List.reduceOption_cons_of_some, ih, Salesforce.dueCalls, hf, ht]
      rfl

/-- The update names leads, and marks their rows. -/
theorem contact_rows (named : List (Id × Time)) (db : Database) :
    List.Forall₂ (fun before after => ((∀ t, (before.id, t) ∉ named) → after = before) ∧
      ((∃ t, (before.id, t) ∈ named) →
        ∃ t, (before.id, t) ∈ named ∧ after = markContacted t before)) db.leads.rows
      (named.foldl (fun db c => db.modifyLead c.1 (markContacted c.2) fun _ => rfl)
        db).leads.rows := by
  induction named using List.reverseRecOn with
  | nil =>
    exact List.forall₂_same.mpr fun l _ => ⟨fun _ => rfl, fun h => nomatch h.choose_spec⟩
  | append_singleton named c ih =>
    rw [List.foldl_append]
    show List.Forall₂ _ _ (List.map (fun l => if l.id = c.1 then markContacted c.2 l else l) _)
    rw [List.forall₂_map_right_iff]
    refine ih.imp fun before after h => ?_
    have hcases : after = before ∨ ∃ t, after = markContacted t before := by
      by_cases hnamed : ∃ t, (before.id, t) ∈ named
      · obtain ⟨t, -, he⟩ := h.2 hnamed
        exact Or.inr ⟨t, he⟩
      · exact Or.inl (h.1 fun t ht => hnamed ⟨t, ht⟩)
    have hid : after.id = before.id := by obtain rfl | ⟨t, rfl⟩ := hcases <;> rfl
    have hmark : markContacted c.2 after = markContacted c.2 before := by
      obtain rfl | ⟨t, rfl⟩ := hcases <;> rfl
    simp only [List.mem_append, List.mem_singleton, hid]
    by_cases hc : before.id = c.1
    · have hlast : (before.id, c.2) = c := Prod.ext hc rfl
      rw [if_pos hc]
      exact ⟨fun hnone => absurd (Or.inr hlast) (hnone c.2), fun _ => ⟨c.2, Or.inr hlast, hmark⟩⟩
    · have hne : ∀ t, (before.id, t) ≠ c := fun t he => hc (congrArg Prod.fst he)
      rw [if_neg hc]
      simp only [hne, or_false]
      exact h

theorem decides_of_turns {visits : List Visit} {calls : List (Option Call)}
    {outcomes : List SendOutcome} {db db' : Database} (h : Turns p q 0 visits calls outcomes)
    (hlogged : Logged p calls.reduceOption db db')
    (hrows : List.Forall₂ (fun before after =>
      ((∀ t, (before.id, t) ∉ contacts visits outcomes) → after = before) ∧
      ((∃ t, (before.id, t) ∈ contacts visits outcomes) →
        ∃ t, (before.id, t) ∈ contacts visits outcomes ∧ after = markContacted t before))
      db.leads.rows db'.leads.rows) : Decided p q visits calls outcomes db db' where
  called i v hv := by
    obtain ⟨c, o, hc, -, hturn⟩ := h.get hv
    rw [Nat.zero_add] at hturn
    rw [hc, ← firstFailing_eq_none]
    cases hturn with
    | blocked hf => simp [hf]
    | called hf ht => simp [hf]
  call i v c hv hc := by
    obtain ⟨c', o, hc', -, hturn⟩ := h.get hv
    obtain rfl : some c = c' := Option.some.inj (hc.symm.trans hc')
    cases hturn with
    | called hf ht => exact ⟨_, ht, rfl⟩
  leads := h.leads
  sent i v o hv ho := by
    obtain ⟨c, o', hc, ho', hturn⟩ := h.get hv
    obtain rfl : o = o' := Option.some.inj (ho.symm.trans ho')
    rw [hc]
    cases hturn with
    | blocked hf => simp
    | called hf ht => simp [Option.isSome_iff_ne_none]
  reason i v o hv ho := by
    obtain ⟨c, o', hc, ho', hturn⟩ := h.get hv
    obtain rfl : o = o' := Option.some.inj (ho.symm.trans ho')
    rw [Nat.zero_add] at hturn
    cases hturn with
    | blocked hf => simp [hf]
    | called hf ht => simp [hf]
  logged := hlogged
  contacted := by simpa only [mem_contacts] using hrows

end Loop

/-! ## The whole batch -/

section Batch

variable {p : Platform} {q : Query}

theorem sendBatch_turns (p : Platform) (q : Query) (visits : List Visit) (ended : Time)
    (db : Database) :
    ∃ (b : SendBatch) (outcomes : List SendOutcome),
      Turns p q 0 visits (sendBatch p q visits ended db).1 outcomes ∧
      b.attemptLog = (sendBatch p q visits ended db).1.reduceOption.map (Call.attempt p) ∧
      b.contactedLeads = contacts visits outcomes ∧
      (sendBatch p q visits ended db).2 =
        (b.commit ended db).map fun db' => (outcomes, db') := by
  obtain ⟨outcomes, hturns, ho, ha, hc⟩ := loop_turns (p := p) (q := q)
    (b := SendBatch.start q (visits.map Visit.lead)) rfl rfl rfl rfl
  rw [show (SendBatch.start q (visits.map Visit.lead)).outcomes ++ outcomes = outcomes from rfl] at ho
  refine ⟨_, outcomes, hturns, ha, hc, ?_⟩
  rw [sendBatch, ho]

/-- A batch decides as it is specified exactly when the answers to the calls that are due
name ids and statuses that fit, no id twice, and none that has a row by then. -/
theorem sendBatch_decides_iff (p : Platform) (q : Query) (visits : List Visit) (ended : Time)
    (db : Database) :
    DecidesAsSpecified p q visits ended db ↔ Loggable p db (dueCalls p q 0 visits) := by
  obtain ⟨b, outcomes, hturns, hattempts, hcontacts, hresult⟩ :=
    sendBatch_turns p q visits ended db
  rw [← hturns.dueCalls, ← accepts_attempts, ← hattempts, DecidesAsSpecified, hresult]
  constructor
  · intro h
    obtain ⟨_, _, hsome, -⟩ := h
    by_contra hrefused
    rw [SendBatch.commit, Database.insert, if_neg hrefused] at hsome
    cases hsome
  · intro hacc
    obtain ⟨db₁, hins⟩ : ∃ db₁, db.insert ended b.attemptLog = some db₁ := ⟨_, if_pos hacc⟩
    have hcommit : b.commit ended db = some (b.contactedLeads.foldl
        (fun db c => db.modifyLead c.1 (markContacted c.2) fun _ => rfl) db₁) := by
      rw [SendBatch.commit, hins, Option.map_some]
    have hlogged : Logged p _ db ((b.commit ended db).getD db) :=
      (commit_logged hattempts).mpr (accepts_attempts.mp (hattempts ▸ hacc))
    rw [hcommit, Option.getD_some] at hlogged
    rw [hcommit]
    refine ⟨outcomes, _, rfl, decides_of_turns hturns hlogged ?_⟩
    rw [← hcontacts, ← (Database.insert_spec hins).2.1]
    exact contact_rows b.contactedLeads db₁

end Batch

/-! ## The batches of a run -/

section Runs

variable {ν : Type} {p : Platform} {P : PhoneNumbers ν} {u v v₁ w : Org} {h : Nat}
  {es : List Label}

theorem loop_append (b : SendBatch) (visits : List Visit) (v : Visit) :
    ((b.loop p (visits ++ [v])).1 = ((b.loop p visits).1).visit p v.now v.lead
        (b.loop p visits).1.leads.tail v.reply) ∧
      (b.loop p (visits ++ [v])).2 = (b.loop p visits).2 ++
        [((b.loop p visits).1.calls p v.now).map fun c => ⟨c.1, c.2, v.now, v.reply⟩] := by
  induction visits generalizing b with
  | nil => exact ⟨rfl, rfl⟩
  | cons w visits ih =>
    obtain ⟨hb, hc⟩ := ih (b.visit p w.now w.lead b.leads.tail w.reply)
    exact ⟨hb, congrArg (_ :: ·) hc⟩

/-- The visit of the batch under `h` in a step. -/
def visitOf (h : Nat) (w : Org) : Label → Option Visit
  | .visitLead i reply =>
      if i = h then
        match w.txs h with
        | some (.send b) => b.leads.head?.map fun lead => ⟨lead, w.now, reply⟩
        | _ => none
      else none
  | _ => none

/-- The batch under `h` has got to where these visits take it from `b₀`. -/
def Visited (p : Platform) (b₀ : SendBatch) (h : Nat) (visits : List Visit) (w : Org) : Prop :=
  w.txs h = some (.send (b₀.loop p visits).1) ∧
    b₀.leads = visits.map Visit.lead ++ (b₀.loop p visits).1.leads

theorem step_visited {b₀ : SendBatch} {seen : List Visit} {e : Label} (hok : OnlyVisits h e)
    (hs : (org p P).step u e = some w) (hb : Visited p b₀ h seen u) :
    Visited p b₀ h (seen ++ (visitOf h u e).toList) w := by
  obtain ⟨hopen, hleads⟩ := hb
  by_cases hh : e.handle = some h
  · obtain ⟨reply, rfl⟩ := hok hh
    obtain ⟨b, lead, rest, hb, hrest, rfl⟩ := step_visitLead.mp hs
    rw [hopen] at hb
    cases hb
    have hvisit : visitOf h u (.visitLead h reply) = some ⟨lead, u.now, reply⟩ := by
      simp only [visitOf, if_true, hopen, hrest, List.head?_cons, Option.map_some]
    rw [hvisit, Option.toList_some, Visited, (loop_append ..).1, hrest, List.tail_cons]
    refine ⟨Org.txs_openTx .., ?_⟩
    rw [(visit_frame ..).1, List.map_append, List.append_assoc, hleads, hrest]
    rfl
  · have hnone : visitOf h u e = none := by
      cases e with
      | visitLead i reply => exact if_neg fun hi => hh (congrArg some hi)
      | _ => rfl
    rw [hnone, Option.toList_none, List.append_nil]
    exact ⟨(step_other hh hs).trans hopen, hleads⟩

/-- A batch of a run, whatever comes between its steps, is `sendBatch` on the leads and
the values that it queried. -/
theorem run_sendBatch {ids : List Id} {fault' : Bool}
    (hbegin : (org p P).step v (.beginSend h ids) = some v₁) (hes : ∀ e ∈ es, OnlyVisits h e)
    (hr : (org p P).run v₁ es = some u)
    (hend : (org p P).step u (.finish h false fault') = some w) :
    ∃ visits : List Visit,
      visits.map Visit.lead = (openBatch p v.now v.db ids).leads ∧
      w.db = ((sendBatch p ⟨approvedFirstTouchTemplate v.db.templates, p.hourlyLimit,
        sentSince v.db.messages.rows (v.now - hourMillis)⟩ visits u.now u.db).2.map
          Prod.snd).getD u.db := by
  obtain ⟨-, rfl⟩ := step_beginSend.mp hbegin
  have hinit : Visited p (openBatch p v.now v.db ids) h []
      (v.openTx h (.send (openBatch p v.now v.db ids))) := ⟨Org.txs_openTx .., rfl⟩
  have hstep : ∀ seen s e t, Visited p (openBatch p v.now v.db ids) h seen s → OnlyVisits h e →
      (org p P).step s e = some t →
      Visited p (openBatch p v.now v.db ids) h (seen ++ (visitOf h s e).toList) t :=
    fun _ _ _ _ hb hok hs => step_visited hok hs hb
  obtain ⟨hopen, hleads⟩ := (org p P).run_observe (visitOf h) hstep hinit
    ((org p P).along_of_forall fun _ e he => hes e he) hr
  obtain ⟨db, hdb, rfl⟩ := (step_finish_of_open hopen).mp hend
  simp only [Org.finished, Option.ite_none_right_eq_some, Bool.false_eq_true, if_false,
    Option.some.injEq] at hdb
  obtain ⟨hempty, rfl⟩ := hdb
  rw [hempty, List.append_nil] at hleads
  refine ⟨_, hleads.symm, ?_⟩
  have hstart : SendBatch.start ⟨approvedFirstTouchTemplate v.db.templates, p.hourlyLimit,
      sentSince v.db.messages.rows (v.now - hourMillis)⟩ (openBatch p v.now v.db ids).leads =
      openBatch p v.now v.db ids := rfl
  rw [sendBatch, ← hleads, hstart, Option.map_map]
  exact congrArg (fun o => Option.getD o u.db) Option.map_id'.symm

end Runs

/-- A status callback came first for the id that the only answer names. -/
theorem stubbed_undecided :
    ¬ DecidesAsSpecified gmtPlatform ⟨some firstTouchTemplate, 50, 0⟩
        [⟨readyLead 0 0, noon, .answered 200 sidBody⟩] noon
        (((statusCommit noon false false twins.db
          (statusQuery twins.db ⟨some "SM1".toList, some "delivered".toList⟩)).map
            Prod.fst).getD twins.db) := by
  intro h
  obtain ⟨outcomes, db', hsome, -⟩ := h
  have hraised : (sendBatch gmtPlatform ⟨some firstTouchTemplate, 50, 0⟩
      [⟨readyLead 0 0, noon, .answered 200 sidBody⟩] noon
      (((statusCommit noon false false twins.db
        (statusQuery twins.db ⟨some "SM1".toList, some "delivered".toList⟩)).map
          Prod.fst).getD twins.db)).2.isSome = false := by decide +kernel
  rw [hsome] at hraised
  exact nomatch hraised

end Outreach.Salesforce
