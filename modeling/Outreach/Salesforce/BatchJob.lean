import Outreach.Library.Dict
import Outreach.Salesforce.AttemptLog
import Outreach.Salesforce.FirstTouch

/-!
# The batch job: `OutreachSendBatch.cls`

`start` queries the ready leads once, the platform cuts them into scopes, and
each `execute` is a `sendBatch` transaction of its own. Between any two steps of
the job the org may take any other. The two stateful fields are written at the
end of an `execute`, and what a transaction that fails has counted is not kept.
-/

namespace Outreach.Salesforce

open Outreach.Library Outreach.Guardrails Outreach.Cleansing

set_option autoImplicit false

def scopeSize : Nat := maxCalloutsPerRun

/-- The job: the scopes that have not been executed, and its stateful fields. -/
structure OutreachSendBatch where
  scopes : List (List Id)
  sentCount : Nat
  blockedReasons : Dict (Option BlockReason) Nat

/-- The query of `start`. -/
def readyIds (db : Database) : List Id :=
  ((db.leads.rows.filter fun l => decide (l.outreachStatus = some .ready)).insertionSort
    fun a b => a.createdDate ≤ b.createdDate).map Lead.id

/-- The outcomes of an `execute` that commits, or the leads of one that does not. -/
inductive ScopeEnd where
  | committed (outcomes : List SendOutcome)
  | lost (leadIds : List Id)

def ScopeEnd.outcomes : ScopeEnd → List SendOutcome
  | .committed outcomes => outcomes
  | .lost _ => []

def ScopeEnd.leadIds : ScopeEnd → List Id
  | .committed outcomes => outcomes.map SendOutcome.leadId
  | .lost leadIds => leadIds

/-- The leads of a scope: those visited, and those still to visit. -/
def SendBatch.scope (b : SendBatch) : List Id :=
  b.outcomes.map SendOutcome.leadId ++ b.leads.map Lead.id

namespace OutreachSendBatch

/-- The job has just been started: nothing counted, the rows of the query cut into scopes. -/
structure Started (db : Database) (job : OutreachSendBatch) : Prop where
  rows : job.scopes.flatten = readyIds db
  size : ∀ scope ∈ job.scopes, scope.length ≤ scopeSize
  sentCount : job.sentCount = 0
  blockedReasons : job.blockedReasons = .empty

/-- One turn of the loop in `execute`. -/
def tally (job : OutreachSendBatch) (outcome : SendOutcome) : OutreachSendBatch :=
  if outcome.sent then { job with sentCount := job.sentCount + 1 }
  else
    let seen := job.blockedReasons.get? outcome.reason
    { job with
      blockedReasons := job.blockedReasons.set outcome.reason (seen.elim 1 fun n => n + 1) }

end OutreachSendBatch

/-- How the `execute` under `h` ends in a step. -/
def scopeEnd (h : Nat) (w : Org) : Label → Option ScopeEnd
  | .finish i fault _ =>
      if i = h then
        match w.txs h with
        | some (.send b) =>
            if fault || (b.commit w.now w.db).isNone then some (.lost b.scope)
            else some (.committed b.outcomes)
        | _ => none
      else none
  | .abort i =>
      if i = h then
        match w.txs h with
        | some (.send b) => some (.lost b.scope)
        | _ => none
      else none
  | _ => none

/-- The org and a job whose scopes are executed under one handle. -/
structure JobOrg where
  org : Org
  job : OutreachSendBatch

section Machine

variable {ν : Type} (p : Platform) (P : PhoneNumbers ν) (h : Nat)

/-- The stateful fields after the end of an `execute`. -/
def OutreachSendBatch.counted (job : OutreachSendBatch) (ended : Option ScopeEnd) :
    OutreachSendBatch :=
  (ended.elim [] ScopeEnd.outcomes).foldl OutreachSendBatch.tally job

/-- What a step does to the job; `none` when the platform does not take it. -/
def OutreachSendBatch.next (job : OutreachSendBatch) (w : Org) : Label → Option OutreachSendBatch
  | .beginSend i ids =>
      if i = h then
        match job.scopes with
        | scope :: rest => if ids = scope then some { job with scopes := rest } else none
        | [] => none
      else some job
  | .beginInbound i _ => if i = h then none else some job
  | .beginStatus i _ => if i = h then none else some job
  | e => some (job.counted (scopeEnd h w e))

def JobOrg.step (s : JobOrg) (e : Label) : Option JobOrg :=
  (s.job.next h s.org e).bind fun job => (s.org.step p P e).map fun w => ⟨w, job⟩

def batchJob : Machine JobOrg Label := ⟨JobOrg.step p P h⟩

/-- The leads of the scope that is being executed. -/
def JobOrg.executing (s : JobOrg) : List Id :=
  match s.org.txs h with
  | some (.send b) => b.scope
  | _ => []

end Machine

/-! ## What the job counts -/

section Tally

variable {job : OutreachSendBatch}

/-- The number of outcomes that were blocked for the reason. -/
def blockedFor (reason : Option BlockReason) (outcomes : List SendOutcome) : Nat :=
  outcomes.countP fun o => !o.sent && decide (o.reason = reason)

theorem tally_scopes (outcomes : List SendOutcome) :
    (outcomes.foldl OutreachSendBatch.tally job).scopes = job.scopes := by
  induction outcomes generalizing job with
  | nil => rfl
  | cons o outcomes ih =>
    rw [List.foldl_cons, ih, OutreachSendBatch.tally]
    split <;> rfl

theorem tally_sentCount (outcomes : List SendOutcome) :
    (outcomes.foldl OutreachSendBatch.tally job).sentCount =
      job.sentCount + outcomes.countP SendOutcome.sent := by
  induction outcomes generalizing job with
  | nil => rfl
  | cons o outcomes ih =>
    rw [List.foldl_cons, ih, List.countP_cons, OutreachSendBatch.tally]
    cases o.sent with
    | true =>
      simp only [if_true]
      omega
    | false =>
      simp only [Bool.false_eq_true, if_false]
      omega

theorem tally_blocked (job : OutreachSendBatch) (outcomes : List SendOutcome) (reason : Option BlockReason) :
    ((outcomes.foldl OutreachSendBatch.tally job).blockedReasons.get? reason).getD 0 =
      (job.blockedReasons.get? reason).getD 0 + blockedFor reason outcomes := by
  induction outcomes generalizing job with
  | nil => rfl
  | cons o outcomes ih =>
    rw [List.foldl_cons, ih, blockedFor, blockedFor, List.countP_cons, OutreachSendBatch.tally]
    cases ho : o.sent with
    | true => simp
    | false =>
      simp only [Bool.false_eq_true, if_false, Dict.get?_set, Bool.not_false, Bool.true_and,
        decide_eq_true_eq]
      by_cases hr : o.reason = reason
      · rw [if_pos hr, if_pos hr, hr]
        cases job.blockedReasons.get? reason <;> simp <;> omega
      · rw [if_neg hr, if_neg hr, Nat.add_zero]

/-- Every outcome is counted, as sent or under its reason. -/
theorem tally_total (outcomes : List SendOutcome) :
    (outcomes.foldl OutreachSendBatch.tally job).sentCount +
        (outcomes.foldl OutreachSendBatch.tally job).blockedReasons.values.sum =
      job.sentCount + job.blockedReasons.values.sum + outcomes.length := by
  induction outcomes generalizing job with
  | nil => rfl
  | cons o outcomes ih =>
    rw [List.foldl_cons, ih, List.length_cons, OutreachSendBatch.tally]
    cases o.sent with
    | true =>
      simp only [if_true]
      omega
    | false =>
      simp only [Bool.false_eq_true, if_false]
      have hsum := Dict.sum_values_set job.blockedReasons o.reason
        ((job.blockedReasons.get? o.reason).elim 1 fun n => n + 1)
      cases hseen : job.blockedReasons.get? o.reason with
      | none =>
        rw [hseen] at hsum
        simp only [Option.getD_none, Option.elim_none] at hsum ⊢
        omega
      | some n =>
        rw [hseen] at hsum
        simp only [Option.getD_some, Option.elim_some] at hsum ⊢
        omega

end Tally

/-! ## What a step of the job is -/

section Steps

variable {ν : Type} {p : Platform} {P : PhoneNumbers ν} {h : Nat} {s s' : JobOrg} {e : Label}

/-- Under the handle of the job there is nothing but its batch. -/
def JobOrg.OnlyBatch (h : Nat) (s : JobOrg) : Prop :=
  ∀ tx, s.org.txs h = some tx → ∃ b, tx = .send b

theorem batchJob_step (hs : (batchJob p P h).step s e = some s') :
    (org p P).step s.org e = some s'.org ∧ s.job.next h s.org e = some s'.job := by
  obtain ⟨job, hjob, hs⟩ := Option.bind_eq_some_iff.mp hs
  obtain ⟨w, hw, rfl⟩ := Option.map_eq_some_iff.mp hs
  exact ⟨hw, hjob⟩

theorem next_other (job : OutreachSendBatch) (w : Org) (he : e.handle ≠ some h) :
    job.next h w e = some job ∧ scopeEnd h w e = none := by
  have hne : ∀ i, e.handle = some i → i ≠ h := fun i hi heq => he (heq ▸ hi)
  cases e with
  | beginSend i ids => exact ⟨if_neg (hne i rfl), rfl⟩
  | beginInbound i form => exact ⟨if_neg (hne i rfl), rfl⟩
  | beginStatus i form => exact ⟨if_neg (hne i rfl), rfl⟩
  | finish i fault fault' =>
    have hnone : scopeEnd h w (.finish i fault fault') = none := if_neg (hne i rfl)
    exact ⟨congrArg (fun ended => some (job.counted ended)) hnone, hnone⟩
  | abort i =>
    have hnone : scopeEnd h w (.abort i) = none := if_neg (hne i rfl)
    exact ⟨congrArg (fun ended => some (job.counted ended)) hnone, hnone⟩
  | _ => exact ⟨rfl, rfl⟩

theorem next_beginSend {job job' : OutreachSendBatch} {w : Org} {ids : List Id} :
    job.next h w (.beginSend h ids) = some job' ↔
      ∃ rest, job.scopes = ids :: rest ∧ job' = { job with scopes := rest } := by
  simp only [OutreachSendBatch.next, if_true]
  cases job.scopes with
  | nil => simp
  | cons scope rest =>
    by_cases hids : ids = scope
    · simp [hids, eq_comm]
    · simp [hids, Ne.symm hids]

/-- A batch that is over ends committed with its outcomes, or lost with its leads. -/
structure EndOf (b : SendBatch) (scopeEnd : ScopeEnd) : Prop where
  leadIds : scopeEnd.leadIds = b.scope
  outcomes : ∀ o ∈ scopeEnd.outcomes, o ∈ b.outcomes

theorem lost_endOf (b : SendBatch) : EndOf b (.lost b.scope) := ⟨rfl, List.forall_mem_nil _⟩

theorem committed_endOf {b : SendBatch} (hdone : b.leads = []) :
    EndOf b (.committed b.outcomes) where
  leadIds := by
    rw [SendBatch.scope, hdone, List.map_nil, List.append_nil]
    rfl
  outcomes _ ho := ho

/-- One case for each thing that can happen to the job. -/
theorem batchJob_cases (hb : s.OnlyBatch h) (hs : (batchJob p P h).step s e = some s') :
    (s'.org.txs h = s.org.txs h ∧ s'.job = s.job ∧ scopeEnd h s.org e = none ∧
      e.handle ≠ some h) ∨
    (∃ ids rest, e = .beginSend h ids ∧ s.org.txs h = none ∧ s.job.scopes = ids :: rest ∧
      s'.org = s.org.openTx h (.send (openBatch p s.org.now s.org.db ids)) ∧
      s'.job = { s.job with scopes := rest }) ∨
    (∃ reply b lead rest, e = .visitLead h reply ∧ s.org.txs h = some (.send b) ∧
      b.leads = lead :: rest ∧ s'.job = s.job ∧
      s'.org = s.org.openTx h (.send (b.visit p s.org.now lead rest reply))) ∨
    ∃ b ended, s.org.txs h = some (.send b) ∧ scopeEnd h s.org e = some ended ∧ EndOf b ended ∧
      s'.org.txs h = none ∧ s'.job = s.job.counted (some ended) ∧
      e.handle = some h ∧ ∀ reply, e ≠ .visitLead h reply := by
  obtain ⟨hw, hjob⟩ := batchJob_step hs
  by_cases he : e.handle = some h
  · cases htx : s.org.txs h with
    | none =>
      cases e with
      | beginSend i ids =>
        cases he
        obtain ⟨-, horg⟩ := step_beginSend.mp hw
        obtain ⟨rest, hscopes, hjob⟩ := next_beginSend.mp hjob
        exact Or.inr (Or.inl ⟨ids, rest, rfl, rfl, hscopes, horg, hjob⟩)
      | visitLead i reply =>
        cases he
        obtain ⟨b, _, _, hopen, -⟩ := step_visitLead.mp hw
        exact nomatch htx.symm.trans hopen
      | finish i fault fault' =>
        cases he
        obtain ⟨tx, _, hopen, -⟩ := step_finish.mp hw
        exact nomatch htx.symm.trans hopen
      | abort i =>
        cases he
        obtain ⟨⟨tx, hopen⟩, -⟩ := step_abort.mp hw
        exact nomatch htx.symm.trans hopen
      | beginInbound i form =>
        cases he
        simp only [OutreachSendBatch.next, if_true, reduceCtorEq] at hjob
      | beginStatus i form =>
        cases he
        simp only [OutreachSendBatch.next, if_true, reduceCtorEq] at hjob
      | _ => exact nomatch he
    | some tx =>
      obtain ⟨b, rfl⟩ := hb tx htx
      rcases step_of_open hw htx with ⟨hne, -⟩ | ⟨reply, lead, rest, rfl, hleads, horg⟩ |
        ⟨fault, fault', rfl, hdone, horg⟩ | ⟨rfl, horg⟩
      · exact absurd he hne
      · exact Or.inr (Or.inr (Or.inl
          ⟨reply, b, lead, rest, rfl, rfl, hleads, (Option.some.inj hjob).symm, horg⟩))
      · have hclosed : s'.org.txs h = none := horg ▸ Org.txs_close ..
        obtain ⟨ended, hended, hof⟩ : ∃ ended,
            scopeEnd h s.org (.finish h fault fault') = some ended ∧ EndOf b ended := by
          simp only [scopeEnd, if_true, htx]
          split
          · exact ⟨_, rfl, lost_endOf b⟩
          · exact ⟨_, rfl, committed_endOf hdone⟩
        exact Or.inr (Or.inr (Or.inr ⟨b, ended, rfl, hended, hof, hclosed,
          hended ▸ (Option.some.inj hjob).symm, rfl, fun _ h => nomatch h⟩))
      · have hclosed : s'.org.txs h = none := horg ▸ Org.txs_close ..
        have hended : scopeEnd h s.org (.abort h) = some (.lost b.scope) := by
          simp only [scopeEnd, if_true, htx]
        exact Or.inr (Or.inr (Or.inr ⟨b, _, rfl, hended, lost_endOf b, hclosed,
          hended ▸ (Option.some.inj hjob).symm, rfl, fun _ h => nomatch h⟩))
  · obtain ⟨hsame, hnone⟩ := next_other s.job s.org he
    rw [hsame] at hjob
    exact Or.inl ⟨step_other he hw, (Option.some.inj hjob).symm, hnone, he⟩

end Steps

/-! ## A scope -/

section Scope

variable {p : Platform} {now : Time} {b : SendBatch} {lead : Lead} {rest : List Lead}

theorem quietHours_ne_deferred (timezoneName : Option Text) :
    quietHoursBlockReason p now timezoneName ≠ some .deferred := by
  unfold quietHoursBlockReason
  split
  · exact fun h => nomatch h
  · simp only
    split_ifs <;> exact fun h => nomatch h

/-- The limit on callouts is not reached where there is room for one. -/
theorem gate_ne_deferred (hroom : b.calloutsMade < maxCalloutsPerRun) :
    b.gate p now lead ≠ .error .deferred := by
  unfold SendBatch.gate
  split
  · exact fun h => nomatch h
  · split
    · exact fun h => nomatch h
    · split
      · rename_i reason hquiet
        intro h
        exact quietHours_ne_deferred _ (hquiet.trans (congrArg some (Except.error.inj h)))
      · split
        · exact fun h => nomatch h
        · split
          · exact fun h => nomatch h
          · split
            · exact fun h => nomatch h
            · rw [if_neg (Nat.not_le.mpr hroom)]
              exact fun h => nomatch h

variable (p now lead rest) in
/-- A visit adds the outcome of its lead, and makes one callout at most. -/
theorem visit_outcome (reply : ProviderReply) (hroom : b.calloutsMade < maxCalloutsPerRun) :
    (∃ o, (b.visit p now lead rest reply).outcomes = b.outcomes ++ [o] ∧ o.leadId = lead.id ∧
      o.reason ≠ some .deferred) ∧
    (b.visit p now lead rest reply).calloutsMade ≤ b.calloutsMade + 1 := by
  unfold SendBatch.visit
  split
  · rename_i reason hgate
    refine ⟨⟨_, rfl, rfl, fun h => ?_⟩, Nat.le_succ _⟩
    rw [Option.some.inj h] at hgate
    exact gate_ne_deferred hroom hgate
  · refine ⟨⟨_, rfl, rfl, ?_⟩, le_rfl⟩
    simp only
    split_ifs <;> exact fun h => nomatch h

theorem visit_scope (reply : ProviderReply) (hroom : b.calloutsMade < maxCalloutsPerRun)
    (hleads : b.leads = lead :: rest) : (b.visit p now lead rest reply).scope = b.scope := by
  obtain ⟨⟨o, ho, hid, -⟩, -⟩ := visit_outcome p now lead rest reply hroom
  rw [SendBatch.scope, SendBatch.scope, ho, (visit_frame ..).1, hleads, List.map_append,
    List.map_singleton, hid, List.map_cons, List.append_assoc]
  rfl

variable (p now) in
/-- The query of a scope finds each of its leads once. -/
theorem openBatch_scope {db : Database} {ids : List Id} (hids : ids.Nodup)
    (hstored : ∀ i ∈ ids, ∃ l ∈ db.leads.rows, l.id = i) :
    ((openBatch p now db ids).scope).Perm ids := by
  have hscope : (openBatch p now db ids).scope =
      ((db.leads.rows.filter fun l => ids.contains l.id).insertionSort
        fun a b => a.id ≤ b.id).map Lead.id := rfl
  rw [hscope]
  refine ((List.perm_insertionSort _ _).map Lead.id).trans ?_
  have hrows : ((db.leads.rows.filter fun l => ids.contains l.id).map Lead.id).Nodup :=
    db.leads.nodup.sublist (List.filter_sublist.map Lead.id)
  refine (List.perm_ext_iff_of_nodup hrows hids).mpr fun i => ?_
  simp only [List.mem_map, List.mem_filter, List.contains_iff_mem]
  constructor
  · rintro ⟨l, ⟨-, hl⟩, rfl⟩
    exact hl
  · intro hi
    obtain ⟨l, hl, rfl⟩ := hstored i hi
    exact ⟨l, ⟨hl, hi⟩, rfl⟩

theorem readyIds_nodup (db : Database) : (readyIds db).Nodup :=
  ((List.perm_insertionSort _ _).map Lead.id).nodup_iff.mpr
    (db.leads.nodup.sublist (List.filter_sublist.map Lead.id))

theorem mem_readyIds {db : Database} {i : Id} :
    i ∈ readyIds db ↔ ∃ l ∈ db.leads.rows, l.id = i ∧ l.outreachStatus = some .ready := by
  unfold readyIds
  simp only [List.mem_map, List.mem_insertionSort, List.mem_filter, decide_eq_true_eq]
  constructor
  · rintro ⟨l, ⟨hl, hready⟩, hid⟩
    exact ⟨l, hl, hid, hready⟩
  · rintro ⟨l, hl, hid, hready⟩
    exact ⟨l, ⟨hl, hready⟩, hid⟩

end Scope

/-! ## The accounts of a job -/

section Runs

variable {ν : Type} {p : Platform} {P : PhoneNumbers ν} {h : Nat} {ready : List Id}
  {ended : List ScopeEnd} {s s' : JobOrg} {e : Label}

/-- Where the leads of the start query are, and what the job has counted. -/
structure Accounts (h : Nat) (ready : List Id) (ended : List ScopeEnd) (s : JobOrg) : Prop where
  onlyBatch : s.OnlyBatch h
  places : (ended.flatMap ScopeEnd.leadIds ++ s.executing h ++ s.job.scopes.flatten).Perm ready
  stored : ∀ i ∈ ready, ∃ l ∈ s.org.db.leads.rows, l.id = i
  size : ∀ scope ∈ s.job.scopes, scope.length ≤ scopeSize
  /-- each lead of the scope still has its callout -/
  room : ∀ b, s.org.txs h = some (.send b) → b.calloutsMade + b.leads.length ≤ scopeSize
  deferred : ∀ o ∈ ended.flatMap ScopeEnd.outcomes, o.reason ≠ some .deferred
  notDeferred : ∀ b, s.org.txs h = some (.send b) → ∀ o ∈ b.outcomes, o.reason ≠ some .deferred
  sentCount : s.job.sentCount = (ended.flatMap ScopeEnd.outcomes).countP SendOutcome.sent
  blocked : ∀ reason, (s.job.blockedReasons.get? reason).getD 0 =
    blockedFor reason (ended.flatMap ScopeEnd.outcomes)
  total : s.job.sentCount + s.job.blockedReasons.values.sum =
    (ended.flatMap ScopeEnd.outcomes).length

theorem executing_of_send {b : SendBatch} (hb : s.org.txs h = some (.send b)) :
    s.executing h = b.scope := by
  simp only [JobOrg.executing, hb]

theorem executing_of_none (hnone : s.org.txs h = none) : s.executing h = [] := by
  simp only [JobOrg.executing, hnone]

theorem onlyBatch_of_send {b : SendBatch} (hb : s.org.txs h = some (.send b)) :
    s.OnlyBatch h := by
  intro tx htx
  rw [hb, Option.some.injEq] at htx
  exact ⟨b, htx.symm⟩

theorem start_accounts {w : Org} {job : OutreachSendBatch} (hstart : job.Started w.db)
    (hfree : w.txs h = none) : Accounts h (readyIds w.db) [] ⟨w, job⟩ where
  onlyBatch tx htx := nomatch hfree.symm.trans htx
  places := by
    rw [executing_of_none hfree, hstart.rows]
    exact .refl _
  stored i hi := by
    obtain ⟨l, hl, hid, -⟩ := mem_readyIds.mp hi
    exact ⟨l, hl, hid⟩
  size := hstart.size
  room b hb := nomatch hfree.symm.trans hb
  deferred o ho := nomatch ho
  notDeferred b hb := nomatch hfree.symm.trans hb
  sentCount := hstart.sentCount
  blocked reason := by
    rw [hstart.blockedReasons]
    rfl
  total := by
    rw [hstart.sentCount, hstart.blockedReasons]
    rfl

/-- A scope is taken from the queue into its transaction. -/
theorem begin_accounts {ids : List Id} {rest : List (List Id)} (hready : ready.Nodup)
    (ha : Accounts h ready ended s) (hfree : s.org.txs h = none)
    (hscopes : s.job.scopes = ids :: rest)
    (horg : s'.org = s.org.openTx h (.send (openBatch p s.org.now s.org.db ids)))
    (hjob : s'.job = { s.job with scopes := rest }) : Accounts h ready ended s' := by
  obtain ⟨w', job'⟩ := s'
  cases horg
  cases hjob
  have hplaces := ha.places
  rw [executing_of_none hfree, List.append_nil, hscopes, List.flatten_cons] at hplaces
  have hin : ∀ i ∈ ids, i ∈ ready := fun i hi =>
    hplaces.subset (List.mem_append_right _ (List.mem_append_left _ hi))
  have hids : ids.Nodup := (List.nodup_append.mp (List.nodup_append.mp
    (hplaces.nodup_iff.mpr hready)).2.1).1
  have hscope := openBatch_scope p s.org.now hids fun i hi => ha.stored i (hin i hi)
  have hopen : ∀ b, (s.org.openTx h (.send (openBatch p s.org.now s.org.db ids))).txs h =
      some (.send b) → b = openBatch p s.org.now s.org.db ids := by
    intro b hb
    rw [Org.txs_openTx] at hb
    cases hb
    rfl
  refine ⟨onlyBatch_of_send (Org.txs_openTx ..), ?_, ha.stored, ?_, fun b hb => ?_, ha.deferred,
    fun b hb => ?_, ha.sentCount, ha.blocked, ha.total⟩
  · rw [executing_of_send (Org.txs_openTx ..), List.append_assoc]
    exact ((hscope.append_right _).append_left _).trans hplaces
  · exact fun scope hmem => ha.size scope (hscopes ▸ List.mem_cons_of_mem _ hmem)
  · rw [hopen b hb]
    have hlen := hscope.length_eq
    rw [SendBatch.scope, List.length_append, List.length_map, List.length_map] at hlen
    have hnone : (openBatch p s.org.now s.org.db ids).outcomes.length = 0 := rfl
    have hzero : (openBatch p s.org.now s.org.db ids).calloutsMade = 0 := rfl
    have hsize := ha.size ids (hscopes ▸ List.mem_cons_self)
    omega
  · rw [hopen b hb]
    exact List.forall_mem_nil _

/-- A visit moves its lead from those to visit to the outcomes. -/
theorem visit_accounts {b : SendBatch} {lead : Lead} {rest : List Lead} {reply : ProviderReply}
    (ha : Accounts h ready ended s) (hb : s.org.txs h = some (.send b))
    (hleads : b.leads = lead :: rest) (hjob : s'.job = s.job)
    (horg : s'.org = s.org.openTx h (.send (b.visit p s.org.now lead rest reply))) :
    Accounts h ready ended s' := by
  obtain ⟨w', job'⟩ := s'
  cases horg
  cases hjob
  have hcount := ha.room b hb
  rw [hleads, List.length_cons] at hcount
  have hroom : b.calloutsMade < maxCalloutsPerRun := by
    have hsize : scopeSize = maxCalloutsPerRun := rfl
    omega
  obtain ⟨⟨o, ho, -, hreason⟩, hmade⟩ :=
    visit_outcome p s.org.now lead rest reply hroom
  have hopen : ∀ c, (s.org.openTx h (.send (b.visit p s.org.now lead rest reply))).txs h =
      some (.send c) → c = b.visit p s.org.now lead rest reply := by
    intro c hc
    rw [Org.txs_openTx] at hc
    cases hc
    rfl
  refine ⟨onlyBatch_of_send (Org.txs_openTx ..), ?_, ha.stored, ha.size, fun c hc => ?_,
    ha.deferred, fun c hc o' ho' => ?_, ha.sentCount, ha.blocked, ha.total⟩
  · rw [executing_of_send (Org.txs_openTx ..), visit_scope reply hroom hleads,
      ← executing_of_send hb]
    exact ha.places
  · rw [hopen c hc, (visit_frame ..).1]
    omega
  · rw [hopen c hc, ho] at ho'
    rcases List.mem_append.mp ho' with ho' | ho'
    · exact ha.notDeferred b hb o' ho'
    · rw [List.mem_singleton.mp ho']
      exact hreason

/-- The end of an `execute` adds its outcomes, or its leads to those that are lost. -/
theorem end_accounts {b : SendBatch} {last : ScopeEnd} (ha : Accounts h ready ended s)
    (hb : s.org.txs h = some (.send b)) (hof : EndOf b last) (hclosed : s'.org.txs h = none)
    (hstored : ∀ i ∈ ready, ∃ l ∈ s'.org.db.leads.rows, l.id = i)
    (hjob : s'.job = s.job.counted (some last)) : Accounts h ready (ended ++ [last]) s' := by
  have hscopes : s'.job.scopes = s.job.scopes := by
    rw [hjob]
    exact tally_scopes _
  have hnone : ∀ tx, s'.org.txs h ≠ some tx := fun tx htx => nomatch hclosed.symm.trans htx
  refine ⟨fun tx htx => absurd htx (hnone tx), ?_, hstored, hscopes ▸ ha.size,
    fun c hc => absurd hc (hnone _), fun o ho => ?_, fun c hc => absurd hc (hnone _), ?_,
    fun reason => ?_, ?_⟩
  · rw [executing_of_none hclosed, List.append_nil, List.flatMap_append, List.flatMap_singleton,
      hscopes, hof.leadIds, ← executing_of_send hb]
    exact ha.places
  · rw [List.flatMap_append, List.flatMap_singleton] at ho
    rcases List.mem_append.mp ho with ho | ho
    · exact ha.deferred o ho
    · exact ha.notDeferred b hb o (hof.outcomes o ho)
  · rw [hjob, List.flatMap_append, List.flatMap_singleton, List.countP_append, ← ha.sentCount]
    exact tally_sentCount _
  · rw [hjob, List.flatMap_append, List.flatMap_singleton, blockedFor, List.countP_append]
    have htally := tally_blocked s.job last.outcomes reason
    rw [ha.blocked reason] at htally
    exact htally
  · rw [hjob, List.flatMap_append, List.flatMap_singleton, List.length_append, ← ha.total]
    exact tally_total _

/-- No step loses a lead of the start query, or counts one twice. -/
theorem step_accounts (hready : ready.Nodup) (ha : Accounts h ready ended s)
    (hs : (batchJob p P h).step s e = some s') :
    Accounts h ready (ended ++ (scopeEnd h s.org e).toList) s' := by
  have hstored : ∀ i ∈ ready, ∃ l ∈ s'.org.db.leads.rows, l.id = i := by
    intro i hi
    obtain ⟨l, hl, rfl⟩ := ha.stored i hi
    obtain ⟨l', hl', hid, -⟩ := (step_grows (batchJob_step hs).1).1.rows l hl
    exact ⟨l', hl', hid⟩
  rcases batchJob_cases ha.onlyBatch hs with ⟨htx, hjob, hnone, -⟩ |
    ⟨ids, rest, rfl, hfree, hscopes, horg, hjob⟩ |
    ⟨reply, b, lead, rest, rfl, hb, hleads, hjob, horg⟩ |
    ⟨b, last, hb, hlast, hof, hclosed, hjob, -⟩
  · rw [hnone, Option.toList_none, List.append_nil]
    have hexec : s'.executing h = s.executing h := by
      simp only [JobOrg.executing, htx]
    exact ⟨fun tx h => ha.onlyBatch tx (htx ▸ h), by rw [hexec, hjob]; exact ha.places, hstored,
      hjob ▸ ha.size, fun b h => ha.room b (htx ▸ h), ha.deferred,
      fun b h => ha.notDeferred b (htx ▸ h), hjob ▸ ha.sentCount, hjob ▸ ha.blocked,
      hjob ▸ ha.total⟩
  · exact List.append_nil _ ▸ begin_accounts hready ha hfree hscopes horg hjob
  · exact List.append_nil _ ▸ visit_accounts ha hb hleads hjob horg
  · rw [hlast]
    exact end_accounts ha hb hof hclosed hstored hjob

/-- How the scopes of a job end along a run. -/
def scopeEnds (p : Platform) (P : PhoneNumbers ν) (h : Nat) (s : JobOrg) (es : List Label) :
    List ScopeEnd :=
  (batchJob p P h).observe (fun s e => scopeEnd h s.org e) s es

theorem run_accounts {w : Org} {job : OutreachSendBatch} {es : List Label}
    (hstart : job.Started w.db) (hfree : w.txs h = none)
    (hr : (batchJob p P h).run ⟨w, job⟩ es = some s) :
    Accounts h (readyIds w.db) (scopeEnds p P h ⟨w, job⟩ es) s :=
  (batchJob p P h).run_observe (fun s e => scopeEnd h s.org e)
    (fun _ _ _ _ ha _ hs => step_accounts (readyIds_nodup w.db) ha hs)
    (start_accounts hstart hfree) ((batchJob p P h).along_of_forall fun _ _ _ => trivial) hr

/-- Whatever else the org does: every lead that was ready at the start is in exactly one
place, the counts are those of the committed outcomes, and no lead is ever deferred. A job
all of whose scopes have committed has counted each of its leads once. -/
theorem job_counts_each_lead {w : Org} {job : OutreachSendBatch} {es : List Label}
    (hstart : job.Started w.db) (hfree : w.txs h = none)
    (hr : (batchJob p P h).run ⟨w, job⟩ es = some s) :
    let ended := scopeEnds p P h ⟨w, job⟩ es
    let outcomes := ended.flatMap ScopeEnd.outcomes
    (ended.flatMap ScopeEnd.leadIds ++ s.executing h ++ s.job.scopes.flatten).Perm
        (readyIds w.db) ∧
      s.job.sentCount = outcomes.countP SendOutcome.sent ∧
      (∀ reason, (s.job.blockedReasons.get? reason).getD 0 = blockedFor reason outcomes) ∧
      (∀ o ∈ outcomes, o.reason ≠ some .deferred) ∧
      (s.job.scopes = [] → s.executing h = [] → (∀ x ∈ ended, ∃ out, x = .committed out) →
        s.job.sentCount + s.job.blockedReasons.values.sum = (readyIds w.db).length) := by
  intro ended outcomes
  have ha : Accounts h (readyIds w.db) ended s := run_accounts hstart hfree hr
  refine ⟨ha.places, ha.sentCount, ha.blocked, ha.deferred, fun hscopes hidle hall => ?_⟩
  have hleads : ended.flatMap ScopeEnd.leadIds = outcomes.map SendOutcome.leadId := by
    rw [List.map_flatMap]
    refine List.flatMap_congr fun x hx => ?_
    obtain ⟨out, rfl⟩ := hall x hx
    rfl
  have hplaces := ha.places
  rw [hidle, hscopes, hleads, List.append_nil, List.flatten_nil, List.append_nil] at hplaces
  rw [ha.total, ← hplaces.length_eq, List.length_map]

end Runs

/-! ## A job of two scopes -/

/-- The job on the twins, one lead to a scope. -/
def twoScopes : OutreachSendBatch := ⟨[[0], [1]], 0, .empty⟩

theorem twoScopes_started : twoScopes.Started twins.db := by
  refine ⟨by decide +kernel, ?_, rfl, rfl⟩
  decide

/-- The second answer never comes. -/
def twoScopesRun : List Label :=
  [.beginSend 0 [0], .visitLead 0 (.answered 200 sidBody), .finish 0 false false,
    .beginSend 0 [1], .visitLead 0 (.raised []), .finish 0 false false]

theorem job_counts_each_lead_twins :
    ∃ s, (batchJob gmtPlatform .e164 0).run ⟨twins, twoScopes⟩ twoScopesRun = some s ∧
      s.job.scopes = [] ∧ s.job.sentCount = 1 ∧
      ((scopeEnds gmtPlatform .e164 0 ⟨twins, twoScopes⟩ twoScopesRun).flatMap ScopeEnd.leadIds ++
        s.executing 0 ++ s.job.scopes.flatten).Perm (readyIds twins.db) := by
  have hruns : ((batchJob gmtPlatform .e164 0).run ⟨twins, twoScopes⟩ twoScopesRun).map
      (fun s => (s.job.scopes, s.job.sentCount)) = some ([], 1) := by decide +kernel
  obtain ⟨s, hs, hjob⟩ := Option.map_eq_some_iff.mp hruns
  obtain ⟨hscopes, hsent⟩ := Prod.mk.injEq .. ▸ hjob
  exact ⟨s, hs, hscopes, hsent, (job_counts_each_lead twoScopes_started rfl hs).1⟩

/-! ## The calls of a job -/

section Calls

variable {ν : Type} {p : Platform} {P : PhoneNumbers ν} {h : Nat} {ready : List Id}
  {s s' : JobOrg} {e : Label}

/-- The leads that the job can still call the provider for. -/
def JobOrg.uncalled (h : Nat) (s : JobOrg) : List Id :=
  (match s.org.txs h with
    | some (.send b) => b.leads.map Lead.id
    | _ => []) ++ s.job.scopes.flatten

/-- Who has been called is not called again. -/
structure CalledOnce (h : Nat) (ready : List Id) (calls : List Call) (s : JobOrg) : Prop where
  onlyBatch : s.OnlyBatch h
  once : (calls.map (fun c => c.lead.id) ++ s.uncalled h).Subperm ready

theorem uncalled_of_send {b : SendBatch} (hb : s.org.txs h = some (.send b)) :
    s.uncalled h = b.leads.map Lead.id ++ s.job.scopes.flatten := by
  simp only [JobOrg.uncalled, hb]

theorem uncalled_of_none (hnone : s.org.txs h = none) : s.uncalled h = s.job.scopes.flatten := by
  simp only [JobOrg.uncalled, hnone, List.nil_append]

theorem callOf_of_not_visit (he : ∀ reply, e ≠ .visitLead h reply) : callOf p h s.org e = none := by
  cases e with
  | visitLead i reply =>
    refine if_neg fun hi => he reply ?_
    rw [hi]
  | _ => rfl

theorem openBatch_subperm (p : Platform) (now : Time) (db : Database) (ids : List Id) :
    ((openBatch p now db ids).leads.map Lead.id).Subperm ids := by
  have hrows : ((openBatch p now db ids).leads.map Lead.id).Nodup := by
    have hhandled : (openBatch p now db ids).handled.Nodup := openBatch_handled db ids
    exact hhandled
  refine List.subperm_of_subset hrows fun i hi => ?_
  obtain ⟨l, hl, rfl⟩ := List.mem_map.mp hi
  exact (mem_openBatch.mp hl).2

theorem step_calledOnce {calls : List Call} (hc : CalledOnce h ready calls s)
    (hs : (batchJob p P h).step s e = some s') :
    CalledOnce h ready (calls ++ (callOf p h s.org e).toList) s' := by
  rcases batchJob_cases hc.onlyBatch hs with ⟨htx, hjob, -, he⟩ |
    ⟨ids, rest, rfl, hfree, hscopes, horg, hjob⟩ |
    ⟨reply, b, lead, rest, rfl, hb, hleads, hjob, horg⟩ |
    ⟨b, last, hb, -, -, hclosed, hjob, -, he⟩
  · have hno : ∀ reply, e ≠ .visitLead h reply := by
      rintro reply rfl
      exact he rfl
    rw [callOf_of_not_visit hno, Option.toList_none, List.append_nil]
    have hsame : s'.uncalled h = s.uncalled h := by
      simp only [JobOrg.uncalled, htx, hjob]
    exact ⟨fun tx h => hc.onlyBatch tx (htx ▸ h), hsame ▸ hc.once⟩
  · have htx : s'.org.txs h = some (.send (openBatch p s.org.now s.org.db ids)) :=
      horg ▸ Org.txs_openTx ..
    refine ⟨onlyBatch_of_send htx, ?_⟩
    have honce := hc.once
    rw [uncalled_of_none hfree, hscopes, List.flatten_cons] at honce
    have hno : ∀ reply, Label.beginSend h ids ≠ .visitLead h reply := by
      intro reply hlabel
      cases hlabel
    rw [uncalled_of_send htx, hjob, callOf_of_not_visit hno, Option.toList_none, List.append_nil]
    have hsub := (List.subperm_append_right rest.flatten).mpr
      (openBatch_subperm p s.org.now s.org.db ids)
    exact ((List.subperm_append_left _).mpr hsub).trans honce
  · have htx : s'.org.txs h = some (.send (b.visit p s.org.now lead rest reply)) :=
      horg ▸ Org.txs_openTx ..
    refine ⟨onlyBatch_of_send htx, ?_⟩
    have honce := hc.once
    rw [uncalled_of_send hb, hleads, List.map_cons, List.cons_append] at honce
    rw [uncalled_of_send htx, hjob, (visit_frame ..).1]
    cases hcall : callOf p h s.org (.visitLead h reply) with
    | none =>
      rw [Option.toList_none, List.append_nil]
      exact ((List.subperm_append_left _).mpr (List.sublist_cons_self _ _).subperm).trans honce
    | some c =>
      have hlead : c.lead = lead := by
        simp only [callOf, if_true, Option.map_eq_some_iff, Prod.exists] at hcall
        obtain ⟨l, t, hcall, rfl⟩ := hcall
        obtain ⟨b', rest', hb', hl, -⟩ := Org.calls_eq_some.mp hcall
        rw [hb] at hb'
        cases hb'
        rw [hleads] at hl
        exact (List.cons.inj hl).1.symm
      rw [Option.toList_some, List.map_append, List.map_singleton, hlead, List.append_assoc]
      exact honce
  · refine ⟨fun tx htx => absurd (hclosed.symm.trans htx) (Option.some_ne_none tx).symm, ?_⟩
    have hscopes : s'.job.scopes = s.job.scopes := by
      rw [hjob]
      exact tally_scopes _
    have honce := hc.once
    rw [uncalled_of_send hb] at honce
    rw [uncalled_of_none hclosed, hscopes, callOf_of_not_visit he, Option.toList_none,
      List.append_nil]
    exact ((List.subperm_append_left _).mpr (List.sublist_append_right _ _).subperm).trans honce

/-- However the scopes end and whatever else the org does, a job calls the provider at
most once for a lead, and only for leads that were ready when it started. -/
theorem job_calls_once {w : Org} {job : OutreachSendBatch} {es : List Label}
    (hstart : job.Started w.db) (hfree : w.txs h = none)
    (hr : (batchJob p P h).run ⟨w, job⟩ es = some s) :
    let calls := (batchJob p P h).observe (fun s e => callOf p h s.org e) ⟨w, job⟩ es
    (calls.map fun c => c.lead.id).Nodup ∧ ∀ c ∈ calls, c.lead.id ∈ readyIds w.db := by
  intro calls
  have hinit : CalledOnce h (readyIds w.db) [] ⟨w, job⟩ := by
    refine ⟨fun tx htx => (nomatch hfree.symm.trans htx), ?_⟩
    rw [uncalled_of_none hfree, hstart.rows]
    exact .refl _
  have hc := (batchJob p P h).run_observe (fun s e => callOf p h s.org e)
    (fun _ _ _ _ hc _ hs => step_calledOnce hc hs) hinit
    ((batchJob p P h).along_of_forall fun _ _ _ => trivial) hr
  have hsub : (calls.map fun c => c.lead.id).Subperm (readyIds w.db) :=
    (List.sublist_append_left _ _).subperm.trans hc.once
  refine ⟨?_, fun c hmem => hsub.subset (List.mem_map_of_mem hmem)⟩
  obtain ⟨l, hperm, hl⟩ := hsub
  exact hperm.nodup_iff.mp (hl.nodup (readyIds_nodup w.db))

end Calls

theorem job_calls_once_twins :
    ∃ s, (batchJob gmtPlatform .e164 0).run ⟨twins, twoScopes⟩ twoScopesRun = some s ∧
      (((batchJob gmtPlatform .e164 0).observe (fun s e => callOf gmtPlatform 0 s.org e)
        ⟨twins, twoScopes⟩ twoScopesRun).map fun c => c.lead.id).Nodup := by
  have hruns : ((batchJob gmtPlatform .e164 0).run ⟨twins, twoScopes⟩ twoScopesRun).isSome =
      true := by decide +kernel
  obtain ⟨s, hs⟩ := Option.isSome_iff_exists.mp hruns
  exact ⟨s, hs, (job_calls_once twoScopes_started rfl hs).1⟩

end Outreach.Salesforce
