import Outreach.Salesforce.SendGate
import Outreach.Salesforce.Stored
import Mathlib.Algebra.Order.BigOperators.Group.Finset
import Mathlib.Data.Fintype.BigOperators
import Mathlib.Data.List.FinRange

/-!
# Concurrent deliveries of one inbound message

The provider may deliver a message any number of times, and the transactions of
`handleInbound` may interleave at every query and every write. A transaction sees
the committed tables and keeps its own writes to itself until it commits. The
unique index on `Provider_Message_Id__c` makes an insert wait while another open
transaction has inserted the same id, and fail once that one has committed.
-/

namespace Outreach.Salesforce

open Outreach.Library Outreach.Guardrails

set_option autoImplicit false

/-- What a transaction has written. -/
inductive Write where
  | insertMessage (createdDate : Time) (draft : MessageDraft)
  | updateMessage (messageId : Id) (v : GuardrailResult Port.ApexString) (noNumber : Bool)
  | updateLead (leadId : Id) (now : Time) (suppress : Bool)
  | enqueueJob (job : SyncJob)

/-- The guardrail fields of `update message`. -/
def setVerdict (v : GuardrailResult Port.ApexString) (noNumber : Bool) (m : MessageDraft) :
    MessageDraft :=
  { m with
    guardrailAction := some v.action
    guardrailRule := v.rule
    needsReview := m.needsReview || decide (v.action = .humanReview) ||
      (decide (v.action = .suppressAndStop) && noNumber) }

def Write.apply (db : Database) : Write → Database
  | .insertMessage createdDate draft => db.addMessage createdDate draft
  | .updateMessage messageId v noNumber => db.modifyMessage messageId (setVerdict v noNumber)
  | .updateLead leadId now suppress =>
      db.modifyLead leadId (applyReply now suppress) (applyReply_id now suppress)
  | .enqueueJob job => { db with jobs := db.jobs ++ [job] }

/-- The entry that a write holds in the unique index. -/
def Write.providerMessageId : Write → Option Text
  | .insertMessage _ draft => draft.saved.providerMessageId
  | _ => none

/-- A transaction past its insert. -/
structure Opened where
  matched : Option Lead
  messageId : Id
  writes : List Write

def Opened.write (t : Opened) (ws : List Write) : Opened := { t with writes := t.writes ++ ws }

/-- Where one delivery stands in `handleInbound`. -/
inductive Stage where
  | arrived
  | unlogged (sid : Text)
  | drafted (matched : Option Lead) (draft : MessageDraft)
  | inserted (t : Opened)
  | judged (t : Opened) (v : GuardrailResult Port.ApexString)
  | messageUpdated (t : Opened) (v : GuardrailResult Port.ApexString)
  | leadUpdated (t : Opened) (v : GuardrailResult Port.ApexString)
  | enqueued (t : Opened)
  | answered (statusCode : Nat)

namespace Stage

def uncommitted : Stage → List Write
  | .inserted t | .judged t _ | .messageUpdated t _ | .leadUpdated t _ | .enqueued t => t.writes
  | _ => []

/-- What the next step of the transaction commits. -/
def commits : Stage → List Write
  | .enqueued t => t.writes
  | _ => []

/-- The transaction has inserted the id of the draft, and not committed. -/
def holds (draft : MessageDraft) (s : Stage) : Bool :=
  match draft.saved.providerMessageId with
  | none => false
  | some sid => s.uncommitted.any fun w => decide (w.providerMessageId = some sid)

/-- The number of steps to the answer, at most. -/
def distance : Stage → Nat
  | .arrived => 8
  | .unlogged _ => 7
  | .drafted _ _ => 6
  | .inserted _ => 5
  | .judged _ _ => 4
  | .messageUpdated _ _ => 3
  | .leadUpdated _ _ => 2
  | .enqueued _ => 1
  | .answered _ => 0

end Stage

section Advance

variable (U : UnicodeData) (form : InboundForm)

/-- The next step of a delivery over the committed tables; `held` says that another open
transaction has inserted the id. `none`: the insert waits, or the delivery is answered. -/
def advance (db : Database) (now : Time) (held : MessageDraft → Bool) : Stage → Option Stage
  | .arrived =>
      match form.messageSid with
      | none => some (.answered 400)
      | some sid =>
          if isBlank (some sid) then some (.answered 400)
          else if db.logged sid then some (.answered 200)
          else some (.unlogged sid)
  | .unlogged sid =>
      let matched := matchLead db (normalizePhone form.fromNumber)
      some (.drafted matched (inboundDraft now form sid matched))
  | .drafted matched draft =>
      if ¬ db.accepts [draft] then some (.answered 200) -- the `DmlException`
      else if held draft then none
      else some (.inserted ⟨matched, db.messages.next, [.insertMessage now draft]⟩)
  | .inserted t =>
      some (.judged t (verdict U form.body ((t.matched.bind Lead.autoReplyCount).getD 0)))
  | .judged t v =>
      let noNumber := (normalizePhone form.fromNumber).isNone
      some (.messageUpdated (t.write [.updateMessage t.messageId v noNumber]) v)
  | .messageUpdated t v =>
      let suppress := decide (v.action = .suppressAndStop)
      some (.leadUpdated
        (t.write (t.matched.map fun l => .updateLead l.id now suppress).toList) v)
  | .leadUpdated t v =>
      let job : Option SyncJob := if v.action = .suppressAndStop then
          (normalizePhone form.fromNumber).map fun n => ⟨n, v.rule, t.messageId, 0⟩
        else none
      some (.enqueued (t.write (job.map .enqueueJob).toList))
  | .enqueued _ => some (.answered 200)
  | .answered _ => none

/-- The existence query answers as `inboundQuery` does. -/
theorem advance_arrived (db : Database) (now : Time) (held : MessageDraft → Bool) :
    advance U form db now held .arrived = some
      (match inboundQuery db form with
      | .answered statusCode => .answered statusCode
      | .unlogged sid _ => .unlogged sid) := by
  rw [advance, inboundQuery]
  cases form.messageSid with
  | none => rfl
  | some sid =>
    show (if _ then _ else _) = _
    by_cases hblank : isBlank (some sid) = true
    · simp only [hblank, if_true]
    · by_cases hlogged : db.logged sid
      · simp only [hblank, hlogged, if_true, Bool.false_eq_true, if_false]
      · simp only [hblank, hlogged, Bool.false_eq_true, if_false]

/-- Only an insert waits, and only behind another one. -/
theorem advance_eq_none {db : Database} {now : Time} {held : MessageDraft → Bool} {s : Stage}
    (h : advance U form db now held s = none) :
    (∃ statusCode, s = .answered statusCode) ∨
      ∃ matched draft, s = .drafted matched draft ∧ held draft = true := by
  cases s with
  | answered statusCode => exact Or.inl ⟨statusCode, rfl⟩
  | drafted matched draft =>
    refine Or.inr ⟨matched, draft, rfl, ?_⟩
    rw [advance] at h
    split at h
    · exact nomatch h
    · split at h
      · assumption
      · exact nomatch h
  | arrived =>
    rw [advance] at h
    repeat' split at h
    all_goals exact nomatch h
  | _ => exact nomatch h

theorem advance_distance {db : Database} {now : Time} {held : MessageDraft → Bool} {s s' : Stage}
    (h : advance U form db now held s = some s') : s'.distance < s.distance := by
  cases s with
  | answered statusCode => exact nomatch h
  | drafted matched draft =>
    rw [advance] at h
    split at h
    · obtain rfl := Option.some.inj h
      show 0 < 6
      omega
    · split at h
      · exact nomatch h
      · obtain rfl := Option.some.inj h
        show 5 < 6
        omega
  | arrived =>
    rw [advance] at h
    repeat' split at h
    all_goals
      obtain rfl := Option.some.inj h
      simp only [Stage.distance]
      omega
  | _ =>
    obtain rfl := Option.some.inj h
    simp only [Stage.distance]
    omega

end Advance

/-- `n` deliveries, and what has been committed by which of them. -/
structure Deliveries (n : Nat) where
  db : Database
  now : Time
  stage : Fin n → Stage
  committed : List (Fin n × Write)

inductive DeliveryLabel (n : Nat) where
  | tick (d : Nat)
  | step (i : Fin n)

namespace Deliveries

variable {n : Nat} (U : UnicodeData) (form : InboundForm) (w : Deliveries n)

/-- Another delivery than `i` holds the id of the draft. -/
def held (i : Fin n) (draft : MessageDraft) : Bool :=
  (List.finRange n).any fun j => decide (j ≠ i) && (w.stage j).holds draft

/-- Delivery `i` goes on to `s`; a commit makes its writes visible at once. -/
def goTo (i : Fin n) (s : Stage) : Deliveries n where
  db := (w.stage i).commits.foldl Write.apply w.db
  now := w.now
  stage := Function.update w.stage i s
  committed := w.committed ++ (w.stage i).commits.map (i, ·)

def machine (n : Nat) : Machine (Deliveries n) (DeliveryLabel n) where
  step w
    | .tick d => some { w with now := w.now + d }
    | .step i => (advance U form w.db w.now (w.held i) (w.stage i)).map (w.goTo i)

/-- Nothing has arrived yet. -/
def before (n : Nat) (db : Database) (now : Time) : Deliveries n :=
  ⟨db, now, fun _ => .arrived, []⟩

end Deliveries

/-! ## The writes of one delivery -/

section Writes

variable (U : UnicodeData) (form : InboundForm) (matched : Option Lead) (messageId : Id)

def verdictOn : GuardrailResult Port.ApexString :=
  verdict U form.body ((matched.bind Lead.autoReplyCount).getD 0)

def messageWrites (draft : MessageDraft) (createdDate : Time) : List Write :=
  [.insertMessage createdDate draft,
    .updateMessage messageId (verdictOn U form matched) (normalizePhone form.fromNumber).isNone]

def leadWrites (repliedAt : Time) : List Write :=
  (matched.map fun l => .updateLead l.id repliedAt
    (decide ((verdictOn U form matched).action = .suppressAndStop))).toList

def jobWrites : List Write := ((mirrorJob U form matched messageId).map .enqueueJob).toList

/-- Everything that the delivery writes whose insert goes through. -/
def deliveryWrites (draft : MessageDraft) (createdDate repliedAt : Time) : List Write :=
  messageWrites U form matched messageId draft createdDate ++ leadWrites U form matched repliedAt ++
    jobWrites U form matched messageId

end Writes

/-- Committed together, the writes are the transaction of `handleInbound` from its insert on. -/
theorem deliveryWrites_apply (U : UnicodeData) (form : InboundForm) (matched : Option Lead)
    (db : Database) (draft : MessageDraft) (createdDate repliedAt : Time) :
    (deliveryWrites U form matched db.messages.next draft createdDate repliedAt).foldl
        Write.apply db =
      persistVerdict U repliedAt form matched db.messages.next (db.addMessage createdDate draft) := by
  unfold deliveryWrites jobWrites mirrorJob persistVerdict
  extract_lets v prior v' suppress normalizedFrom db₁ db₂
  have hs : suppress = decide (v.action = .suppressAndStop) := rfl
  have hn : normalizedFrom = normalizePhone form.fromNumber := rfl
  have hleads : (messageWrites U form matched db.messages.next draft createdDate ++
      leadWrites U form matched repliedAt).foldl Write.apply db = db₂ := by
    cases matched <;> rfl
  rw [List.foldl_append, hleads, hs]
  by_cases hstop : v.action = .suppressAndStop
  · rw [if_pos hstop, decide_eq_true hstop, ← hn]
    cases normalizedFrom <;> rfl
  · rw [if_neg hstop, decide_eq_false hstop]
    rfl

/-- At one moment it is what `inboundCommit` does in one step. -/
theorem deliveryWrites_inboundCommit {U : UnicodeData} {form : InboundForm} {sid : Text}
    {matched : Option Lead} {db : Database} {now : Time}
    (hacc : db.accepts [inboundDraft now form sid matched]) :
    (deliveryWrites U form matched db.messages.next (inboundDraft now form sid matched) now
        now).foldl Write.apply db = (inboundCommit U now form sid matched false db).1 := by
  rw [deliveryWrites_apply, inboundCommit_stored U now form matched sid db hacc]

/-- The new row is the only one that the verdict goes to. -/
theorem persistVerdict_appends (U : UnicodeData) (form : InboundForm) (matched : Option Lead)
    (db : Database) (draft : MessageDraft) (createdDate repliedAt : Time) :
    (persistVerdict U repliedAt form matched db.messages.next
        (db.addMessage createdDate draft)).messages.rows =
      db.messages.rows ++
        [⟨applyVerdict U form matched draft.saved, db.messages.next, createdDate⟩] := by
  rw [(persistVerdict_writes U repliedAt form matched db.messages.next
    (db.addMessage createdDate draft)).1]
  show (db.messages.rows ++ [draft.save createdDate db.messages.next]).map _ = _
  rw [List.map_append, List.map_singleton]
  congr 1
  · refine (List.map_congr_left fun m hm => ?_).trans (List.map_id _)
    have hlt := db.messages.below m hm
    exact if_neg (Nat.ne_of_lt hlt)
  · rw [if_pos (show (draft.save createdDate db.messages.next).id = db.messages.next from rfl)]
    rfl

section Stages

variable {U : UnicodeData} {form : InboundForm} {sid : Text} {db : Database} {now : Time}
  {held : MessageDraft → Bool} {s s' : Stage}

/-- The lead that the query finds in `db`. -/
def matchedLead (form : InboundForm) (db : Database) : Option Lead :=
  matchLead db (normalizePhone form.fromNumber)

/-- The message that a delivery builds over `db`. -/
def draftOver (form : InboundForm) (sid : Text) (db : Database) (sentAt : Time) : MessageDraft :=
  inboundDraft sentAt form sid (matchedLead form db)

/-- Not inserted yet; the lead has been looked up in `db` if it has. -/
inductive Waiting (form : InboundForm) (sid : Text) (db : Database) : Stage → Prop where
  | arrived : Waiting form sid db .arrived
  | unlogged : Waiting form sid db (.unlogged sid)
  | drafted (sentAt : Time) : Waiting form sid db
      (.drafted (matchedLead form db) (draftOver form sid db sentAt))

/-- Past its insert over `db`, with a beginning of the writes of a delivery. -/
inductive Holding (U : UnicodeData) (form : InboundForm) (db : Database) (matched : Option Lead)
    (draft : MessageDraft) (createdDate : Time) : Stage → Prop where
  | inserted : Holding U form db matched draft createdDate
      (.inserted ⟨matched, db.messages.next, [.insertMessage createdDate draft]⟩)
  | judged : Holding U form db matched draft createdDate
      (.judged ⟨matched, db.messages.next, [.insertMessage createdDate draft]⟩
        (verdictOn U form matched))
  | messageUpdated : Holding U form db matched draft createdDate
      (.messageUpdated ⟨matched, db.messages.next,
        messageWrites U form matched db.messages.next draft createdDate⟩ (verdictOn U form matched))
  | leadUpdated (repliedAt : Time) : Holding U form db matched draft createdDate
      (.leadUpdated ⟨matched, db.messages.next,
        messageWrites U form matched db.messages.next draft createdDate ++
          leadWrites U form matched repliedAt⟩ (verdictOn U form matched))
  | enqueued (repliedAt : Time) : Holding U form db matched draft createdDate
      (.enqueued ⟨matched, db.messages.next,
        deliveryWrites U form matched db.messages.next draft createdDate repliedAt⟩)

/-- Nothing left to write: an answer 200, or an insert that is bound to fail. -/
inductive Over (form : InboundForm) (sid : Text) : Stage → Prop where
  | arrived : Over form sid .arrived
  | unlogged : Over form sid (.unlogged sid)
  | drafted (sentAt : Time) (matched : Option Lead) :
      Over form sid (.drafted matched (inboundDraft sentAt form sid matched))
  | answered : Over form sid (.answered 200)

theorem inboundDraft_accepted (hblank : isBlank (some sid) = false)
    (hfits : fitsIn maxProviderMessageId (some sid) = true ∧ fitsIn maxBody form.body = true)
    {sentAt : Time} {matched : Option Lead} :
    db.accepts [inboundDraft sentAt form sid matched] ↔ ¬ db.logged sid := by
  have hsaved : (inboundDraft sentAt form sid matched).saved.providerMessageId = some sid :=
    saved_of_not_blank hblank
  have hbody : fitsIn maxBody (saved form.body) = true := by
    unfold saved
    split
    · rfl
    · exact hfits.2
  have hids : providerIds ([inboundDraft sentAt form sid matched].map MessageDraft.saved) = [sid] := by
    simp [providerIds, hsaved]
  unfold Database.accepts Database.logged
  rw [hids]
  constructor
  · intro h
    exact h.2.2 sid List.mem_cons_self
  · intro h
    refine ⟨fun d hd => ?_, List.nodup_singleton sid, fun i hi => ?_⟩
    · obtain rfl := List.mem_singleton.mp hd
      unfold MessageDraft.fits
      rw [hsaved, hfits.1]
      show (true && fitsIn maxDeliveryStatus (saved (some "received".toList)) && true &&
        fitsIn maxBody (saved form.body)) = true
      rw [hbody]
      decide
    · obtain rfl := List.mem_singleton.mp hi
      exact h

theorem Waiting.commits (hs : Waiting form sid db s) : s.commits = [] := by
  cases hs <;> rfl

theorem Over.commits (hs : Over form sid s) : s.commits = [] := by
  cases hs <;> rfl

theorem Waiting.over (hs : Waiting form sid db s) : Over form sid s := by
  cases hs with
  | arrived => exact .arrived
  | unlogged => exact .unlogged
  | drafted sentAt => exact .drafted sentAt _

/-- Without a row, a delivery gets ready, and inserts if nobody else has. -/
theorem advance_waiting (hsid : form.messageSid = some sid) (hblank : isBlank (some sid) = false)
    (hfits : fitsIn maxProviderMessageId (some sid) = true ∧ fitsIn maxBody form.body = true)
    (hlogged : ¬ db.logged sid) (hs : Waiting form sid db s)
    (h : advance U form db now held s = some s') :
    Waiting form sid db s' ∨ ∃ sentAt, held (draftOver form sid db sentAt) = false ∧
      Holding U form db (matchedLead form db) (draftOver form sid db sentAt) now s' := by
  cases hs with
  | arrived =>
    rw [advance] at h
    simp only [hsid, hblank, hlogged, Bool.false_eq_true, if_false] at h
    obtain rfl := Option.some.inj h
    exact Or.inl .unlogged
  | unlogged =>
    obtain rfl := Option.some.inj h
    exact Or.inl (.drafted now)
  | drafted sentAt =>
    have hacc : db.accepts [draftOver form sid db sentAt] :=
      (inboundDraft_accepted hblank hfits).mpr hlogged
    rw [advance, if_neg (not_not.mpr hacc)] at h
    split at h
    · exact nomatch h
    · rename_i hfree
      obtain rfl := Option.some.inj h
      exact Or.inr ⟨sentAt, Bool.eq_false_of_not_eq_true hfree, .inserted⟩

/-- The holder goes through its writes one by one, and commits all of them. -/
theorem advance_holding {matched : Option Lead} {draft : MessageDraft} {createdDate : Time}
    {seen : Database} (hs : Holding U form db matched draft createdDate s)
    (h : advance U form seen now held s = some s') :
    (s.commits = [] ∧ Holding U form db matched draft createdDate s') ∨
      ∃ repliedAt, s' = .answered 200 ∧ s.commits =
        deliveryWrites U form matched db.messages.next draft createdDate repliedAt := by
  cases hs with
  | inserted =>
    obtain rfl := Option.some.inj h
    exact Or.inl ⟨rfl, .judged⟩
  | judged =>
    obtain rfl := Option.some.inj h
    exact Or.inl ⟨rfl, .messageUpdated⟩
  | messageUpdated =>
    obtain rfl := Option.some.inj h
    exact Or.inl ⟨rfl, .leadUpdated now⟩
  | leadUpdated repliedAt =>
    obtain rfl := Option.some.inj h
    exact Or.inl ⟨rfl, .enqueued repliedAt⟩
  | enqueued repliedAt =>
    obtain rfl := Option.some.inj h
    exact Or.inr ⟨repliedAt, rfl, rfl⟩

theorem Holding.holds {matched : Option Lead} {draft draft' : MessageDraft} {createdDate : Time}
    (hs : Holding U form db matched draft createdDate s)
    (hdraft : draft.saved.providerMessageId = some sid)
    (hdraft' : draft'.saved.providerMessageId = some sid) : s.holds draft' = true := by
  have hmem : .insertMessage createdDate draft ∈ s.uncommitted := by
    cases hs <;> exact List.mem_cons_self
  unfold Stage.holds
  rw [hdraft']
  exact List.any_eq_true.mpr ⟨_, hmem, decide_eq_true hdraft⟩

/-- Once there is a row, every delivery is answered 200 and writes nothing. -/
theorem advance_over (hsid : form.messageSid = some sid) (hblank : isBlank (some sid) = false)
    (hfits : fitsIn maxProviderMessageId (some sid) = true ∧ fitsIn maxBody form.body = true)
    (hlogged : db.logged sid) (hs : Over form sid s)
    (h : advance U form db now held s = some s') : Over form sid s' := by
  cases hs with
  | arrived =>
    rw [advance] at h
    simp only [hsid, hblank, hlogged, Bool.false_eq_true, if_false, if_true] at h
    obtain rfl := Option.some.inj h
    exact .answered
  | unlogged =>
    obtain rfl := Option.some.inj h
    exact .drafted now _
  | drafted sentAt matched =>
    have hrefused : ¬ db.accepts [inboundDraft sentAt form sid matched] :=
      fun hacc => (inboundDraft_accepted hblank hfits).mp hacc hlogged
    rw [advance, if_pos hrefused] at h
    obtain rfl := Option.some.inj h
    exact .answered
  | answered => exact nomatch h

end Stages

/-! ## Any number of deliveries -/

namespace Deliveries

variable {n : Nat}

/-- The effects of one delivery, made by delivery `i`, and no others. -/
structure AppliedOnce (U : UnicodeData) (form : InboundForm) (sid : Text) (db : Database)
    (w : Deliveries n) (i : Fin n) (sentAt createdDate repliedAt : Time) : Prop where
  committed : w.committed =
    (deliveryWrites U form (matchedLead form db) db.messages.next (draftOver form sid db sentAt)
      createdDate repliedAt).map (i, ·)
  messages : w.db.messages.rows = db.messages.rows ++
    [⟨applyVerdict U form (matchedLead form db) (draftOver form sid db sentAt).saved,
      db.messages.next, createdDate⟩]
  single : (w.db.messages.rows.filter fun m => m.providerMessageId = some sid).length = 1
  leads : w.db.leads.rows =
    db.leads.rows.map (afterReply U repliedAt form (matchedLead form db))
  jobs : w.db.jobs =
    db.jobs ++ (mirrorJob U form (matchedLead form db) db.messages.next).toList

/-- Every stage of a run: nobody has inserted, one delivery has, or there is a row. -/
inductive Progress (U : UnicodeData) (form : InboundForm) (sid : Text) (db : Database)
    (w : Deliveries n) : Prop where
  | waiting (hdb : w.db = db) (hnone : w.committed = []) (hlogged : ¬ db.logged sid)
      (hall : ∀ j, Waiting form sid db (w.stage j))
  | holding (i : Fin n) (sentAt createdDate : Time) (hdb : w.db = db) (hnone : w.committed = [])
      (hlogged : ¬ db.logged sid)
      (hi : Holding U form db (matchedLead form db) (draftOver form sid db sentAt) createdDate
        (w.stage i))
      (hrest : ∀ j, j ≠ i → Waiting form sid db (w.stage j))
  | settled (hlogged : w.db.logged sid) (hall : ∀ j, Over form sid (w.stage j))
      (heffects : (w.committed = [] ∧ w.db = db ∧ db.logged sid) ∨
        ∃ i sentAt createdDate repliedAt, AppliedOnce U form sid db w i sentAt createdDate repliedAt)

variable {U : UnicodeData} {form : InboundForm} {sid : Text} {db : Database}

section Frame

variable {w : Deliveries n} {i : Fin n} {s : Stage}

theorem goTo_stage_self : (w.goTo i s).stage i = s := Function.update_self _ _ _

theorem goTo_stage_ne {j : Fin n} (h : j ≠ i) : (w.goTo i s).stage j = w.stage j :=
  Function.update_of_ne h _ _

theorem goTo_quiet (h : (w.stage i).commits = []) :
    (w.goTo i s).db = w.db ∧ (w.goTo i s).committed = w.committed := by
  unfold goTo
  rw [h]
  exact ⟨rfl, List.append_nil _⟩

theorem goTo_stage {Q : Stage → Prop} {j : Fin n} (hs : Q s) (hj : j ≠ i → Q (w.stage j)) :
    Q ((w.goTo i s).stage j) := by
  by_cases h : j = i
  · rw [h, goTo_stage_self]
    exact hs
  · rw [goTo_stage_ne h]
    exact hj h

theorem held_eq_true {draft : MessageDraft} :
    w.held i draft = true ↔ ∃ j, j ≠ i ∧ (w.stage j).holds draft = true := by
  simp [held]

end Frame

theorem step_eq_some {w w' : Deliveries n} {i : Fin n} :
    (machine U form n).step w (.step i) = some w' ↔ ∃ s,
      advance U form w.db w.now (w.held i) (w.stage i) = some s ∧ w.goTo i s = w' :=
  Option.map_eq_some_iff

theorem not_logged_filter (h : ¬ db.logged sid) :
    (db.messages.rows.filter fun m => m.providerMessageId = some sid) = [] := by
  rw [List.filter_eq_nil_iff]
  intro m hm hsid
  exact h (mem_providerIds.mpr ⟨m, hm, of_decide_eq_true hsid⟩)

/-- The commit of the holder. -/
theorem appliedOnce_of_commit {w : Deliveries n} {i : Fin n} {s : Stage}
    {sentAt createdDate repliedAt : Time} (hblank : isBlank (some sid) = false)
    (hlogged : ¬ db.logged sid) (hdb : w.db = db) (hnone : w.committed = [])
    (hcommits : (w.stage i).commits =
      deliveryWrites U form (matchedLead form db) db.messages.next (draftOver form sid db sentAt)
        createdDate repliedAt) :
    AppliedOnce U form sid db (w.goTo i s) i sentAt createdDate repliedAt := by
  have happly : (w.goTo i s).db = persistVerdict U repliedAt form (matchedLead form db)
      db.messages.next (db.addMessage createdDate (draftOver form sid db sentAt)) := by
    show (w.stage i).commits.foldl Write.apply w.db = _
    rw [hcommits, hdb]
    exact deliveryWrites_apply U form _ db _ createdDate repliedAt
  have hrows := persistVerdict_appends U form (matchedLead form db) db
    (draftOver form sid db sentAt) createdDate repliedAt
  rw [← happly] at hrows
  constructor
  · show w.committed ++ (w.stage i).commits.map (i, ·) = _
    rw [hnone, hcommits, List.nil_append]
  · exact hrows
  · rw [hrows, List.filter_append, not_logged_filter hlogged, List.nil_append,
      List.filter_cons_of_pos, List.filter_nil, List.length_singleton]
    exact decide_eq_true (saved_of_not_blank hblank)
  · rw [happly]
    exact (persistVerdict_leads U repliedAt form _ _ _).1
  · rw [happly]
    exact (persistVerdict_writes U repliedAt form _ _ _).2

theorem AppliedOnce.logged {w : Deliveries n} {i : Fin n} {sentAt createdDate repliedAt : Time}
    (h : AppliedOnce U form sid db w i sentAt createdDate repliedAt) : w.db.logged sid := by
  have hpos : 0 < (w.db.messages.rows.filter fun m => m.providerMessageId = some sid).length := by
    rw [h.single]
    omega
  obtain ⟨m, hm⟩ := List.exists_mem_of_length_pos hpos
  obtain ⟨hrow, hsid⟩ := List.mem_filter.mp hm
  exact mem_providerIds.mpr ⟨m, hrow, of_decide_eq_true hsid⟩

theorem AppliedOnce.congr {w w' : Deliveries n} {i : Fin n} {sentAt createdDate repliedAt : Time}
    (h : AppliedOnce U form sid db w i sentAt createdDate repliedAt) (hdb : w'.db = w.db)
    (hcommitted : w'.committed = w.committed) :
    AppliedOnce U form sid db w' i sentAt createdDate repliedAt where
  committed := hcommitted.trans h.committed
  messages := hdb ▸ h.messages
  single := hdb ▸ h.single
  leads := hdb ▸ h.leads
  jobs := hdb ▸ h.jobs

section Request

variable (hsid : form.messageSid = some sid) (hblank : isBlank (some sid) = false)
  (hfits : fitsIn maxProviderMessageId (some sid) = true ∧ fitsIn maxBody form.body = true)
  {w : Deliveries n} {j : Fin n} {s : Stage}

include hsid hblank hfits

theorem waiting_step (hdb : w.db = db) (hnone : w.committed = []) (hlogged : ¬ db.logged sid)
    (hall : ∀ j, Waiting form sid db (w.stage j))
    (hs : advance U form db w.now (w.held j) (w.stage j) = some s) :
    Progress U form sid db (w.goTo j s) := by
  obtain ⟨hdb', hnone'⟩ := goTo_quiet (s := s) (hall j).commits
  rcases advance_waiting hsid hblank hfits hlogged (hall j) hs with hs | ⟨sentAt, -, hs⟩
  · exact .waiting (hdb'.trans hdb) (hnone'.trans hnone) hlogged
      fun k => goTo_stage hs fun _ => hall k
  · refine .holding j sentAt w.now (hdb'.trans hdb) (hnone'.trans hnone) hlogged ?_ fun k hk => ?_
    · rw [goTo_stage_self]
      exact hs
    · rw [goTo_stage_ne hk]
      exact hall k

theorem holding_step {i : Fin n} {sentAt createdDate : Time} (hdb : w.db = db)
    (hnone : w.committed = []) (hlogged : ¬ db.logged sid)
    (hi : Holding U form db (matchedLead form db) (draftOver form sid db sentAt) createdDate
      (w.stage i))
    (hrest : ∀ j, j ≠ i → Waiting form sid db (w.stage j))
    (hs : advance U form db w.now (w.held j) (w.stage j) = some s) :
    Progress U form sid db (w.goTo j s) := by
  by_cases hj : j = i
  · subst hj
    rcases advance_holding hi hs with ⟨hquiet, hs⟩ | ⟨repliedAt, rfl, hcommits⟩
    · obtain ⟨hdb', hnone'⟩ := goTo_quiet (s := s) hquiet
      refine .holding j sentAt createdDate (hdb'.trans hdb) (hnone'.trans hnone) hlogged ?_
        fun k hk => ?_
      · rw [goTo_stage_self]
        exact hs
      · rw [goTo_stage_ne hk]
        exact hrest k hk
    · have happlied := appliedOnce_of_commit (s := .answered 200) hblank hlogged hdb hnone hcommits
      exact .settled happlied.logged (fun k => goTo_stage .answered fun hk => (hrest k hk).over)
        (Or.inr ⟨j, sentAt, createdDate, repliedAt, happlied⟩)
  · obtain ⟨hdb', hnone'⟩ := goTo_quiet (s := s) (hrest j hj).commits
    rcases advance_waiting hsid hblank hfits hlogged (hrest j hj) hs with hs | ⟨sentAt', hfree, -⟩
    · refine .holding i sentAt createdDate (hdb'.trans hdb) (hnone'.trans hnone) hlogged ?_
        fun k hk => goTo_stage hs fun _ => hrest k hk
      rw [goTo_stage_ne (Ne.symm hj)]
      exact hi
    · -- the index makes the insert wait for the holder
      have hheld : w.held j (draftOver form sid db sentAt') = true :=
        held_eq_true.mpr ⟨i, Ne.symm hj, hi.holds (saved_of_not_blank hblank)
          (saved_of_not_blank hblank)⟩
      exact absurd (hheld.symm.trans hfree) (by decide)

theorem settled_step (hlogged : w.db.logged sid) (hall : ∀ j, Over form sid (w.stage j))
    (heffects : (w.committed = [] ∧ w.db = db ∧ db.logged sid) ∨
      ∃ i sentAt createdDate repliedAt, AppliedOnce U form sid db w i sentAt createdDate repliedAt)
    (hs : advance U form w.db w.now (w.held j) (w.stage j) = some s) :
    Progress U form sid db (w.goTo j s) := by
  obtain ⟨hdb', hnone'⟩ := goTo_quiet (s := s) (hall j).commits
  have hover := advance_over hsid hblank hfits hlogged (hall j) hs
  refine .settled (hdb' ▸ hlogged) (fun k => goTo_stage hover fun _ => hall k) ?_
  rcases heffects with ⟨hnone, hdb, hl⟩ | ⟨i, sentAt, createdDate, repliedAt, h⟩
  · exact Or.inl ⟨hnone'.trans hnone, hdb'.trans hdb, hl⟩
  · exact Or.inr ⟨i, sentAt, createdDate, repliedAt, h.congr hdb' hnone'⟩

theorem progress_step {w w' : Deliveries n} {e : DeliveryLabel n}
    (h : Progress U form sid db w) (hstep : (machine U form n).step w e = some w') :
    Progress U form sid db w' := by
  cases e with
  | tick d =>
    obtain rfl := Option.some.inj hstep
    cases h with
    | waiting hdb hnone hlogged hall => exact .waiting hdb hnone hlogged hall
    | holding i sentAt createdDate hdb hnone hlogged hi hrest =>
      exact .holding i sentAt createdDate hdb hnone hlogged hi hrest
    | settled hlogged hall heffects =>
      refine .settled hlogged hall (heffects.imp id fun h => ?_)
      obtain ⟨i, sentAt, createdDate, repliedAt, h⟩ := h
      exact ⟨i, sentAt, createdDate, repliedAt, h.congr rfl rfl⟩
  | step j =>
    obtain ⟨s, hs, rfl⟩ := step_eq_some.mp hstep
    cases h with
    | waiting hdb hnone hlogged hall =>
      exact waiting_step hsid hblank hfits hdb hnone hlogged hall (hdb ▸ hs)
    | holding i sentAt createdDate hdb hnone hlogged hi hrest =>
      exact holding_step hsid hblank hfits hdb hnone hlogged hi hrest (hdb ▸ hs)
    | settled hlogged hall heffects =>
      exact settled_step hsid hblank hfits hlogged hall heffects hs

theorem progress_run {es : List (DeliveryLabel n)} {now : Time}
    (hrun : (machine U form n).run (before n db now) es = some w) : Progress U form sid db w := by
  have hstart : Progress U form sid db (before n db now) := by
    by_cases hlogged : db.logged sid
    · exact .settled hlogged (fun _ => .arrived) (Or.inl ⟨rfl, rfl, hlogged⟩)
    · exact .waiting rfl rfl hlogged fun _ => .arrived
  exact (machine U form n).run_preserves
    (fun _ _ _ h hstep => progress_step hsid hblank hfits h hstep) hstart hrun

end Request

/-! ## Every delivery is answered -/

def Answered (w : Deliveries n) (i : Fin n) : Prop :=
  ∃ statusCode, w.stage i = .answered statusCode

/-- The holder of an id can go on, whoever waits for it. -/
theorem advance_of_holds {now : Time} {held : MessageDraft → Bool} {draft : MessageDraft}
    {s : Stage} (h : s.holds draft = true) : (advance U form db now held s).isSome = true := by
  rw [← Option.ne_none_iff_isSome]
  intro hnone
  have huncommitted : s.uncommitted = [] := by
    rcases advance_eq_none U form hnone with ⟨statusCode, rfl⟩ | ⟨matched, draft', rfl, -⟩
    · rfl
    · rfl
  unfold Stage.holds at h
  rw [huncommitted] at h
  split at h
  · exact nomatch h
  · exact nomatch h

/-- No deadlock: until all are answered, somebody can go on. -/
theorem answered_or_step (w : Deliveries n) :
    (∀ i, w.Answered i) ∨ ∃ i w', (machine U form n).step w (.step i) = some w' := by
  by_cases h : ∀ i, w.Answered i
  · exact Or.inl h
  · right
    obtain ⟨i, hi⟩ := not_forall.mp h
    have hgo : ∀ j, (advance U form w.db w.now (w.held j) (w.stage j)).isSome = true →
        ∃ i w', (machine U form n).step w (.step i) = some w' := by
      intro j hj
      obtain ⟨s, hs⟩ := Option.isSome_iff_exists.mp hj
      exact ⟨j, w.goTo j s, step_eq_some.mpr ⟨s, hs, rfl⟩⟩
    cases hadv : advance U form w.db w.now (w.held i) (w.stage i) with
    | some s => exact hgo i (by rw [hadv]; rfl)
    | none =>
      rcases advance_eq_none U form hadv with hans | ⟨matched, draft, -, hheld⟩
      · exact absurd hans hi
      · obtain ⟨j, -, hj⟩ := held_eq_true.mp hheld
        exact hgo j (advance_of_holds hj)

def isStep : DeliveryLabel n → Bool
  | .tick _ => false
  | .step _ => true

def remaining (w : Deliveries n) : Nat := ∑ i, (w.stage i).distance

theorem step_remaining {w w' : Deliveries n} {e : DeliveryLabel n}
    (hstep : (machine U form n).step w e = some w') :
    w'.remaining + (if isStep e then 1 else 0) ≤ w.remaining := by
  cases e with
  | tick d =>
    obtain rfl := Option.some.inj hstep
    exact le_refl _
  | step i =>
    obtain ⟨s, hs, rfl⟩ := step_eq_some.mp hstep
    have hlt : (w.goTo i s).remaining < w.remaining := by
      apply Finset.sum_lt_sum
      · intro j _
        by_cases hj : j = i
        · rw [hj, goTo_stage_self]
          exact (advance_distance U form hs).le
        · rw [goTo_stage_ne hj]
      · refine ⟨i, Finset.mem_univ i, ?_⟩
        rw [goTo_stage_self]
        exact advance_distance U form hs
    rw [isStep, if_pos rfl]
    omega

/-- Eight steps each, however they interleave. -/
theorem run_steps {es : List (DeliveryLabel n)} {w w' : Deliveries n}
    (hrun : (machine U form n).run w es = some w') :
    w'.remaining + es.countP isStep ≤ w.remaining := by
  have hstep : ∀ (seen : List (DeliveryLabel n)) u e v,
      u.remaining + seen.countP isStep ≤ w.remaining → True →
      (machine U form n).step u e = some v →
      v.remaining + (seen ++ [e]).countP isStep ≤ w.remaining := by
    intro seen u e v hq _ hstep
    have h := step_remaining hstep
    rw [List.countP_append, List.countP_singleton]
    omega
  have hstart : w.remaining + ([] : List (DeliveryLabel n)).countP isStep ≤ w.remaining :=
    le_refl _
  have hall : (machine U form n).Along (fun _ _ => True) w es :=
    (machine U form n).along_of_forall fun _ _ _ => trivial
  exact (machine U form n).run_history hstep hstart hall hrun

/-- Once one delivery is answered there is a row, and the answers are 200. -/
theorem Progress.of_answered {w : Deliveries n} {i : Fin n} {statusCode : Nat}
    (h : Progress U form sid db w) (hi : w.stage i = .answered statusCode) :
    statusCode = 200 ∧ ((w.committed = [] ∧ w.db = db ∧ db.logged sid) ∨
      ∃ i sentAt createdDate repliedAt,
        AppliedOnce U form sid db w i sentAt createdDate repliedAt) := by
  cases h with
  | waiting _ _ _ hwait =>
    have h := hwait i
    rw [hi] at h
    exact nomatch h
  | holding j _ _ _ _ _ hj hrest =>
    by_cases hij : i = j
    · rw [← hij, hi] at hj
      exact nomatch hj
    · have h := hrest i hij
      rw [hi] at h
      exact nomatch h
  | settled _ hover heffects =>
    have h := hover i
    rw [hi] at h
    cases h
    exact ⟨rfl, heffects⟩

theorem Progress.effects {w : Deliveries n} (h : Progress U form sid db w) :
    (w.committed = [] ∧ w.db = db) ∨ ∃ i sentAt createdDate repliedAt,
      AppliedOnce U form sid db w i sentAt createdDate repliedAt := by
  cases h with
  | waiting hdb hnone _ _ => exact Or.inl ⟨hnone, hdb⟩
  | holding _ _ _ hdb hnone _ _ _ => exact Or.inl ⟨hnone, hdb⟩
  | settled _ _ heffects => exact heffects.imp (fun h => ⟨h.1, h.2.1⟩) id

theorem before_remaining (db : Database) (now : Time) : (before n db now).remaining = 8 * n := by
  show ∑ _i : Fin n, 8 = 8 * n
  rw [Finset.sum_const_nat fun _ _ => rfl, Finset.card_univ, Fintype.card_fin, Nat.mul_comm]

/-- Every delivery of a message is answered 200 after at most eight steps, nobody waits for
ever, and exactly one of them logs the message, persists the verdict on it and on its lead,
and queues the mirror job if there is one. -/
theorem inbound_exactly_once (U : UnicodeData) (form : InboundForm) (sid : Text)
    (hsid : form.messageSid = some sid) (hblank : isBlank (some sid) = false)
    (hfits : fitsIn maxProviderMessageId (some sid) = true ∧ fitsIn maxBody form.body = true)
    (n : Nat) (db : Database) (now : Time) (es : List (DeliveryLabel n)) (w : Deliveries n)
    (hrun : (machine U form n).run (before n db now) es = some w) :
    (∀ i statusCode, w.stage i = .answered statusCode → statusCode = 200) ∧
      ((∀ i, w.Answered i) ∨ ∃ i w', (machine U form n).step w (.step i) = some w') ∧
      es.countP isStep ≤ 8 * n ∧
      ((w.committed = [] ∧ w.db = db) ∨ ∃ i sentAt createdDate repliedAt,
        AppliedOnce U form sid db w i sentAt createdDate repliedAt) ∧
      (¬ db.logged sid → 0 < n → (∀ i, w.Answered i) → ∃ i sentAt createdDate repliedAt,
        AppliedOnce U form sid db w i sentAt createdDate repliedAt) := by
  have hprogress := progress_run hsid hblank hfits hrun
  refine ⟨fun i statusCode hi => (hprogress.of_answered hi).1, answered_or_step w, ?_,
    hprogress.effects, fun hlogged hn hall => ?_⟩
  · have h := run_steps hrun
    rw [before_remaining] at h
    omega
  · obtain ⟨statusCode, hi⟩ := hall ⟨0, hn⟩
    exact (hprogress.of_answered hi).2.resolve_left fun h => hlogged h.2.2

/-- Two deliveries of a STOP that both find no row; the second one's insert comes too late. -/
def stopTwice : List (DeliveryLabel 2) :=
  [.step 0, .step 1, .step 0, .step 1, .step 0, .step 0, .tick 1, .step 0, .step 0, .step 0,
    .step 0, .step 1]

def allAnswered (w : Deliveries n) : Bool :=
  (List.finRange n).all fun i =>
    match w.stage i with
    | .answered _ => true
    | _ => false

theorem answered_of_all {w : Deliveries n} (h : w.allAnswered = true) (i : Fin n) : w.Answered i := by
  have hi := List.all_eq_true.mp h i (List.mem_finRange i)
  unfold Answered
  split at hi
  · rename_i statusCode hstage
    exact ⟨statusCode, hstage⟩
  · exact nomatch hi

theorem inbound_exactly_once_twins :
    ∃ w, (machine .plain stopForm 2).run (before 2 twins.db 0) stopTwice = some w ∧
      (∀ i, w.stage i = .answered 200) ∧ ∃ i sentAt createdDate repliedAt,
        AppliedOnce .plain stopForm "SM9".toList twins.db w i sentAt createdDate repliedAt := by
  have hruns : ((machine .plain stopForm 2).run (before 2 twins.db 0) stopTwice).any
      allAnswered = true := by decide +kernel
  obtain ⟨w, hw, hall⟩ := (Option.any_eq_true _ _).mp hruns
  have honce := inbound_exactly_once .plain stopForm "SM9".toList rfl (by decide) (by decide) 2
    twins.db 0 stopTwice w hw
  have hanswered := answered_of_all hall
  refine ⟨w, hw, fun i => ?_, honce.2.2.2.2 (by decide +kernel) (by omega) hanswered⟩
  obtain ⟨statusCode, hi⟩ := hanswered i
  rw [hi, honce.1 i statusCode hi]

end Deliveries

end Outreach.Salesforce
