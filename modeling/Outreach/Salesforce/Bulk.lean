import Outreach.Library.Script
import Outreach.Salesforce.Org

/-!
# The Bulk API client: `salesforce/bulk.py`

Salesforce is the sequence of its replies: the `i`-th request of the client gets
the `i`-th reply, or raises in the transport. Each function of the client is read
as a relation between the reply it starts at, the reply after its last one, and
what it returns.
-/

namespace Outreach.Salesforce.Bulk

open Outreach.Library

set_option autoImplicit false

structure JobInfo where
  /-- `info["state"]`; `none` without one -/
  state : Option Text
  errorMessage : Option Text := none
  /-- `int(info.get("numberRecordsFailed", 0))`; `none` where `int` raises -/
  numberRecordsFailed : Option Int := some 0
  numberRecordsProcessed : Option Int := some 0

/-- A response, with what each reading of its body gives; `none` where the reading raises. -/
structure HttpResponse where
  status : Nat
  /-- what `Sforce-Limit-Info` says, if it is there -/
  apiUsage : Option (Nat × Nat) := none
  /-- `body.decode(errors="replace")` -/
  replaced : Text := []
  text : Option Text := some []
  /-- the access token and the instance -/
  token : Option (Text × Text) := none
  id : Option Text := none
  job : Option JobInfo := none

inductive Reply where
  | raises
  | response (r : HttpResponse)

inductive BulkRequest where
  | token
  | createUpsertJob (objectName externalIdField : Text)
  | uploadBatch (jobId : Text) (records : List LeadRecord)
  | closeJob (jobId : Text)
  | getJob (jobId : Text)
  | failedResults (jobId : Text)

inductive SyncError where
  | salesforceApi (status : Nat) (message : Text)
  | salesforceAuth (status : Nat)
  /-- the transport, or a body that cannot be read -/
  | other

structure Client where
  sent : List BulkRequest := []
  apiUsage : Option (Nat × Nat) := none

abbrev Session (α : Type) := ExceptT SyncError (StateM Client) α

/-- The number of requests so far, which is the number of the next reply. -/
def Client.position (c : Client) : Nat := c.sent.length

structure JobResult where
  jobId : Text
  state : Text
  processed : Int
  failed : Int
  failedResultsCsv : Option Text

def maxAttempts : Nat := 5

def retryable (status : Nat) : Bool := status = 429 || status = 503

def jobComplete : Text := "JobComplete".toList

def terminalJobStates : List Text := [jobComplete, "Failed".toList, "Aborted".toList]

def maxPolls : Nat := 240

section Client

variable (replies : Nat → Reply)

def transport (req : BulkRequest) : Session HttpResponse :=
  ExceptT.mk fun c =>
    let c' := { c with sent := c.sent ++ [req] }
    match replies c.position with
    | .raises => (.error .other, c')
    | .response r => (.ok r, c')

def recordUsage (r : HttpResponse) : Session Unit :=
  ExceptT.mk fun c => (.ok (), { c with apiUsage := r.apiUsage.or c.apiUsage })

/-- A reading that raises when it fails. -/
def readable {α : Type} (reading : Option α) : Session α :=
  match reading with
  | none => throw .other
  | some a => pure a

/-- The loop of `_request`, with the number of attempts that are left after this one. -/
def requestFrom (req : BulkRequest) : Nat → Session HttpResponse
  | 0 => do
      let r ← transport replies req
      recordUsage r
      if 400 ≤ r.status then throw (.salesforceApi r.status r.replaced) else pure r
  | left + 1 => do
      let r ← transport replies req
      recordUsage r
      if retryable r.status then requestFrom req left
      else if 400 ≤ r.status then throw (.salesforceApi r.status r.replaced)
      else pure r

def request (req : BulkRequest) : Session HttpResponse := requestFrom replies req (maxAttempts - 1)

def createUpsertJob (objectName externalIdField : Text) : Session Text := do
  let r ← request replies (.createUpsertJob objectName externalIdField)
  readable r.id

def uploadBatch (jobId : Text) (records : List LeadRecord) : Session HttpResponse :=
  request replies (.uploadBatch jobId records)

def closeJob (jobId : Text) : Session HttpResponse := request replies (.closeJob jobId)

def getJob (jobId : Text) : Session JobInfo := do
  let r ← request replies (.getJob jobId)
  readable r.job

def waitForJob (jobId : Text) : Nat → Session JobInfo
  | 0 => throw (.salesforceApi 408 ("job ".toList ++ jobId ++ " timed out after 240 polls".toList))
  | polls + 1 => do
      let info ← getJob replies jobId
      let state ← readable info.state
      if state ∈ terminalJobStates then pure info else waitForJob jobId polls

def failedResults (jobId : Text) : Session Text := do
  let r ← request replies (.failedResults jobId)
  readable r.text

/-- The body of the loop of `upsert_records`: one job for one chunk. -/
def upsertChunk (objectName externalIdField : Text) (chunk : List LeadRecord) : Session JobResult := do
  let jobId ← createUpsertJob replies objectName externalIdField
  let _ ← uploadBatch replies jobId chunk
  let _ ← closeJob replies jobId
  let info ← waitForJob replies jobId maxPolls
  let state ← readable info.state
  if state ≠ jobComplete then
    throw (.salesforceApi 500 ("job ".toList ++ jobId ++ " ended ".toList ++ state ++ ": ".toList ++
      info.errorMessage.getD "None".toList))
  else
    let failed ← readable info.numberRecordsFailed
    let processed ← readable info.numberRecordsProcessed
    if failed ≠ 0 then do
      let csv ← failedResults replies jobId
      pure ⟨jobId, state, processed, failed, some csv⟩
    else pure ⟨jobId, state, processed, failed, none⟩

/-- The result of a job, with its failures if it has any. -/
def downloaded (jobId state : Text) (failed processed : Int) : Session JobResult :=
  if failed ≠ 0 then do
    let csv ← failedResults replies jobId
    pure ⟨jobId, state, processed, failed, some csv⟩
  else pure ⟨jobId, state, processed, failed, none⟩

/-- What `upsertChunk` makes of a job that has ended. -/
def ended (jobId state : Text) (info : JobInfo) : Session JobResult :=
  if state ≠ jobComplete then
    throw (.salesforceApi 500 ("job ".toList ++ jobId ++ " ended ".toList ++ state ++ ": ".toList ++
      info.errorMessage.getD "None".toList))
  else do
    let failed ← readable info.numberRecordsFailed
    let processed ← readable info.numberRecordsProcessed
    downloaded replies jobId state failed processed

def upsertChunks (objectName externalIdField : Text) : List (List LeadRecord) → Session (List JobResult)
  | [] => pure []
  | chunk :: rest => do
      let result ← upsertChunk replies objectName externalIdField chunk
      let results ← upsertChunks objectName externalIdField rest
      pure (result :: results)

/-- `records[start : start + batch_size]` for each `start` of the `range`, which raises for a
`batch_size` of 0 and is empty for a negative one. -/
def chunks {α : Type} (batchSize : Int) (records : List α) : Option (List (List α)) :=
  if batchSize = 0 then none
  else if batchSize < 0 then some []
  else
    let size := batchSize.toNat
    some ((List.range ((records.length + size - 1) / size)).map fun k =>
      (records.drop (k * size)).take size)

def upsertRecords (objectName externalIdField : Text) (batchSize : Int)
    (records : List LeadRecord) : Session (List JobResult) := do
  let cs ← readable (chunks batchSize records)
  upsertChunks replies objectName externalIdField cs

/-! ## What the replies lead to -/

/-- A request that starts at reply `i`, with `left` attempts after the first, is answered by
`r`; reply `j` is the next one. -/
inductive Served : Nat → Nat → Nat → HttpResponse → Prop where
  | answered {left i : Nat} {r : HttpResponse} (h : replies i = .response r)
      (hok : r.status < 400) : Served left i (i + 1) r
  | retried {left i j : Nat} {r r' : HttpResponse} (h : replies i = .response r)
      (hretry : retryable r.status = true) (hrest : Served left (i + 1) j r') :
      Served (left + 1) i j r'

/-- Polling from reply `i`, at most so many times, ends with `info`. -/
inductive Polled : Nat → Nat → Nat → JobInfo → Prop where
  | ended {polls i j : Nat} {r : HttpResponse} {info : JobInfo} {state : Text}
      (h : Served replies (maxAttempts - 1) i j r) (hjob : r.job = some info)
      (hstate : info.state = some state) (hterminal : state ∈ terminalJobStates) :
      Polled (polls + 1) i j info
  | pending {polls i j k : Nat} {r : HttpResponse} {info info' : JobInfo} {state : Text}
      (h : Served replies (maxAttempts - 1) i k r) (hjob : r.job = some info)
      (hstate : info.state = some state) (hopen : state ∉ terminalJobStates)
      (hrest : Polled polls k j info') : Polled (polls + 1) i j info'

/-- The job that starts at reply `i` is created, filled, closed and found complete. -/
def Completed (i j : Nat) (jobId : Text) (info : JobInfo) : Prop :=
  ∃ i₁ i₂ i₃ r₁ r₂ r₃, Served replies (maxAttempts - 1) i i₁ r₁ ∧ r₁.id = some jobId ∧
    Served replies (maxAttempts - 1) i₁ i₂ r₂ ∧ Served replies (maxAttempts - 1) i₂ i₃ r₃ ∧
      Polled replies maxPolls i₃ j info ∧ info.state = some jobComplete

/-- The job that starts at reply `i` is complete, and its failures, if any, are downloaded. -/
def Collected (i j : Nat) (result : JobResult) : Prop :=
  ∃ k info, Completed replies i k result.jobId info ∧ result.state = jobComplete ∧
    info.numberRecordsFailed = some result.failed ∧
    info.numberRecordsProcessed = some result.processed ∧
      ((result.failed = 0 ∧ result.failedResultsCsv = none ∧ k = j) ∨
        (result.failed ≠ 0 ∧ ∃ r csv, Served replies (maxAttempts - 1) k j r ∧
          r.text = some csv ∧ result.failedResultsCsv = some csv))

/-- The jobs that start at reply `i`, one after the other. -/
inductive Jobs : Nat → Nat → List JobResult → Prop where
  | nil {i : Nat} : Jobs i i []
  | cons {i j k : Nat} {result : JobResult} {results : List JobResult}
      (h : Collected replies i k result) (hrest : Jobs k j results) : Jobs i j (result :: results)

variable {replies}

theorem retryable_ge {status : Nat} (h : retryable status = true) : 400 ≤ status := by
  simp only [retryable, Bool.or_eq_true, decide_eq_true_eq] at h
  omega

theorem Served.unique {left left' i j j' : Nat} {r r' : HttpResponse} (h : Served replies left i j r)
    (h' : Served replies left' i j' r') : j = j' ∧ r = r' := by
  induction h generalizing left' with
  | answered h hok =>
    cases h' with
    | answered h' hok' =>
      obtain rfl := Reply.response.inj (h.symm.trans h')
      exact ⟨rfl, rfl⟩
    | retried h' hretry =>
      obtain rfl := Reply.response.inj (h.symm.trans h')
      have hge := retryable_ge hretry
      omega
  | retried h hretry _ ih =>
    cases h' with
    | answered h' hok' =>
      obtain rfl := Reply.response.inj (h.symm.trans h')
      have hge := retryable_ge hretry
      omega
    | retried h' _ hrest' => exact ih hrest'

theorem Polled.unique {polls i j j' : Nat} {info info' : JobInfo} (h : Polled replies polls i j info)
    (h' : Polled replies polls i j' info') : j = j' ∧ info = info' := by
  induction h with
  | ended h hjob hstate hterminal =>
    cases h' with
    | ended h' hjob' _ _ =>
      obtain ⟨rfl, rfl⟩ := h.unique h'
      exact ⟨rfl, Option.some.inj (hjob.symm.trans hjob')⟩
    | pending h' hjob' hstate' hopen' _ =>
      obtain ⟨rfl, rfl⟩ := h.unique h'
      obtain rfl := Option.some.inj (hjob.symm.trans hjob')
      obtain rfl := Option.some.inj (hstate.symm.trans hstate')
      exact absurd hterminal hopen'
  | pending h hjob hstate hopen _ ih =>
    cases h' with
    | ended h' hjob' hstate' hterminal' =>
      obtain ⟨rfl, rfl⟩ := h.unique h'
      obtain rfl := Option.some.inj (hjob.symm.trans hjob')
      obtain rfl := Option.some.inj (hstate.symm.trans hstate')
      exact absurd hterminal' hopen
    | pending h' _ _ _ hrest' =>
      obtain ⟨rfl, -⟩ := h.unique h'
      exact ih hrest'

theorem Completed.unique {i j j' : Nat} {jobId jobId' : Text} {info info' : JobInfo}
    (h : Completed replies i j jobId info) (h' : Completed replies i j' jobId' info') :
    j = j' ∧ jobId = jobId' ∧ info = info' := by
  obtain ⟨i₁, i₂, i₃, r₁, r₂, r₃, h₁, hid, h₂, h₃, hpoll, -⟩ := h
  obtain ⟨i₁', i₂', i₃', r₁', r₂', r₃', h₁', hid', h₂', h₃', hpoll', -⟩ := h'
  obtain ⟨rfl, rfl⟩ := h₁.unique h₁'
  obtain ⟨rfl, -⟩ := h₂.unique h₂'
  obtain ⟨rfl, -⟩ := h₃.unique h₃'
  obtain ⟨rfl, rfl⟩ := hpoll.unique hpoll'
  exact ⟨rfl, Option.some.inj (hid.symm.trans hid'), rfl⟩

/-! ## The client follows the replies -/

theorem transport_raises {req : BulkRequest} {c : Client} (h : replies c.position = .raises) :
    (transport replies req).run c = (.error .other, { c with sent := c.sent ++ [req] }) := by
  show transport replies req c = _
  rw [transport, ExceptT.mk, h]

theorem transport_response {req : BulkRequest} {c : Client} {r : HttpResponse}
    (h : replies c.position = .response r) :
    (transport replies req).run c = (.ok r, { c with sent := c.sent ++ [req] }) := by
  show transport replies req c = _
  rw [transport, ExceptT.mk, h]

theorem transport_follows (req : BulkRequest) :
    Follows Client.position (transport replies req) fun i j r =>
      replies i = .response r ∧ i + 1 = j := by
  apply Follows.of_run
  intro c
  cases hreply : replies c.position with
  | raises =>
    rw [transport_raises hreply]
    exact fun r j h => nomatch h.1
  | response r =>
    rw [transport_response hreply]
    intro r' j
    rw [Reply.response.injEq]
    show r = r' ∧ c.sent.length + 1 = j ↔ r = r' ∧ (c.sent ++ [req]).length = j
    rw [List.length_append, List.length_singleton]

theorem recordUsage_follows (r : HttpResponse) :
    Follows Client.position (recordUsage r) fun i j _ => i = j := by
  apply Follows.of_run
  intro c
  have hrun : (recordUsage r).run c = (.ok (), { c with apiUsage := r.apiUsage.or c.apiUsage }) :=
    rfl
  rw [hrun]
  exact fun _ j => (and_iff_right rfl).symm

theorem readable_follows {α : Type} (reading : Option α) :
    Follows Client.position (readable reading) fun i j a => i = j ∧ reading = some a := by
  cases reading with
  | none =>
    refine (Follows.throw _).congr fun i j a => ?_
    simp
  | some b =>
    refine (Follows.pure b).congr fun i j a => ?_
    rw [Option.some.injEq, eq_comm (a := a)]

/-- One attempt, and what is made of its response. -/
theorem attempt_follows (req : BulkRequest) {f : HttpResponse → Session HttpResponse}
    {T : HttpResponse → Nat → Nat → HttpResponse → Prop}
    (hf : ∀ r, Follows Client.position (f r) (T r)) :
    Follows Client.position
      (do
        let r ← transport replies req
        recordUsage r
        f r)
      fun i j a => ∃ r, replies i = .response r ∧ T r (i + 1) j a := by
  refine ((transport_follows req).bind fun r => (recordUsage_follows r).bind fun _ => hf r).congr
    fun i j a => ?_
  constructor
  · intro h
    obtain ⟨r, _, ⟨hr, rfl⟩, _, _, rfl, ht⟩ := h
    exact ⟨r, hr, ht⟩
  · intro h
    obtain ⟨r, hr, ht⟩ := h
    exact ⟨r, i + 1, ⟨hr, rfl⟩, (), i + 1, rfl, ht⟩

theorem settle_follows (r : HttpResponse) :
    Follows Client.position
      (if 400 ≤ r.status then throw (.salesforceApi r.status r.replaced) else pure r : Session _)
      fun i j a => r.status < 400 ∧ i = j ∧ a = r := by
  split
  · refine (Follows.throw _).congr fun i j a => ?_
    simp
    omega
  · refine (Follows.pure r).congr fun i j a => ?_
    simp
    omega

theorem requestFrom_follows (req : BulkRequest) (left : Nat) :
    Follows Client.position (requestFrom replies req left) (Served replies left) := by
  induction left with
  | zero =>
    refine (attempt_follows req settle_follows).congr fun i j a => ?_
    constructor
    · intro h
      obtain ⟨r, hr, hok, rfl, rfl⟩ := h
      exact .answered hr hok
    · intro h
      cases h with
      | answered hr hok => exact ⟨a, hr, hok, rfl, rfl⟩
  | succ left ih =>
    have hrest : ∀ r : HttpResponse, Follows Client.position
        (if retryable r.status then requestFrom replies req left
          else if 400 ≤ r.status then throw (.salesforceApi r.status r.replaced) else pure r)
        fun i j a => (retryable r.status = true ∧ Served replies left i j a) ∨
          (r.status < 400 ∧ i = j ∧ a = r) := by
      intro r
      split
      · rename_i hretry
        have hge := retryable_ge hretry
        refine ih.congr fun i j a => ?_
        rw [and_iff_right hretry, or_iff_left]
        omega
      · rename_i hretry
        refine (settle_follows r).congr fun i j a => ?_
        rw [or_iff_right fun h => hretry h.1]
    refine (attempt_follows req hrest).congr fun i j a => ?_
    constructor
    · intro h
      obtain ⟨r, hr, ⟨hretry, hserved⟩ | ⟨hok, rfl, rfl⟩⟩ := h
      · exact .retried hr hretry hserved
      · exact .answered hr hok
    · intro h
      cases h with
      | answered hr hok => exact ⟨a, hr, Or.inr ⟨hok, rfl, rfl⟩⟩
      | retried hr hretry hserved => exact ⟨_, hr, Or.inl ⟨hretry, hserved⟩⟩

theorem request_follows (req : BulkRequest) :
    Follows Client.position (request replies req) (Served replies (maxAttempts - 1)) :=
  requestFrom_follows req (maxAttempts - 1)

/-- A request, and a reading of its response. -/
theorem fetch_follows {α : Type} (req : BulkRequest) (reading : HttpResponse → Option α) :
    Follows Client.position
      (do
        let r ← request replies req
        readable (reading r))
      fun i j a => ∃ r, Served replies (maxAttempts - 1) i j r ∧ reading r = some a := by
  refine ((request_follows req).bind fun r => readable_follows (reading r)).congr fun i j a => ?_
  constructor
  · intro h
    obtain ⟨r, _, hr, rfl, ha⟩ := h
    exact ⟨r, hr, ha⟩
  · intro h
    obtain ⟨r, hr, ha⟩ := h
    exact ⟨r, j, hr, rfl, ha⟩

theorem waitForJob_follows (jobId : Text) (polls : Nat) :
    Follows Client.position (waitForJob replies jobId polls) (Polled replies polls) := by
  induction polls with
  | zero =>
    refine (Follows.throw _).congr fun i j info => ?_
    exact iff_of_false id fun h => nomatch h
  | succ polls ih =>
    have hnext : ∀ (info : JobInfo) (state : Text), Follows Client.position
        (if state ∈ terminalJobStates then pure info else waitForJob replies jobId polls)
        fun i j info' => (state ∈ terminalJobStates ∧ i = j ∧ info' = info) ∨
          (state ∉ terminalJobStates ∧ Polled replies polls i j info') := by
      intro info state
      split
      · rename_i hterminal
        refine (Follows.pure info).congr fun i j info' => ?_
        rw [and_iff_right hterminal, or_iff_left fun h => h.1 hterminal]
      · rename_i hopen
        refine ih.congr fun i j info' => ?_
        rw [and_iff_right hopen, or_iff_right fun h => hopen h.1]
    refine ((fetch_follows (.getJob jobId) HttpResponse.job).bind fun info =>
      (readable_follows info.state).bind fun state => hnext info state).congr fun i j info' => ?_
    constructor
    · intro h
      obtain ⟨info, k, ⟨r, hr, hjob⟩, state, _, ⟨rfl, hstate⟩, hend⟩ := h
      rcases hend with ⟨hterminal, rfl, rfl⟩ | ⟨hopen, hrest⟩
      · exact .ended hr hjob hstate hterminal
      · exact .pending hr hjob hstate hopen hrest
    · intro h
      cases h with
      | ended hr hjob hstate hterminal =>
        exact ⟨info', j, ⟨_, hr, hjob⟩, _, j, ⟨rfl, hstate⟩, Or.inl ⟨hterminal, rfl, rfl⟩⟩
      | pending hr hjob hstate hopen hrest =>
        exact ⟨_, _, ⟨_, hr, hjob⟩, _, _, ⟨rfl, hstate⟩, Or.inr ⟨hopen, hrest⟩⟩

/-- The failures of a job, downloaded if there are any. -/
theorem download_follows (jobId state : Text) (failed processed : Int) :
    Follows Client.position (downloaded replies jobId state failed processed)
      fun i j result =>
        (failed = 0 ∧ i = j ∧ result = ⟨jobId, state, processed, failed, none⟩) ∨
          (failed ≠ 0 ∧ ∃ r csv, Served replies (maxAttempts - 1) i j r ∧ r.text = some csv ∧
            result = ⟨jobId, state, processed, failed, some csv⟩) := by
  unfold downloaded
  split
  · rename_i hfailed
    refine ((fetch_follows (.failedResults jobId) HttpResponse.text).bind fun csv =>
      Follows.pure _).congr fun i j result => ?_
    rw [or_iff_right fun h => hfailed h.1, and_iff_right hfailed]
    constructor
    · intro h
      obtain ⟨csv, _, ⟨r, hr, htext⟩, rfl, hresult⟩ := h
      exact ⟨r, csv, hr, htext, hresult⟩
    · intro h
      obtain ⟨r, csv, hr, htext, hresult⟩ := h
      exact ⟨csv, j, ⟨r, hr, htext⟩, rfl, hresult⟩
  · rename_i hfailed
    refine (Follows.pure _).congr fun i j result => ?_
    rw [and_iff_right (not_not.mp hfailed), or_iff_left fun h => hfailed h.1]

theorem ended_follows (jobId state : Text) (info : JobInfo) :
    Follows Client.position (ended replies jobId state info)
      fun i j result => state = jobComplete ∧ result.jobId = jobId ∧ result.state = state ∧
        info.numberRecordsFailed = some result.failed ∧
        info.numberRecordsProcessed = some result.processed ∧
          ((result.failed = 0 ∧ result.failedResultsCsv = none ∧ i = j) ∨
            (result.failed ≠ 0 ∧ ∃ r csv, Served replies (maxAttempts - 1) i j r ∧
              r.text = some csv ∧ result.failedResultsCsv = some csv)) := by
  unfold ended
  split
  · rename_i hne
    refine (Follows.throw _).congr fun i j result => ?_
    exact iff_of_false id fun h => hne h.1
  · rename_i heq
    refine ((readable_follows info.numberRecordsFailed).bind fun failed =>
      (readable_follows info.numberRecordsProcessed).bind fun processed =>
        download_follows jobId state failed processed).congr fun i j result => ?_
    rw [and_iff_right (not_not.mp heq)]
    constructor
    · intro h
      obtain ⟨failed, _, ⟨rfl, hfailed⟩, processed, _, ⟨rfl, hprocessed⟩, h⟩ := h
      rcases h with ⟨hzero, rfl, rfl⟩ | ⟨hpos, r, csv, hr, htext, rfl⟩
      · exact ⟨rfl, rfl, hfailed, hprocessed, Or.inl ⟨hzero, rfl, rfl⟩⟩
      · exact ⟨rfl, rfl, hfailed, hprocessed, Or.inr ⟨hpos, r, csv, hr, htext, rfl⟩⟩
    · intro h
      obtain ⟨rfl, rfl, hfailed, hprocessed, h⟩ := h
      refine ⟨result.failed, i, ⟨rfl, hfailed⟩, result.processed, i, ⟨rfl, hprocessed⟩, ?_⟩
      rcases h with ⟨hzero, hcsv, rfl⟩ | ⟨hpos, r, csv, hr, htext, hcsv⟩
      · exact Or.inl ⟨hzero, rfl, by rw [← hcsv]⟩
      · exact Or.inr ⟨hpos, r, csv, hr, htext, by rw [← hcsv]⟩

theorem upsertChunk_follows (objectName externalIdField : Text) (chunk : List LeadRecord) :
    Follows Client.position (upsertChunk replies objectName externalIdField chunk)
      (Collected replies) := by
  refine ((fetch_follows (.createUpsertJob objectName externalIdField) HttpResponse.id).bind
    fun jobId => (request_follows (.uploadBatch jobId chunk)).bind fun _ =>
      (request_follows (.closeJob jobId)).bind fun _ =>
        (waitForJob_follows jobId maxPolls).bind fun info =>
          (readable_follows info.state).bind fun state => ended_follows jobId state info).congr
    fun i j result => ?_
  constructor
  · intro h
    obtain ⟨jobId, i₁, ⟨r₁, h₁, hid⟩, r₂, i₂, h₂, r₃, i₃, h₃, info, k, hpoll, state, _,
      ⟨rfl, hstate⟩, rfl, rfl, hrstate, hfailed, hprocessed, hdown⟩ := h
    exact ⟨k, info, ⟨i₁, i₂, i₃, r₁, r₂, r₃, h₁, hid, h₂, h₃, hpoll, hstate⟩, hrstate, hfailed,
      hprocessed, hdown⟩
  · intro h
    obtain ⟨k, info, ⟨i₁, i₂, i₃, r₁, r₂, r₃, h₁, hid, h₂, h₃, hpoll, hstate⟩, hrstate, hfailed,
      hprocessed, hdown⟩ := h
    exact ⟨result.jobId, i₁, ⟨r₁, h₁, hid⟩, r₂, i₂, h₂, r₃, i₃, h₃, info, k, hpoll, jobComplete, k,
      ⟨rfl, hstate⟩, rfl, rfl, hrstate, hfailed, hprocessed, hdown⟩

theorem upsertChunks_follows (objectName externalIdField : Text) (cs : List (List LeadRecord)) :
    Follows Client.position (upsertChunks replies objectName externalIdField cs)
      fun i j results => Jobs replies i j results ∧ results.length = cs.length := by
  induction cs with
  | nil =>
    refine (Follows.pure _).congr fun i j results => ?_
    constructor
    · intro h
      obtain ⟨rfl, rfl⟩ := h
      exact ⟨.nil, rfl⟩
    · intro h
      obtain ⟨hjobs, hlen⟩ := h
      obtain rfl := List.length_eq_zero_iff.mp hlen
      cases hjobs
      exact ⟨rfl, rfl⟩
  | cons chunk cs ih =>
    refine ((upsertChunk_follows objectName externalIdField chunk).bind fun result =>
      ih.bind fun results => Follows.pure (result :: results)).congr fun i j results => ?_
    constructor
    · intro h
      obtain ⟨result, k, hresult, rest, _, ⟨hrest, hlen⟩, rfl, rfl⟩ := h
      exact ⟨.cons hresult hrest, congrArg Nat.succ hlen⟩
    · intro h
      obtain ⟨hjobs, hlen⟩ := h
      cases hjobs with
      | nil => exact nomatch hlen
      | cons hresult hrest =>
        exact ⟨_, _, hresult, _, j, ⟨hrest, Nat.succ.inj hlen⟩, rfl, rfl⟩

theorem Collected.unique {i j j' : Nat} {result result' : JobResult}
    (h : Collected replies i j result) (h' : Collected replies i j' result') : j = j' := by
  obtain ⟨k, info, hdone, -, hfailed, -, hdown⟩ := h
  obtain ⟨k', info', hdone', -, hfailed', -, hdown'⟩ := h'
  obtain ⟨rfl, -, rfl⟩ := hdone.unique hdone'
  have hsame : result.failed = result'.failed := Option.some.inj (hfailed.symm.trans hfailed')
  rcases hdown with ⟨hzero, -, rfl⟩ | ⟨hpos, r, csv, hr, -⟩
  · rcases hdown' with ⟨-, -, rfl⟩ | ⟨hpos', -⟩
    · rfl
    · exact absurd (hsame.symm.trans hzero) hpos'
  · rcases hdown' with ⟨hzero', -⟩ | ⟨-, r', csv', hr', -⟩
    · exact absurd (hsame.trans hzero') hpos
    · exact (hr.unique hr').1

/-- A longer row of jobs goes on where a shorter one ends. -/
theorem Jobs.next {i j k : Nat} {results all : List JobResult} (h : Jobs replies i k results)
    (hall : Jobs replies i j all) (hlt : results.length < all.length) :
    ∃ l, ∃ result ∈ all, Collected replies k l result := by
  induction h generalizing all with
  | nil =>
    cases hall with
    | nil => exact absurd hlt (Nat.lt_irrefl 0)
    | cons hresult _ => exact ⟨_, _, List.mem_cons_self, hresult⟩
  | cons hresult _ ih =>
    cases hall with
    | nil => exact absurd hlt (Nat.not_lt_zero _)
    | cons hresult' hrest' =>
      obtain rfl := hresult.unique hresult'
      obtain ⟨l, result, hmem, hcollected⟩ := ih hrest' (Nat.lt_of_succ_lt_succ hlt)
      exact ⟨l, result, List.mem_cons_of_mem _ hmem, hcollected⟩

end Client

end Outreach.Salesforce.Bulk
