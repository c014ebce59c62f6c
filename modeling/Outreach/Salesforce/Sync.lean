import Outreach.Salesforce.Bulk

/-!
# The sync step: `salesforce/sync.py`

The handler pushes a cleansed batch in as many jobs as it takes, and writes the
failures of all jobs after the last one has returned. When a later job raises,
the failures of the earlier ones are lost.
-/

namespace Outreach.Salesforce.Bulk

open Outreach.Library

set_option autoImplicit false

/-- `EXTERNAL_ID_FIELD` -/
def externalIdField : Text := "Outreach_External_Id__c".toList

/-- A row of the batch: its columns, by name. -/
abbrev BatchRow := Dict Text (Option Text)

/-- `str(row.get(column) or "")` -/
def column (row : BatchRow) (name : String) : Text := ((row.get? name.toList).join).getD []

def leadRecord (row : BatchRow) : LeadRecord where
  outreachExternalId := column row "external_id"
  company := column row "company_name"
  lastName :=
    let contact := column row "contact_name"
    if contact = [] then "Unknown".toList else contact
  phone := column row "phone"
  email := column row "email"

structure SyncReport where
  recordsIn : Nat
  recordsFailed : Int
  jobs : List Text
  failureKeys : List Text

def failureKey (runId jobId : Text) : Text :=
  "staging/sync-failures/".toList ++ runId ++ '/' :: (jobId ++ ".csv".toList)

/-- The metrics of `_emit_metrics`; `none` is the `ZeroDivisionError` of a limit of 0. -/
def emitMetrics (apiUsage : Option (Nat × Nat)) (recordsIn : Nat) (failed : Int) :
    Option (List (Text × Rat)) :=
  let data : List (Text × Rat) :=
    [("RecordsProcessed".toList, recordsIn), ("RecordsFailed".toList, failed)]
  match apiUsage with
  | none => some data
  | some (used, limit) =>
      if limit = 0 then none
      else some (data ++ [("ApiUsagePercent".toList, (used : Rat) / limit * 100)])

section Sync

variable (replies : Nat → Reply) (runId : Text) (batchSize : Int) (rows : List BatchRow)

def getAccessToken : Session (Text × Text) := do
  let r ← transport replies .token
  if r.status ≠ 200 then throw (.salesforceAuth r.status) else readable r.token

/-- What the handler asks of Salesforce. -/
def push : Session (List JobResult) := do
  let _ ← getAccessToken replies
  upsertRecords replies "Lead".toList externalIdField batchSize (rows.map leadRecord)

/-- The objects that are put for the results, in order. -/
def failurePuts (results : List JobResult) : List (Text × Text) :=
  results.filterMap fun result =>
    result.failedResultsCsv.map fun csv => (failureKey runId result.jobId, csv)

/-- The handler from the rows of the batch and the loaded credentials on: what it returns or
raises, and the objects that it has put. The source passes `BATCH_SIZE`. -/
def handler : Except SyncError SyncReport × List (Text × Text) :=
  if rows = [] then (.ok ⟨0, 0, [], []⟩, [])
  else
    match (push replies batchSize rows).run {} with
    | (.error e, _) => (.error e, [])
    | (.ok results, client) =>
        let puts := failurePuts runId results
        let failed := results.foldl (fun sum result => sum + result.failed) 0
        match emitMetrics client.apiUsage rows.length failed with
        | none => (.error .other, puts)
        | some _ =>
            (.ok ⟨rows.length, failed, results.map JobResult.jobId, puts.map Prod.fst⟩, puts)

/-- The number of jobs that the batch takes. -/
def jobCount : Nat := ((chunks batchSize rows).map List.length).getD 0

/-! ## Lost failures -/

/-- The first reply grants the access token. -/
def Authorized : Prop := ∃ r token, replies 0 = .response r ∧ r.status = 200 ∧ r.token = some token

/-- Before reply `k`, one of the `n` jobs is found complete, with failed records. -/
def Reported (n : Nat) (jobId : Text) (k : Nat) : Prop :=
  Authorized replies ∧ ∃ i results info failed, Jobs replies 1 i results ∧ results.length < n ∧
    Completed replies i k jobId info ∧ info.numberRecordsFailed = some failed ∧ failed ≠ 0

/-- The failures of every reported job are put under the run, as Salesforce lists them. -/
def FailuresWritten (n : Nat) (puts : List (Text × Text)) : Prop :=
  ∀ jobId k, Reported replies n jobId k → ∃ j r csv, Served replies (maxAttempts - 1) k j r ∧
    r.text = some csv ∧ (failureKey runId jobId, csv) ∈ puts

variable {replies runId batchSize rows}

theorem getAccessToken_follows :
    Follows Client.position (getAccessToken replies) fun i j token => i + 1 = j ∧
      ∃ r, replies i = .response r ∧ r.status = 200 ∧ r.token = some token := by
  have hread : ∀ r : HttpResponse, Follows Client.position
      (if r.status ≠ 200 then throw (.salesforceAuth r.status) else readable r.token : Session _)
      fun i j token => r.status = 200 ∧ i = j ∧ r.token = some token := by
    intro r
    split
    · rename_i hne
      refine (Follows.throw _).congr fun i j token => ?_
      exact iff_of_false id fun h => hne h.1
    · rename_i heq
      refine (readable_follows r.token).congr fun i j token => ?_
      rw [and_iff_right (not_not.mp heq)]
  refine ((transport_follows .token).bind hread).congr fun i j token => ?_
  constructor
  · intro h
    obtain ⟨r, _, ⟨hr, rfl⟩, hok, rfl, htoken⟩ := h
    exact ⟨rfl, r, hr, hok, htoken⟩
  · intro h
    obtain ⟨rfl, r, hr, hok, htoken⟩ := h
    exact ⟨r, i + 1, ⟨hr, rfl⟩, hok, rfl, htoken⟩

theorem length_chunks_map {α β : Type} (f : α → β) (records : List α) :
    (chunks batchSize (records.map f)).map List.length = (chunks batchSize records).map List.length := by
  unfold chunks
  split
  · rfl
  · split
    · rfl
    · simp

/-- The push returns exactly when it is let in and all its jobs go through. -/
theorem push_follows :
    Follows Client.position (push replies batchSize rows) fun i j results =>
      (∃ r token, replies i = .response r ∧ r.status = 200 ∧ r.token = some token) ∧
        Jobs replies (i + 1) j results ∧
          (chunks batchSize rows).map List.length = some results.length := by
  refine (getAccessToken_follows.bind fun _ =>
    (readable_follows (chunks batchSize (rows.map leadRecord))).bind fun cs =>
      upsertChunks_follows "Lead".toList externalIdField cs).congr fun i j results => ?_
  rw [← length_chunks_map leadRecord]
  constructor
  · intro h
    obtain ⟨token, _, ⟨rfl, r, hr, hok, htoken⟩, cs, _, ⟨rfl, hcs⟩, hjobs, hlen⟩ := h
    exact ⟨⟨r, token, hr, hok, htoken⟩, hjobs, by rw [hcs, hlen]; rfl⟩
  · intro h
    obtain ⟨⟨r, token, hr, hok, htoken⟩, hjobs, hlen⟩ := h
    obtain ⟨cs, hcs, hlen⟩ := Option.map_eq_some_iff.mp hlen
    exact ⟨token, i + 1, ⟨rfl, r, hr, hok, htoken⟩, cs, i + 1, ⟨rfl, hcs⟩, hjobs, hlen.symm⟩

theorem jobCount_nil : jobCount batchSize [] = 0 := by
  unfold jobCount chunks
  split
  · rfl
  · split
    · rfl
    · have hsize : (0 + batchSize.toNat - 1) / batchSize.toNat = 0 := by
        apply Nat.div_eq_of_lt
        omega
      simp only [List.length_nil, hsize]
      rfl

/-- What a push that returns reports is put. -/
theorem handler_of_push {results : List JobResult} {c : Client} (hrows : rows ≠ [])
    (h : Yields (push replies batchSize rows) {} results c) :
    (handler replies runId batchSize rows).2 = failurePuts runId results := by
  unfold handler
  rw [if_neg hrows]
  unfold Yields at h
  rw [h]
  dsimp only
  split <;> rfl

/-- A handler that has put something has come back from its push. -/
theorem handler_puts (h : (handler replies runId batchSize rows).2 ≠ []) :
    ∃ results c, Yields (push replies batchSize rows) {} results c := by
  unfold handler at h
  split at h
  · exact absurd rfl h
  · cases hpush : (push replies batchSize rows).run {} with
    | mk result client =>
      rw [hpush] at h
      cases result with
      | error e => exact absurd rfl h
      | ok results => exact ⟨results, client, hpush⟩

/-- The jobs of the batch go through one after the other. -/
theorem push_iff {j : Nat} {results : List JobResult} :
    (∃ c, Yields (push replies batchSize rows) {} results c ∧ c.position = j) ↔
      Authorized replies ∧ Jobs replies 1 j results ∧
        (chunks batchSize rows).map List.length = some results.length := push_follows {} results j

theorem chunks_of_pos {n : Nat} (h : n < jobCount batchSize rows) :
    (chunks batchSize rows).map List.length = some (jobCount batchSize rows) := by
  unfold jobCount at h ⊢
  cases hc : chunks batchSize rows with
  | none =>
    rw [hc] at h
    exact absurd h (Nat.not_lt_zero n)
  | some cs => rfl

/-- A reported job is one of the results of a push that went through, with its file. -/
theorem Reported.put {n k j : Nat} {jobId : Text} {all : List JobResult}
    (h : Reported replies n jobId k) (hjobs : Jobs replies 1 j all) (hlen : all.length = n) :
    ∃ l r csv, Served replies (maxAttempts - 1) k l r ∧ r.text = some csv ∧
      (failureKey runId jobId, csv) ∈ failurePuts runId all := by
  obtain ⟨-, i, results, info, failed, hresults, hlt, hdone, hfailed, hpos⟩ := h
  obtain ⟨l, result, hmem, k', info', hdone', -, hfailed', -, hdown⟩ :=
    hresults.next hjobs (hlen ▸ hlt)
  obtain ⟨rfl, rfl, rfl⟩ := hdone.unique hdone'
  obtain rfl : failed = result.failed := Option.some.inj (hfailed.symm.trans hfailed')
  obtain ⟨-, r, csv, hr, htext, hcsv⟩ := hdown.resolve_left fun hzero => hpos hzero.1
  refine ⟨l, r, csv, hr, htext, List.mem_filterMap.mpr ⟨result, hmem, ?_⟩⟩
  rw [hcsv]
  rfl

/-- The failures that Salesforce reported are all written exactly when there are none, or every
request is answered and every job goes through. -/
theorem failures_written_iff (replies : Nat → Reply) (runId : Text) (batchSize : Int)
    (rows : List BatchRow) :
    FailuresWritten replies runId (jobCount batchSize rows)
        (handler replies runId batchSize rows).2 ↔
      ((∃ jobId k, Reported replies (jobCount batchSize rows) jobId k) →
        ∃ j results, Jobs replies 1 j results ∧ results.length = jobCount batchSize rows) := by
  constructor
  · intro h hreported
    obtain ⟨jobId, k, hreported⟩ := hreported
    obtain ⟨_, _, csv, -, -, hput⟩ := h jobId k hreported
    obtain ⟨results, c, hpush⟩ := handler_puts (List.ne_nil_of_mem hput)
    obtain ⟨-, hjobs, hlen⟩ := push_iff.mp ⟨c, hpush, rfl⟩
    refine ⟨c.position, results, hjobs, ?_⟩
    rw [jobCount, hlen]
    rfl
  · intro h jobId k hreported
    obtain ⟨j, results, hjobs, hlen⟩ := h ⟨jobId, k, hreported⟩
    have hpos : 0 < jobCount batchSize rows := by
      obtain ⟨-, i, before, info, failed, -, hlt, -⟩ := hreported
      omega
    have hrows : rows ≠ [] := by
      rintro rfl
      rw [jobCount_nil] at hpos
      omega
    obtain ⟨c, hpush, -⟩ := push_iff.mpr ⟨hreported.1, hjobs, hlen ▸ chunks_of_pos hpos⟩
    rw [handler_of_push hrows hpush]
    exact hreported.put hjobs hlen

end Sync

/-- The first of two jobs completes with a failed record; the second cannot be created. -/
def secondJobRefused : Nat → Reply
  | 0 => .response { status := 200, token := some ([], []) }
  | 1 => .response { status := 200, id := some "7501".toList }
  | 2 => .response { status := 201 }
  | 3 => .response { status := 200 }
  | 4 => .response
      { status := 200
        job := some { state := some jobComplete, numberRecordsFailed := some 1 } }
  | 5 => .response { status := 200, text := some "sf__Error".toList }
  | _ => .response { status := 400 }

theorem secondJobRefused_lost :
    ¬ FailuresWritten secondJobRefused "r1".toList (jobCount 1 [Dict.empty, Dict.empty])
      (handler secondJobRefused "r1".toList 1 [Dict.empty, Dict.empty]).2 := by
  intro h
  have hserved : ∀ i r, secondJobRefused i = .response r → r.status < 400 →
      Served secondJobRefused (maxAttempts - 1) i (i + 1) r := fun _ _ => .answered
  have hdone : Completed secondJobRefused 1 5 "7501".toList
      { state := some jobComplete, numberRecordsFailed := some 1 } :=
    ⟨2, 3, 4, _, _, _, hserved 1 _ rfl (by decide), rfl, hserved 2 _ rfl (by decide),
      hserved 3 _ rfl (by decide),
      .ended (hserved 4 _ rfl (by decide)) rfl rfl List.mem_cons_self, rfl⟩
  have hreported : Reported secondJobRefused (jobCount 1 [Dict.empty, Dict.empty])
      "7501".toList 5 :=
    ⟨⟨_, _, rfl, rfl, rfl⟩, 1, [], _, 1, .nil, by decide, hdone, rfl, by decide⟩
  obtain ⟨_, _, _, -, -, hput⟩ := h _ _ hreported
  have hnone : (handler secondJobRefused "r1".toList 1 [Dict.empty, Dict.empty]).2 = [] := by
    decide +kernel
  rw [hnone] at hput
  exact nomatch hput

end Outreach.Salesforce.Bulk
