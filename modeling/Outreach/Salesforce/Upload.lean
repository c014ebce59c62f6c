import Outreach.Library.Csv
import Outreach.Salesforce.Bulk
import Mathlib.Algebra.Order.Floor.Div

/-!
# What is uploaded

The records go up in slices, each as the CSV body of a job of its own. A request
that has to be sent again counts once, when it is accepted.
-/

namespace Outreach.Salesforce.Bulk

open Outreach.Library

set_option autoImplicit false

/-- The values of `FIELD_MAP`, which are the keys of every record. -/
def leadFields : List Text :=
  ["Outreach_External_Id__c".toList, "Company".toList, "LastName".toList, "Phone".toList,
    "Email".toList]

def LeadRecord.values (r : LeadRecord) : List Text :=
  [r.outreachExternalId, r.company, r.lastName, r.phone, r.email]

/-- The record as the `dict` that it is. -/
def LeadRecord.dict (r : LeadRecord) : List (Text × Text) := leadFields.zip (LeadRecord.values r)

/-- `_to_csv`, whose header is that of the first record. -/
def toCsv (records : List LeadRecord) : Text :=
  Csv.write (leadFields :: records.map LeadRecord.values)

/-- The records of a body, with its header for their keys. -/
def decodeBody (body : Text) : Option (List (List (Text × Text))) :=
  match Csv.read Csv.rfc4180 body with
  | some (header :: rows) => some (rows.map header.zip)
  | _ => none

def creates : BulkRequest → Bool
  | .createUpsertJob _ _ => true
  | _ => false

/-- The job of an upload, and its body. -/
def uploadOf : BulkRequest → Option (Text × Text)
  | .uploadBatch jobId records => some (jobId, toCsv records)
  | _ => none

section Accepted

variable (replies : Nat → Reply)

def accepts : Reply → Bool
  | .response r => r.status < 400
  | .raises => false

/-- The requests that were accepted, of those from number `i` on. -/
def acceptedFrom : Nat → List BulkRequest → List BulkRequest
  | _, [] => []
  | i, req :: reqs =>
      if accepts (replies i) then req :: acceptedFrom (i + 1) reqs else acceptedFrom (i + 1) reqs

def accepted (c : Client) : List BulkRequest := acceptedFrom replies 0 c.sent

variable {replies}

theorem acceptedFrom_append (i : Nat) (a b : List BulkRequest) :
    acceptedFrom replies i (a ++ b) =
      acceptedFrom replies i a ++ acceptedFrom replies (i + a.length) b := by
  induction a generalizing i with
  | nil => rfl
  | cons req a ih =>
    rw [List.cons_append, acceptedFrom, acceptedFrom, ih, List.length_cons, Nat.add_right_comm,
      Nat.add_assoc]
    split <;> rfl

end Accepted

/-- One job for each slice, and the bodies of their uploads hold the records, in order. -/
structure UploadedOnce (batchSize : Int) (records : List LeadRecord) (results : List JobResult)
    (requests : List BulkRequest) : Prop where
  jobs : requests.countP creates = records.length ⌈/⌉ batchSize.toNat
  owners : (requests.filterMap uploadOf).map Prod.fst = results.map JobResult.jobId
  bodies : ∃ batches, ((requests.filterMap uploadOf).map Prod.snd).mapM decodeBody = some batches ∧
    (∀ batch ∈ batches, 1 ≤ batch.length ∧ (batch.length : Int) ≤ batchSize) ∧
    batches.flatten = records.map LeadRecord.dict

section Traces

variable {replies : Nat → Reply}

theorem transport_traces (req : BulkRequest) :
    Traces (accepted replies) (transport replies req) fun r l =>
      l = if r.status < 400 then [req] else [] := by
  intro c r c' h
  rw [Yields] at h
  cases hreply : replies c.position with
  | raises =>
    rw [transport_raises hreply] at h
    cases h
  | response r' =>
    rw [transport_response hreply] at h
    obtain ⟨hr, rfl⟩ := Prod.mk.inj h
    obtain rfl := Except.ok.inj hr
    have hlast : acceptedFrom replies (0 + c.sent.length) [req] =
        if r'.status < 400 then [req] else [] := by
      have hposition : 0 + c.sent.length = c.position := Nat.zero_add _
      rw [hposition, acceptedFrom, hreply, acceptedFrom]
      simp only [accepts, decide_eq_true_eq]
    refine ⟨_, ?_, rfl⟩
    rw [← hlast]
    exact acceptedFrom_append 0 c.sent [req]

theorem recordUsage_traces (r : HttpResponse) :
    Traces (accepted replies) (recordUsage r) fun _ l => l = [] := by
  intro c a c' h
  have hrun : (recordUsage r).run c = (.ok (), { c with apiUsage := r.apiUsage.or c.apiUsage }) :=
    rfl
  rw [Yields, hrun] at h
  obtain ⟨-, rfl⟩ := Prod.mk.inj h
  exact ⟨[], (List.append_nil _).symm, rfl⟩

theorem readable_traces {α : Type} (reading : Option α) :
    Traces (accepted replies) (readable reading) fun _ l => l = [] := by
  cases reading with
  | none => exact (Traces.throw _).mono fun _ _ h => h.elim
  | some a => exact (Traces.pure a).mono fun _ _ h => h.2

theorem settle_traces (r : HttpResponse) :
    Traces (accepted replies)
      (if 400 ≤ r.status then throw (.salesforceApi r.status r.replaced) else pure r : Session _)
      fun _ l => r.status < 400 ∧ l = [] := by
  split
  · exact (Traces.throw _).mono fun _ _ h => h.elim
  · rename_i hok
    exact (Traces.pure r).mono fun _ _ h => ⟨Nat.lt_of_not_le hok, h.2⟩

/-- An attempt that is not accepted leaves no trace. -/
theorem attempt_traces (req : BulkRequest) {f : HttpResponse → Session HttpResponse}
    {Q : HttpResponse → HttpResponse → List BulkRequest → Prop}
    (hf : ∀ r, Traces (accepted replies) (f r) (Q r)) :
    Traces (accepted replies)
      (do
        let r ← transport replies req
        recordUsage r
        f r)
      fun a l => ∃ r rest, Q r a rest ∧ l = (if r.status < 400 then [req] else []) ++ rest := by
  refine ((transport_traces req).bind fun r => (recordUsage_traces r).bind fun _ => hf r).mono ?_
  intro a l h
  obtain ⟨r, l₁, rest, rfl, ⟨_, l₃, _, rfl, hq, rfl⟩, rfl⟩ := h
  exact ⟨r, rest, hq, rfl⟩

/-- A request is accepted once, however often it is sent. -/
theorem requestFrom_traces (req : BulkRequest) (left : Nat) :
    Traces (accepted replies) (requestFrom replies req left) fun _ l => l = [req] := by
  induction left with
  | zero =>
    refine (attempt_traces req (settle_traces)).mono fun a l h => ?_
    obtain ⟨r, rest, ⟨hok, rfl⟩, rfl⟩ := h
    rw [if_pos hok]
    rfl
  | succ left ih =>
    have hrest : ∀ r : HttpResponse, Traces (accepted replies)
        (if retryable r.status then requestFrom replies req left
          else if 400 ≤ r.status then throw (.salesforceApi r.status r.replaced) else pure r)
        fun _ l => (¬ r.status < 400 ∧ l = [req]) ∨ (r.status < 400 ∧ l = []) := by
      intro r
      split
      · rename_i hretry
        exact ih.mono fun _ _ h => Or.inl ⟨Nat.not_lt.mpr (retryable_ge hretry), h⟩
      · exact (settle_traces r).mono fun _ _ h => Or.inr h
    refine (attempt_traces req hrest).mono fun a l h => ?_
    obtain ⟨r, rest, ⟨hfailed, rfl⟩ | ⟨hok, rfl⟩, rfl⟩ := h
    · rw [if_neg hfailed]
      rfl
    · rw [if_pos hok]
      rfl

theorem request_traces (req : BulkRequest) :
    Traces (accepted replies) (request replies req) fun _ l => l = [req] :=
  requestFrom_traces req (maxAttempts - 1)

theorem fetch_traces {α : Type} (req : BulkRequest) (reading : HttpResponse → Option α) :
    Traces (accepted replies)
      (do
        let r ← request replies req
        readable (reading r))
      fun _ l => l = [req] := by
  refine ((request_traces req).bind fun r => readable_traces (reading r)).mono fun a l h => ?_
  obtain ⟨r, l₁, l₂, rfl, rfl, rfl⟩ := h
  rfl

/-- Neither a new job nor an upload. -/
def Neutral (requests : List BulkRequest) : Prop :=
  ∀ req ∈ requests, creates req = false ∧ uploadOf req = none

theorem Neutral.append {a b : List BulkRequest} (ha : Neutral a) (hb : Neutral b) :
    Neutral (a ++ b) := List.forall_mem_append.mpr ⟨ha, hb⟩

theorem neutral_nil : Neutral [] := List.forall_mem_nil _

theorem waitForJob_traces (jobId : Text) (polls : Nat) :
    Traces (accepted replies) (waitForJob replies jobId polls) fun _ l => Neutral l := by
  induction polls with
  | zero => exact (Traces.throw _).mono fun _ _ h => h.elim
  | succ polls ih =>
    have hnext : ∀ (info : JobInfo) (state : Text), Traces (accepted replies)
        (if state ∈ terminalJobStates then pure info else waitForJob replies jobId polls)
        fun _ l => Neutral l := by
      intro info state
      split
      · exact (Traces.pure info).mono fun _ l h => h.2 ▸ neutral_nil
      · exact ih
    refine ((fetch_traces (.getJob jobId) HttpResponse.job).bind fun info =>
      (readable_traces info.state).bind fun state => hnext info state).mono fun a l h => ?_
    obtain ⟨info, l₁, l₂, rfl, ⟨state, l₃, l₄, rfl, hrest, rfl⟩, rfl⟩ := h
    exact Neutral.append (List.forall_mem_singleton.mpr ⟨rfl, rfl⟩) hrest

/-- The end of a job with its counts: at most the failed rows are asked for. -/
theorem download_traces (jobId state : Text) (failed processed : Int) :
    Traces (accepted replies) (downloaded replies jobId state failed processed)
      fun result l => result.jobId = jobId ∧ Neutral l := by
  unfold downloaded
  split
  · refine ((fetch_traces (.failedResults jobId) HttpResponse.text).bind fun csv =>
      Traces.pure _).mono fun result l h => ?_
    obtain ⟨csv, l₁, l₂, rfl, ⟨rfl, rfl⟩, rfl⟩ := h
    exact ⟨rfl, List.forall_mem_singleton.mpr ⟨rfl, rfl⟩⟩
  · refine (Traces.pure _).mono fun result l h => ?_
    obtain ⟨rfl, rfl⟩ := h
    exact ⟨rfl, neutral_nil⟩

theorem ended_traces (jobId state : Text) (info : JobInfo) :
    Traces (accepted replies) (ended replies jobId state info)
      fun result l => result.jobId = jobId ∧ Neutral l := by
  unfold ended
  split
  · exact (Traces.throw _).mono fun _ _ h => h.elim
  · refine ((readable_traces info.numberRecordsFailed).bind fun failed =>
      (readable_traces info.numberRecordsProcessed).bind fun processed =>
        download_traces jobId state failed processed).mono fun result l h => ?_
    obtain ⟨failed, l₁, l₂, rfl, ⟨processed, l₃, l₄, rfl, hrest, rfl⟩, rfl⟩ := h
    exact hrest

/-- A chunk creates a job and uploads itself to it; nothing else that is accepted counts. -/
theorem upsertChunk_traces (objectName externalIdField : Text) (chunk : List LeadRecord) :
    Traces (accepted replies) (upsertChunk replies objectName externalIdField chunk)
      fun result l => ∃ rest, Neutral rest ∧
        l = .createUpsertJob objectName externalIdField :: .uploadBatch result.jobId chunk :: rest := by
  refine ((fetch_traces (.createUpsertJob objectName externalIdField) HttpResponse.id).bind
    fun jobId => (request_traces (.uploadBatch jobId chunk)).bind fun _ =>
      (request_traces (.closeJob jobId)).bind fun _ =>
        (waitForJob_traces jobId maxPolls).bind fun info =>
          (readable_traces info.state).bind fun state => ended_traces jobId state info).mono
    fun result l h => ?_
  obtain ⟨jobId, _, _, rfl, ⟨_, _, _, rfl, ⟨_, _, _, rfl, ⟨info, polls, last, hpolls,
    ⟨state, _, _, rfl, ⟨rfl, hlast⟩, rfl⟩, rfl⟩, rfl⟩, rfl⟩, rfl⟩ := h
  refine ⟨.closeJob result.jobId :: (polls ++ last), ?_, rfl⟩
  exact List.forall_mem_cons.mpr ⟨⟨rfl, rfl⟩, hpolls.append hlast⟩

theorem Neutral.filterMap {l : List BulkRequest} (h : Neutral l) : l.filterMap uploadOf = [] :=
  List.filterMap_eq_nil_iff.mpr fun req hreq => (h req hreq).2

theorem Neutral.countP {l : List BulkRequest} (h : Neutral l) : l.countP creates = 0 :=
  List.countP_eq_zero.mpr fun req hreq => Bool.eq_false_iff.mp (h req hreq).1

theorem upsertChunks_traces (objectName externalIdField : Text) (cs : List (List LeadRecord)) :
    Traces (accepted replies) (upsertChunks replies objectName externalIdField cs)
      fun results l => l.countP creates = cs.length ∧
        (l.filterMap uploadOf).map Prod.fst = results.map JobResult.jobId ∧
        (l.filterMap uploadOf).map Prod.snd = cs.map toCsv := by
  induction cs with
  | nil =>
    refine (Traces.pure _).mono fun results l h => ?_
    obtain ⟨rfl, rfl⟩ := h
    exact ⟨rfl, rfl, rfl⟩
  | cons chunk cs ih =>
    refine ((upsertChunk_traces objectName externalIdField chunk).bind fun result =>
      ih.bind fun results => Traces.pure (result :: results)).mono fun results l h => ?_
    obtain ⟨result, _, _, ⟨rest, hneutral, rfl⟩, ⟨results', later, _, ⟨hcount, howners, hbodies⟩,
      ⟨rfl, rfl⟩, rfl⟩, rfl⟩ := h
    rw [List.append_nil]
    simp only [List.cons_append, List.countP_cons, List.countP_append, hneutral.countP, hcount,
      List.filterMap_cons, List.filterMap_append, hneutral.filterMap, uploadOf, creates,
      List.nil_append, List.map_cons, howners, hbodies]
    simp

end Traces

section Slices

variable {α : Type} {records : List α} {size : Nat}

/-- The first `k` slices of a list. -/
theorem flatten_slices (records : List α) (size k : Nat) :
    ((List.range k).map fun i => (records.drop (i * size)).take size).flatten =
      records.take (k * size) := by
  induction k with
  | zero => rw [Nat.zero_mul, List.take_zero]; rfl
  | succ k ih =>
    rw [List.range_succ, List.map_append, List.flatten_append, ih, List.map_singleton,
      List.flatten_singleton, Nat.succ_mul, List.take_add]

/-- The slices make up the list, and each of them has a record. -/
theorem chunks_spec (hsize : 1 ≤ size) (records : List α) :
    ∃ cs, chunks (size : Int) records = some cs ∧ cs.length = records.length ⌈/⌉ size ∧
      cs.flatten = records ∧ ∀ chunk ∈ cs, 1 ≤ chunk.length ∧ chunk.length ≤ size := by
  have hzero : ¬ (size : Int) = 0 := by omega
  have hneg : ¬ (size : Int) < 0 := by omega
  refine ⟨_, by rw [chunks, if_neg hzero, if_neg hneg], ?_, ?_, ?_⟩
  · rw [Int.toNat_natCast, List.length_map, List.length_range, Nat.ceilDiv_eq_add_pred_div]
  · rw [Int.toNat_natCast, flatten_slices]
    refine List.take_of_length_le ?_
    have hdiv := Nat.div_add_mod (records.length + size - 1) size
    have hmod := Nat.mod_lt (records.length + size - 1) hsize
    rw [Nat.mul_comm]
    omega
  · rw [Int.toNat_natCast]
    intro chunk hchunk
    obtain ⟨i, hi, rfl⟩ := List.mem_map.mp hchunk
    have hmul := (Nat.le_div_iff_mul_le hsize).mp (List.mem_range.mp hi)
    rw [Nat.succ_mul] at hmul
    rw [List.length_take, List.length_drop]
    omega

end Slices

theorem decodeBody_toCsv (records : List LeadRecord) :
    decodeBody (toCsv records) = some (records.map LeadRecord.dict) := by
  have hne : ∀ row ∈ leadFields :: records.map LeadRecord.values, row ≠ [] := by
    refine List.forall_mem_cons.mpr ⟨List.cons_ne_nil _ _, fun row hrow => ?_⟩
    obtain ⟨record, -, rfl⟩ := List.mem_map.mp hrow
    exact List.cons_ne_nil _ _
  rw [decodeBody, toCsv, Csv.read_write hne fun _ _ s _ => Csv.fits_rfc4180 s]
  show some ((records.map LeadRecord.values).map leadFields.zip) = _
  rw [List.map_map]
  rfl

theorem mapM_decodeBody (cs : List (List LeadRecord)) :
    (cs.map toCsv).mapM decodeBody = some (cs.map (List.map LeadRecord.dict)) := by
  induction cs with
  | nil => rfl
  | cons chunk cs ih =>
    rw [List.map_cons, List.mapM_cons, decodeBody_toCsv, ih]
    rfl

/-- Where all jobs complete, the client returns their results, and has uploaded every record
once. -/
theorem uploaded_once {replies : Nat → Reply} {batchSize : Int} (hsize : 1 ≤ batchSize)
    (objectName externalIdField : Text) (records : List LeadRecord) (c : Client) {j : Nat}
    {results : List JobResult} (hjobs : Jobs replies c.position j results)
    (hcount : results.length = records.length ⌈/⌉ batchSize.toNat) :
    ∃ c' new, Yields (upsertRecords replies objectName externalIdField batchSize records) c
        results c' ∧ accepted replies c' = accepted replies c ++ new ∧
      UploadedOnce batchSize records results new := by
  obtain ⟨size, rfl⟩ := Int.eq_ofNat_of_zero_le (show 0 ≤ batchSize by omega)
  rw [Int.toNat_natCast] at hcount
  obtain ⟨cs, hcs, hlen, hflatten, hbounds⟩ := chunks_spec (Int.ofNat_le.mp hsize) records
  have hrun : upsertRecords replies objectName externalIdField size records =
      upsertChunks replies objectName externalIdField cs := by
    rw [upsertRecords, hcs]
    rfl
  obtain ⟨c', hyields, -⟩ := (upsertChunks_follows objectName externalIdField cs c results j).mpr
    ⟨hjobs, hcount.trans hlen.symm⟩
  obtain ⟨new, hnew, hcreated, howners, hbodies⟩ :=
    upsertChunks_traces objectName externalIdField cs c results c' hyields
  refine ⟨c', new, hrun ▸ hyields, hnew, ?_, howners, cs.map (List.map LeadRecord.dict), ?_, ?_, ?_⟩
  · rw [hcreated, hlen, Int.toNat_natCast]
  · rw [hbodies, mapM_decodeBody]
  · intro batch hbatch
    obtain ⟨chunk, hchunk, rfl⟩ := List.mem_map.mp hbatch
    rw [List.length_map]
    exact ⟨(hbounds chunk hchunk).1, Int.ofNat_le.mpr (hbounds chunk hchunk).2⟩
  · rw [← List.map_flatten, hflatten]

/-- Salesforce on its best day: every job is created, filled, closed and found complete. -/
def allComplete (_ : Nat) : Reply :=
  .response
    { status := 200
      id := some "7501".toList
      job := some { state := some jobComplete } }

theorem allComplete_jobs (n i : Nat) :
    Jobs allComplete i (i + 4 * n)
      (List.replicate n ⟨"7501".toList, jobComplete, 0, 0, none⟩) := by
  induction n generalizing i with
  | zero => exact .nil
  | succ n ih =>
    have hserved : ∀ i, Served allComplete (maxAttempts - 1) i (i + 1)
        { status := 200, id := some "7501".toList, job := some { state := some jobComplete } } :=
      fun _ => .answered rfl (by decide)
    have hdone : Completed allComplete i (i + 4) "7501".toList { state := some jobComplete } :=
      ⟨i + 1, i + 2, i + 3, _, _, _, hserved i, rfl, hserved (i + 1), hserved (i + 2),
        .ended (hserved (i + 3)) rfl rfl List.mem_cons_self, rfl⟩
    have hrest := ih (i + 4)
    rw [Nat.add_assoc, Nat.add_comm 4, ← Nat.mul_succ] at hrest
    exact .cons ⟨i + 4, _, hdone, rfl, rfl, rfl, Or.inl ⟨rfl, rfl, rfl⟩⟩ hrest

/-- Three records in slices of two, one of them with all that CSV has to quote. -/
theorem uploaded_once_three : ∃ c' new,
    Yields (upsertRecords allComplete "Lead".toList "Outreach_External_Id__c".toList 2
        [⟨"1".toList, "Acme, \"Inc\"\r\n".toList, "Doe".toList, [], []⟩,
          ⟨"2".toList, [], "Unknown".toList, [], []⟩, ⟨"3".toList, [], "\"".toList, [], []⟩])
      {} [⟨"7501".toList, jobComplete, 0, 0, none⟩, ⟨"7501".toList, jobComplete, 0, 0, none⟩] c' ∧
    accepted allComplete c' = accepted allComplete {} ++ new ∧
    UploadedOnce 2
      [⟨"1".toList, "Acme, \"Inc\"\r\n".toList, "Doe".toList, [], []⟩,
        ⟨"2".toList, [], "Unknown".toList, [], []⟩, ⟨"3".toList, [], "\"".toList, [], []⟩]
      [⟨"7501".toList, jobComplete, 0, 0, none⟩, ⟨"7501".toList, jobComplete, 0, 0, none⟩] new :=
  uploaded_once (by decide) _ _ _ {} (allComplete_jobs 2 0) (by decide)

end Outreach.Salesforce.Bulk
