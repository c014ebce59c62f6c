import Outreach.Cleansing.Cooldown
import Outreach.Cleansing.Newest
import Outreach.Cleansing.Steps
import Mathlib.Data.List.Perm.Subperm
import Mathlib.Data.List.Forall2

/-!
# No row is lost

Each step shares its rows out: some go on, and the others are set aside with a
reason or dropped for a kept row of their contact. The counts it returns are the
lengths of what it wrote. Two things get in the way. The quarantine file takes
its columns from its first row, and a row with another column raises after the
kept rows are written. A date without an offset cannot be subtracted from one
with an offset.
-/

namespace Outreach.Cleansing

open Outreach.Library Outreach.Suppression

set_option autoImplicit false

structure QuarantineReport where
  rowsIn : Nat
  rowsOut : Nat
  rowsQuarantined : Nat
  deriving DecidableEq

structure DedupeReport where
  rowsIn : Nat
  rowsOut : Nat
  duplicatesRemoved : Nat
  deriving DecidableEq

structure SuppressReport where
  rowsIn : Nat
  rowsOut : Nat
  suppressed : Nat
  cooldownExcluded : Nat
  deriving DecidableEq

/-- What a handler leaves: the rows of its two files, and what it returns unless it raises
between the two. -/
structure Files (α ρ : Type) where
  kept : List (Row α)
  aside : List (Row α × Reason)
  report : Option ρ

section Handlers

variable {ν α : Type} (U : UnicodeData) (P : PhoneNumbers ν) (run : PipelineRun)
  (log : List Event) (names : α → List Text)

/-- `csv.DictWriter` with the columns of the first row. -/
def csvWritable : List (Row α) → Bool
  | [] => true
  | first :: others => others.all fun r => (names r.rest).all fun n => (names first.rest).contains n

/-- The end of a step with a quarantine file. -/
def quarantined (rowsIn : Nat) (out : StepOutput α) : Files α QuarantineReport :=
  if csvWritable names (out.rejected.map Prod.fst) then
    ⟨out.kept, out.rejected, some ⟨rowsIn, out.kept.length, out.rejected.length⟩⟩
  else ⟨out.kept, [], none⟩

def normalizeFiles (rows : List (Row α)) : Files α QuarantineReport :=
  quarantined names rows.length (normalize U P rows)

def validateFiles (rows : List (Row α)) : Files α QuarantineReport :=
  quarantined names rows.length (validate run rows)

def dedupeFiles (rows : List (Row α)) : Files α DedupeReport :=
  let kept := dedupe rows
  ⟨kept, [], some ⟨rows.length, kept.length, rows.length - kept.length⟩⟩

/-- `none` raises at a row, before anything is written. -/
def suppressFiles (rows : List (Row α)) : Option (Files α SuppressReport) :=
  (suppress U P run log rows).map fun out =>
    let suppressedCount := out.rejected.countP fun r => r.2 = .suppressed
    ⟨out.kept, out.rejected,
      some ⟨rows.length, out.kept.length, suppressedCount, out.rejected.length - suppressedCount⟩⟩

end Handlers

/-! ## What is claimed of the steps -/

section Claims

variable {ν α : Type} (U : UnicodeData) (P : PhoneNumbers ν) (run : PipelineRun)
  (log : List Event) (names : α → List Text)

/-- The row has an identifier, which is what `is_suppressed` asks for. -/
def Identified (row : Row α) : Prop := ¬ (row.phone = none ∧ row.email = none)

/-- `datetime.fromisoformat` accepts the `last_contacted_at` of the row. -/
def Parseable (row : Row α) : Prop :=
  ∀ t, row.lastContactedAt = some t → run.fromisoformat t ≠ none

/-- `k` is the row after a step that changes its identifiers, company or line type. -/
structure Continues (row k : Row α) : Prop where
  enrichedAt : k.enrichedAt = row.enrichedAt
  lastContactedAt : k.lastContactedAt = row.lastContactedAt
  rest : k.rest = row.rest

/-- Each row goes on or is set aside, once. -/
def SharedOut (rows kept : List (Row α)) (aside : List (Row α × Reason)) : Prop :=
  ∃ passed : List (Row α), (passed ++ aside.map Prod.fst).Perm rows ∧
    List.Forall₂ Continues passed kept

def QuarantineConserves (rows : List (Row α)) (f : Files α QuarantineReport) : Prop :=
  SharedOut rows f.kept f.aside ∧
    f.report = some ⟨rows.length, f.kept.length, f.aside.length⟩

/-- Each row is kept or dropped for a kept row with its key, once. -/
def DedupeConserves (rows : List (Row α)) (f : Files α DedupeReport) : Prop :=
  ∃ winners dropped : List (Row α), (winners ++ dropped).Perm rows ∧
    f.kept = winners.map Row.keyed ∧ (∀ r ∈ dropped, ∃ w ∈ winners, w.key = r.key) ∧
    f.report = some ⟨rows.length, f.kept.length, dropped.length⟩

def SuppressConserves (rows : List (Row α)) : Prop :=
  ∃ f, suppressFiles U P run log rows = some f ∧
    (f.kept ++ f.aside.map Prod.fst).Perm rows ∧
    f.report = some ⟨rows.length, f.kept.length, f.aside.countP fun r => r.2 = .suppressed,
      f.aside.countP fun r => r.2 = .cooldown⟩

/-- No step loses a row of the list, and from Normalize on every row has an identifier. -/
structure Conserved (rows : List (Row α)) : Prop where
  normalize : QuarantineConserves rows (normalizeFiles U P names rows)
  validate : QuarantineConserves rows (validateFiles run names rows)
  dedupe : DedupeConserves rows (dedupeFiles rows)
  suppress : (∀ r ∈ rows, Identified r) → (∀ r ∈ rows, Parseable run r) →
    SuppressConserves U P run log rows
  normalized : ∀ k ∈ (normalizeFiles U P names rows).kept, Identified k
  identified : (∀ r ∈ rows, Identified r) →
    (∀ k ∈ (validateFiles run names rows).kept, Identified k) ∧
    (∀ k ∈ (dedupeFiles rows).kept, Identified k) ∧
    ∀ f, suppressFiles U P run log rows = some f → ∀ k ∈ f.kept, Identified k

/-- Of the rows that a step rejects, none has a column that the first does not have. -/
def Uniform (rejects : Row α → Bool) (rows : List (Row α)) : Prop :=
  ∀ first others, rows.filter rejects = first :: others →
    ∀ r ∈ others, ∀ n ∈ names r.rest, n ∈ names first.rest

def rejectedBy (f : Row α → Except Reason (Row α)) (row : Row α) : Bool := (f row).toOption.isNone

/-- The rows that Suppress must date have an offset exactly when `as_of` has one. -/
def Comparable (rows : List (Row α)) : Prop :=
  ∀ r ∈ rows, (report U P (currentSet log) r.phone r.email).suppressed = false →
    ∀ t d, r.lastContactedAt = some t → run.fromisoformat t = some d →
      d.offset.isSome = run.asOf.offset.isSome

end Claims

section Proofs

variable {ν α : Type} {U : UnicodeData} {P : PhoneNumbers ν} {run : PipelineRun}
  {log : List Event} {names : α → List Text}

/-! ## Steps that decide row by row -/

theorem rejected_partitionRows (f : Row α → Except Reason (Row α)) (rows : List (Row α)) :
    (partitionRows f rows).rejected.map Prod.fst = rows.filter (rejectedBy f) := by
  induction rows with
  | nil => rfl
  | cons row rows ih =>
    rw [partitionRows, List.filter_cons, rejectedBy]
    cases hrow : f row with
    | ok r => simpa [Except.toOption] using ih
    | error reason => simpa [Except.toOption] using ih

theorem sharedOut_partitionRows {f : Row α → Except Reason (Row α)}
    (hf : ∀ row k, f row = .ok k → Continues row k) (rows : List (Row α)) :
    SharedOut rows (partitionRows f rows).kept (partitionRows f rows).rejected := by
  induction rows with
  | nil => exact ⟨[], .nil, .nil⟩
  | cons row rows ih =>
    obtain ⟨passed, hperm, hall⟩ := ih
    rw [partitionRows]
    cases hrow : f row with
    | ok k => exact ⟨row :: passed, hperm.cons row, .cons (hf row k hrow) hall⟩
    | error reason => exact ⟨passed, List.perm_middle.trans (hperm.cons row), hall⟩

theorem csvWritable_iff {rows : List (Row α)} {rejects : Row α → Bool} :
    csvWritable names (rows.filter rejects) = true ↔ Uniform names rejects rows := by
  unfold Uniform
  cases rows.filter rejects with
  | nil => simp [csvWritable]
  | cons first others =>
    simp only [csvWritable, List.all_eq_true, List.contains_iff_mem, List.cons.injEq]
    constructor
    · rintro h _ _ ⟨rfl, rfl⟩
      exact h
    · intro h
      exact h first others ⟨rfl, rfl⟩

/-- A step with a quarantine file loses nothing exactly when it can write that file. -/
theorem quarantined_conserves {f : Row α → Except Reason (Row α)}
    (hf : ∀ row k, f row = .ok k → Continues row k) (rows : List (Row α)) :
    QuarantineConserves rows (quarantined names rows.length (partitionRows f rows)) ↔
      Uniform names (rejectedBy f) rows := by
  rw [← csvWritable_iff, ← rejected_partitionRows, quarantined]
  cases hw : csvWritable names ((partitionRows f rows).rejected.map Prod.fst) with
  | true => exact iff_of_true ⟨sharedOut_partitionRows hf rows, rfl⟩ rfl
  | false => exact iff_of_false (fun h => nomatch h.2) Bool.false_ne_true

theorem kept_quarantined (rowsIn : Nat) (out : StepOutput α) :
    (quarantined names rowsIn out).kept = out.kept := by
  unfold quarantined
  split <;> rfl

theorem normalizeRow_continues (row k : Row α) (h : normalizeRow U P row = .ok k) :
    Continues row k ∧ Identified k := by
  unfold normalizeRow at h
  split at h
  · exact nomatch h
  · simp only at h
    split at h
    · exact nomatch h
    · rename_i hid
      cases h
      exact ⟨⟨rfl, rfl, rfl⟩, hid⟩

theorem validateRow_continues {mx : Text → Bool} (row k : Row α) (h : validateRow run mx row = .ok k) :
    Continues row k ∧ (Identified row → Identified k) := by
  unfold validateRow at h
  split at h
  · cases h
    exact ⟨⟨rfl, rfl, rfl⟩, id⟩
  · split at h
    · cases h
      exact ⟨⟨rfl, rfl, rfl⟩, id⟩
    · split at h
      · exact nomatch h
      · rename_i hphone
        cases h
        exact ⟨⟨rfl, rfl, rfl⟩, fun _ hid => hphone hid.1⟩

theorem exists_of_mem_kept {f : Row α → Except Reason (Row α)} {rows : List (Row α)} {k : Row α}
    (h : k ∈ (partitionRows f rows).kept) : ∃ row ∈ rows, f row = .ok k := by
  rw [kept_partitionRows, List.mem_filterMap] at h
  obtain ⟨row, hrow, hk⟩ := h
  refine ⟨row, hrow, ?_⟩
  cases hf : f row with
  | ok r =>
    rw [hf] at hk
    exact congrArg _ (Option.some.inj hk)
  | error reason =>
    rw [hf] at hk
    exact nomatch hk

/-! ## Dedupe -/

theorem exists_map_keyed {l : List (Row α)} {rows : List (Row α)}
    (h : ∀ x ∈ l, ∃ row ∈ rows, x = row.keyed) :
    ∃ winners : List (Row α), l = winners.map Row.keyed ∧ winners ⊆ rows := by
  induction l with
  | nil => exact ⟨[], rfl, List.nil_subset rows⟩
  | cons x l ih =>
    obtain ⟨⟨row, hrow, rfl⟩, hl⟩ := List.forall_mem_cons.mp h
    obtain ⟨winners, rfl, hsub⟩ := ih hl
    exact ⟨row :: winners, rfl, List.cons_subset.mpr ⟨hrow, hsub⟩⟩

theorem dedupe_conserves (rows : List (Row α)) : DedupeConserves rows (dedupeFiles rows) := by
  have hinputs : ∀ x ∈ dedupe rows, ∃ row ∈ rows, x = row.keyed := by
    intro x hx
    obtain ⟨row, hrow, rfl⟩ := mem_dedupe_iff.mp hx
    exact ⟨row, hrow.mem, rfl⟩
  obtain ⟨winners, hkept, hsub⟩ := exists_map_keyed hinputs
  have hkeys : (winners.map Row.key).Nodup := by
    have hnodup := dedupe_keys_nodup rows
    rw [hkept, List.map_map] at hnodup
    exact hnodup
  obtain ⟨copy, hcopy, hsublist⟩ := List.subperm_of_subset (List.Nodup.of_map _ hkeys) hsub
  obtain ⟨dropped, hdropped⟩ := hsublist.exists_perm_append
  have hperm : (winners ++ dropped).Perm rows :=
    (hcopy.symm.append_right dropped).trans hdropped.symm
  refine ⟨winners, dropped, hperm, hkept, fun r hr => ?_, ?_⟩
  · have hmem : r ∈ rows := hperm.mem_iff.mp (List.mem_append_right winners hr)
    obtain ⟨x, hx, hk⟩ : ∃ x ∈ dedupe rows, x.key = r.key := mem_dedupe_keys.mpr ⟨r, hmem, rfl⟩
    rw [hkept] at hx
    obtain ⟨w, hw, rfl⟩ := List.mem_map.mp hx
    exact ⟨w, hw, hk⟩
  · have hlen := hperm.length_eq
    rw [List.length_append] at hlen
    simp only [dedupeFiles, hkept, List.length_map]
    rw [← hlen, Nat.add_sub_cancel_left]

/-! ## Suppress -/

theorem perm_decideRows {v : Row α → Option (Option Reason)} {rows : List (Row α)}
    {out : StepOutput α} (h : decideRows v rows = some out) :
    (out.kept ++ out.rejected.map Prod.fst).Perm rows := by
  induction rows generalizing out with
  | nil =>
    cases h
    exact .nil
  | cons row rows ih =>
    obtain ⟨why, -, h⟩ := Option.bind_eq_some_iff.mp h
    obtain ⟨rest, hrest, rfl⟩ := Option.map_eq_some_iff.mp h
    cases why with
    | none => exact (ih hrest).cons row
    | some reason => exact List.perm_middle.trans ((ih hrest).cons row)

theorem reason_decideRows {v : Row α → Option (Option Reason)} {rows : List (Row α)}
    {out : StepOutput α} (h : decideRows v rows = some out) :
    ∀ r ∈ out.rejected, v r.1 = some (some r.2) := by
  induction rows generalizing out with
  | nil =>
    cases h
    exact fun r hr => nomatch hr
  | cons row rows ih =>
    obtain ⟨why, hv, h⟩ := Option.bind_eq_some_iff.mp h
    obtain ⟨rest, hrest, rfl⟩ := Option.map_eq_some_iff.mp h
    have hmem := ih hrest
    cases why with
    | none => exact hmem
    | some reason => exact List.forall_mem_cons.mpr ⟨hv, hmem⟩

theorem verdict_reason {row : Row α} {reason : Reason}
    (h : verdict U P run log row = some (some reason)) :
    reason = .suppressed ∨ reason = .cooldown := by
  unfold verdict at h
  split at h
  · exact nomatch h
  split at h
  · cases h
    exact Or.inl rfl
  · obtain ⟨contacted, -, hreason⟩ := Option.map_eq_some_iff.mp h
    cases contacted with
    | true => exact Or.inr (Option.some.inj hreason).symm
    | false => exact nomatch hreason

theorem suppress_conserves_iff {rows : List (Row α)} :
    SuppressConserves U P run log rows ↔ ∀ r ∈ rows, Decided U P run log r := by
  have hsome : (∀ r ∈ rows, Decided U P run log r) ↔
      (decideRows (verdict U P run log) rows).isSome = true := by
    rw [decideRows_isSome]
    exact forall₂_congr fun r _ => verdict_isSome.symm
  unfold SuppressConserves suppressFiles
  rw [hsome, suppress_eq]
  cases hd : decideRows (verdict U P run log) rows with
  | none => simp
  | some out =>
    refine iff_of_true ⟨_, rfl, perm_decideRows hd, ?_⟩ rfl
    have htwo : ∀ r ∈ out.rejected, r.2 ≠ .suppressed ↔ r.2 = .cooldown := by
      intro r hr
      rcases verdict_reason (reason_decideRows hd r hr) with h | h
      · simp [h]
      · simp [h]
    have hsum := List.length_eq_countP_add_countP (p := fun r : Row α × Reason => r.2 = .suppressed)
      (l := out.rejected)
    have hcool : (out.rejected.countP fun r => r.2 = .cooldown) =
        out.rejected.countP fun r => ¬ decide (r.2 = .suppressed) = true := by
      refine List.countP_congr fun r hr => ?_
      rw [decide_eq_true_eq, decide_eq_true_eq, decide_eq_true_eq, ← htwo r hr]
    simp only [Option.some.injEq, SuppressReport.mk.injEq, true_and]
    rw [hcool]
    omega

theorem cooling_isSome {t : Text} {d : DateTime} (ht : run.fromisoformat t = some d) :
    cooling run (some t) ≠ none ↔ d.offset.isSome = run.asOf.offset.isSome := by
  simp only [cooling, ht, Option.bind_eq_bind, Option.bind_some, DateTime.sub]
  cases run.asOf.offset <;> cases d.offset <;> simp

/-- With identifiers and dates that can be read, a row is decided when it is listed or its
date can be compared. -/
theorem decided_iff {row : Row α} (hid : Identified row) (hparse : Parseable run row) :
    Decided U P run log row ↔
      ((report U P (currentSet log) row.phone row.email).suppressed = false →
        ∀ t d, row.lastContactedAt = some t → run.fromisoformat t = some d →
          d.offset.isSome = run.asOf.offset.isSome) := by
  rw [Decided, and_iff_right (show ¬ (row.phone = none ∧ row.email = none) from hid)]
  refine imp_congr_right fun _ => ?_
  cases hlast : row.lastContactedAt with
  | none => simp [cooling]
  | some t =>
    obtain ⟨d, hd⟩ := Option.ne_none_iff_exists'.mp (hparse t hlast)
    rw [cooling_isSome hd]
    constructor
    · intro h t' d' ht hd'
      cases ht
      exact Option.some.inj (hd.symm.trans hd') ▸ h
    · exact fun h => h t d rfl hd

/-! ## All steps -/

/-- No row is lost exactly when the rows that a step quarantines have no column which the
first of them lacks, and the dates that Suppress compares all have an offset, or none. -/
theorem conserved_iff (U : UnicodeData) (P : PhoneNumbers ν) (run : PipelineRun)
    (log : List Event) (names : α → List Text) (rows : List (Row α)) :
    Conserved U P run log names rows ↔
      Uniform names (rejectedBy (normalizeRow U P)) rows ∧
      Uniform names (rejectedBy (validateRow run run.mxCheck)) rows ∧
      ((∀ r ∈ rows, Identified r) → (∀ r ∈ rows, Parseable run r) →
        Comparable U P run log rows) := by
  have hnormalize : QuarantineConserves rows (normalizeFiles U P names rows) ↔ _ :=
    quarantined_conserves (fun row k h => (normalizeRow_continues row k h).1) rows
  have hvalidate : QuarantineConserves rows (validateFiles run names rows) ↔
      Uniform names (rejectedBy (validateRow run run.mxCheck)) rows := by
    rw [validateFiles, validate_eq]
    exact quarantined_conserves (fun row k h => (validateRow_continues row k h).1) rows
  have hsuppress : (∀ r ∈ rows, Identified r) → (∀ r ∈ rows, Parseable run r) →
      (SuppressConserves U P run log rows ↔ Comparable U P run log rows) := by
    intro hid hparse
    rw [suppress_conserves_iff]
    exact forall₂_congr fun r hr => decided_iff (hid r hr) (hparse r hr)
  constructor
  · intro h
    exact ⟨hnormalize.mp h.normalize, hvalidate.mp h.validate, fun hid hparse =>
      (hsuppress hid hparse).mp (h.suppress hid hparse)⟩
  · intro h
    obtain ⟨hn, hv, hc⟩ := h
    refine ⟨hnormalize.mpr hn, hvalidate.mpr hv, dedupe_conserves rows,
      fun hid hparse => (hsuppress hid hparse).mpr (hc hid hparse), fun k hk => ?_,
      fun hid => ⟨fun k hk => ?_, fun k hk => ?_, fun f hf k hk => ?_⟩⟩
    · rw [normalizeFiles, kept_quarantined] at hk
      obtain ⟨row, -, hrow⟩ := exists_of_mem_kept hk
      exact (normalizeRow_continues row k hrow).2
    · rw [validateFiles, kept_quarantined, validate_eq] at hk
      obtain ⟨row, hmem, hrow⟩ := exists_of_mem_kept hk
      exact (validateRow_continues row k hrow).2 (hid row hmem)
    · obtain ⟨row, hrow, rfl⟩ := mem_dedupe_iff.mp hk
      exact hid row hrow.mem
    · obtain ⟨out, hout, rfl⟩ := Option.map_eq_some_iff.mp hf
      rw [suppress_eq] at hout
      exact hid k ((mem_kept_decideRows hout).mp hk).1

/-! ## The handlers of a run over the bucket -/

theorem quarantine_returns_eq (o : Runs.Output) (runId : Text) (step : String)
    (rejected : List (Row Runs.CsvRow × Reason)) (content : Runs.Content) :
    (o.quarantine runId step (Runs.rejectedNames rejected) content).returns =
      (csvWritable Runs.CsvRow.jsonQuarantineNames (rejected.map Prod.fst) && o.returns) := by
  cases rejected with
  | nil => exact (Bool.true_and _).symm
  | cons first others =>
    have hsame : csvWritable Runs.CsvRow.jsonQuarantineNames ((first :: others).map Prod.fst) = true ↔
        ∀ ns ∈ Runs.rejectedNames others, ∀ n ∈ ns, n ∈ first.1.rest.jsonQuarantineNames := by
      simp only [csvWritable, Runs.rejectedNames, List.map_cons, List.all_eq_true,
        List.contains_iff_mem, List.forall_mem_map]
    rw [Runs.rejectedNames, List.map_cons, Runs.Output.quarantine]
    split
    · rename_i hall
      simp only [List.all_eq_true, decide_eq_true_eq] at hall
      rw [hsame.mpr hall, Bool.true_and]
    · rename_i hall
      simp only [List.all_eq_true, decide_eq_true_eq] at hall
      rw [Bool.eq_false_iff.mpr (mt hsame.mp hall), Bool.false_and]

theorem quarantined_report (names : α → List Text) (rowsIn : Nat) (out : StepOutput α) :
    (quarantined names rowsIn out).report.isSome = csvWritable names (out.rejected.map Prod.fst) := by
  unfold quarantined
  cases csvWritable names (out.rejected.map Prod.fst) <;> rfl

/-- The Normalize step of a run writes the kept rows, and returns when it reports. -/
theorem handler_normalizeFiles {env : Runs.RunEnv} {runId : Text} {rows : List Runs.ValidRow}
    (h : rows.all (Runs.ValidRow.readable U) = true) :
    ∃ o, Runs.handler U P env runId .normalize (.schemaValid rows) = some o ∧
      o.out = .rows (normalizeFiles U P Runs.CsvRow.jsonQuarantineNames
        (rows.map Runs.ValidRow.toRow)).kept ∧
      o.returns = (normalizeFiles U P Runs.CsvRow.jsonQuarantineNames
        (rows.map Runs.ValidRow.toRow)).report.isSome := by
  simp only [Runs.handler, Runs.normalizeRows, h, if_true, Option.bind_eq_bind, Option.bind_some]
  refine ⟨_, rfl, ?_⟩
  rw [normalizeFiles, kept_quarantined, quarantined_report, Runs.Output.quarantine_out,
    quarantine_returns_eq, Bool.and_true]
  exact ⟨rfl, rfl⟩

theorem handler_validateFiles {env : Runs.RunEnv} {runId : Text} {rows : List (Row Runs.CsvRow)} :
    ∃ o, Runs.handler U P env runId .validate (.rows rows) = some o ∧
      o.out = .rows (validateFiles env.run Runs.CsvRow.jsonQuarantineNames rows).kept ∧
      o.returns =
        (validateFiles env.run Runs.CsvRow.jsonQuarantineNames rows).report.isSome := by
  refine ⟨_, rfl, ?_⟩
  rw [validateFiles, kept_quarantined, quarantined_report, Runs.Output.quarantine_out,
    quarantine_returns_eq, Bool.and_true]
  exact ⟨rfl, rfl⟩

end Proofs

/-- Two rows without a company, the second from a line longer than the header. -/
def longLine : List (Row (List Text)) :=
  [{ companyName := " ".toList, phone := some "+16502530000".toList, email := none,
     enrichedAt := ⟨0, 0⟩, lastContactedAt := none, rest := ["company_name".toList] },
   { companyName := " ".toList, phone := some "+16502530000".toList, email := none,
     enrichedAt := ⟨0, 0⟩, lastContactedAt := none, rest := ["company_name".toList, "null".toList] }]

/-- Normalize rejects both rows and cannot write their file. -/
theorem longLine_lost : ¬ Conserved .plain .e164 tenDaysLater [] id longLine := by
  intro h
  have hreport : (normalizeFiles .plain .e164 id longLine).report = none := by decide +kernel
  exact nomatch hreport.symm.trans h.normalize.2

end Outreach.Cleansing
