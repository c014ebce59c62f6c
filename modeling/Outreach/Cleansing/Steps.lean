import Outreach.Cleansing.ExternalId
import Outreach.Library.Processes

/-!
# The seven steps of one run, object by object

`cleansing/pipeline_io.py` names the objects and `cleansing/steps/` reads and
writes them. A run goes through its steps in order: it gets the object that the
last step put, puts its own, and beside it the quarantined or excluded rows. A
step that raises ends the run. The contents of an object are what its reader
makes of the bytes.
-/

namespace Outreach.Cleansing.Runs

open Outreach.Library Outreach.Suppression

set_option autoImplicit false

/-- A row of `csv.DictReader`: a short row has `None` in its last columns, and the values
beyond the header stand under the key `None`, which `json.dumps` writes as `null`. -/
structure CsvRow where
  columns : Dict Text (Option Text)
  surplus : Option (List Text) := none

namespace CsvRow

variable (row : CsvRow)

def get? (column : String) : Option (Option Text) := row.columns.get? column.toList

/-- `(row.get(column) or "").strip()` is not empty. -/
def filled (column : String) : Bool :=
  !(stripBy isSpace (((row.get? column).join).getD [])).isEmpty

/-- The columns of `{**row, "reason": reason}`. -/
def quarantineNames : List (Option Text) :=
  row.columns.keys.map some ++ (row.surplus.map fun _ => none).toList ++ [some "reason".toList]

/-- The same after the row went through JSON. -/
def jsonQuarantineNames : List Text :=
  row.columns.keys ++ (row.surplus.map fun _ => "null".toList).toList ++ ["reason".toList]

/-- `{**row, "last_contacted_at": row.get("last_contacted_at") or None}` -/
def dated : CsvRow :=
  { row with
    columns := row.columns.set "last_contacted_at".toList
      ((row.get? "last_contacted_at").join.filter fun t => !t.isEmpty) }

end CsvRow

inductive SchemaReason where
  | missingCompanyName
  | missingContactIdentifier
  | invalidEnrichedAt
  deriving DecidableEq, Repr

/-- A row of `01_schema_valid.ndjson`, with what `fromisoformat` makes of its `enriched_at`. -/
structure ValidRow where
  row : CsvRow
  enrichedAt : Aware

inductive Content where
  | csv (rows : List CsvRow)
  | schemaQuarantine (rows : List (CsvRow × SchemaReason))
  | schemaValid (rows : List ValidRow)
  | rows (rows : List (Row CsvRow))
  | rejected (rows : List (Row CsvRow × Reason))
  | withIds (rows : List (Row CsvRow × Text))
  | parquet (rows : List (Row CsvRow × Text))
  /-- bytes that no step can read -/
  | other

def stepKey (runId name : Text) : Text := "staging/pipeline/".toList ++ runId ++ '/' :: name

def quarantineKey (runId step : Text) : Text :=
  "raw/quarantine/".toList ++ runId ++ '/' :: (step ++ ".csv".toList)

def cleansedKey (runId : Text) : Text := "staging/cleansed/".toList ++ runId ++ ".parquet".toList

/-- What a step puts, first `out` and then `aside`; `returns` is false where it raises after. -/
structure Output where
  key : Text
  out : Content
  aside : Option (Text × Content) := none
  returns : Bool := true

/-- `write_quarantine` after the main object: nothing to write, or a file, or the
`ValueError` of a row with a column that the first row does not have. -/
def Output.quarantine {κ : Type} [DecidableEq κ] (o : Output) (runId : Text) (step : String)
    (names : List (List κ)) (content : Content) : Output :=
  match names with
  | [] => o
  | fieldnames :: rest =>
      if rest.all fun ns => ns.all fun n => n ∈ fieldnames then
        { o with aside := some (quarantineKey runId step.toList, content) }
      else { o with returns := false }

/-- The main object is put as it is. -/
theorem Output.quarantine_out {κ : Type} [DecidableEq κ] (o : Output) (runId : Text)
    (step : String) (names : List (List κ)) (content : Content) :
    (o.quarantine runId step names content).out = o.out := by
  unfold Output.quarantine
  split
  · rfl
  · split <;> rfl

/-- What a run is given from outside: its hooks and clock, the suppression log it reads, and
whether `write_parquet` can read the `enriched_at` column. -/
structure RunEnv where
  run : PipelineRun
  log : List Event
  toDatetime : List (Row CsvRow × Text) → Bool

inductive Step where
  | schemaValidate
  | normalize
  | validate
  | dedupe
  | suppress
  | assignExternalId
  | writeStaging
  deriving DecidableEq, Repr

def Step.next : Step → Option Step
  | .schemaValidate => some .normalize
  | .normalize => some .validate
  | .validate => some .dedupe
  | .dedupe => some .suppress
  | .suppress => some .assignExternalId
  | .assignExternalId => some .writeStaging
  | .writeStaging => none

/-! ## Step 1 -/

section SchemaValidate

variable (run : PipelineRun)

/-- `_reason`; an aware `enriched_at` passes. The outer `none` is the `TypeError` of
`fromisoformat(None)`. -/
def schemaReason (row : CsvRow) : Option (Except SchemaReason Aware) :=
  if !row.filled "company_name" then some (.error .missingCompanyName)
  else if !row.filled "phone" && !row.filled "email" then some (.error .missingContactIdentifier)
  else
    ((row.get? "enriched_at").getD (some [])).map fun t =>
      match (run.fromisoformat t).bind DateTime.aware with
      | none => .error .invalidEnrichedAt
      | some enrichedAt => .ok enrichedAt

def schemaValidate : List CsvRow → Option (List ValidRow × List (CsvRow × SchemaReason))
  | [] => some ([], [])
  | row :: rows => do
      let decided ← schemaReason run row
      let (valid, quarantined) ← schemaValidate rows
      match decided with
      | .ok enrichedAt => some (⟨row.dated, enrichedAt⟩ :: valid, quarantined)
      | .error reason => some (valid, (row, reason) :: quarantined)

/-- Step 1 can decide the row: it has an `enriched_at`, or is rejected before that is read. -/
def SchemaDecides (row : CsvRow) : Prop :=
  row.filled "company_name" = false ∨
    (row.filled "phone" = false ∧ row.filled "email" = false) ∨
      row.get? "enriched_at" ≠ some none

theorem schemaReason_isSome {row : CsvRow} :
    (schemaReason run row).isSome = true ↔ SchemaDecides row := by
  unfold schemaReason SchemaDecides
  cases row.filled "company_name" with
  | false => simp
  | true =>
    cases hphone : row.filled "phone" <;> cases hemail : row.filled "email"
    · simp
    all_goals
      cases row.get? "enriched_at" with
      | none => simp
      | some v => cases v <;> simp

theorem schemaValidate_isSome {rows : List CsvRow} :
    (schemaValidate run rows).isSome = true ↔ ∀ row ∈ rows, SchemaDecides row := by
  induction rows with
  | nil => simp [schemaValidate]
  | cons row rows ih =>
    rw [List.forall_mem_cons, ← ih, ← schemaReason_isSome run, schemaValidate]
    cases schemaReason run row with
    | none => simp
    | some decided =>
      cases schemaValidate run rows with
      | none => simp
      | some out => cases decided <;> simp

end SchemaValidate

section Handlers

variable {ν : Type} (U : UnicodeData) (P : PhoneNumbers ν) (env : RunEnv) (runId : Text)

/-! ## Step 2 -/

def ValidRow.companyName (v : ValidRow) : Text := ((v.row.get? "company_name").join).getD []

/-- The columns that Normalize reads; a missing `phone` or `email` column is a `KeyError`,
but a row without a usable company is quarantined before. -/
def ValidRow.readable (v : ValidRow) : Bool :=
  (normalizeCompany U (some v.companyName)).isNone ||
    ((v.row.get? "phone").isSome && (v.row.get? "email").isSome)

def ValidRow.toRow (v : ValidRow) : Row CsvRow where
  companyName := v.companyName
  phone := (v.row.get? "phone").join
  email := (v.row.get? "email").join
  enrichedAt := v.enrichedAt
  lastContactedAt := (v.row.get? "last_contacted_at").join
  rest := v.row

def normalizeRows (rows : List ValidRow) : Option (StepOutput CsvRow) :=
  if rows.all (ValidRow.readable U) then some (normalize U P (rows.map ValidRow.toRow)) else none

/-! ## The handlers -/

def rejectedNames (rejected : List (Row CsvRow × Reason)) : List (List Text) :=
  rejected.map fun r => r.1.rest.jsonQuarantineNames

/-- One invocation: `none` raises before anything is written. -/
def handler : Step → Content → Option Output
  | .schemaValidate, .csv rows => do
      let (valid, quarantined) ← schemaValidate env.run rows
      let o : Output := ⟨stepKey runId "01_schema_valid.ndjson".toList, .schemaValid valid, none, true⟩
      some (o.quarantine runId "01_schema" (quarantined.map fun q => q.1.quarantineNames)
        (.schemaQuarantine quarantined))
  | .normalize, .schemaValid rows => do
      let out ← normalizeRows U P rows
      let o : Output := ⟨stepKey runId "02_normalized.ndjson".toList, .rows out.kept, none, true⟩
      some (o.quarantine runId "02_normalize" (rejectedNames out.rejected) (.rejected out.rejected))
  | .validate, .rows rows =>
      let out := validate env.run rows
      let o : Output := ⟨stepKey runId "03_validated.ndjson".toList, .rows out.kept, none, true⟩
      some (o.quarantine runId "03_validate" (rejectedNames out.rejected) (.rejected out.rejected))
  | .dedupe, .rows rows =>
      some ⟨stepKey runId "04_deduped.ndjson".toList, .rows (dedupe rows), none, true⟩
  | .suppress, .rows rows => do
      let out ← suppress U P env.run env.log rows
      some ⟨stepKey runId "05_suppressed.ndjson".toList, .rows out.kept,
        some (stepKey runId "05_excluded.ndjson".toList, .rejected out.rejected), true⟩
  | .assignExternalId, .rows rows => do
      let out ← assign rows
      some ⟨stepKey runId "06_with_ids.ndjson".toList, .withIds out, none, true⟩
  | .writeStaging, .withIds rows =>
      if env.toDatetime rows then some ⟨cleansedKey runId, .parquet rows, none, true⟩ else none
  | _, _ => none

/-! ## The run as a process over the bucket -/

inductive Phase where
  | get (step : Step) (key : Text)
  | putOut (step : Step) (o : Output)
  | putAside (step : Step) (o : Output) (aside : Text × Content)
  | ended (returned : Bool)

def finish (step : Step) (o : Output) : Phase :=
  if o.returns then
    match step.next with
    | none => .ended true
    | some following => .get following o.key
  else .ended false

/-- The next access of a run; a missing object is a `NoSuchKey` error. -/
def action : Phase → Option (StoreAction Text Content Phase)
  | .get step key => some (.read key fun content =>
      match content.bind (handler U P env runId step) with
      | none => .ended false
      | some o => .putOut step o)
  | .putOut step o => some (.write o.key o.out
      (match o.aside with
      | none => finish step o
      | some aside => .putAside step o aside))
  | .putAside step o aside => some (.write aside.1 aside.2 (finish step o))
  | .ended _ => none

end Handlers

end Outreach.Cleansing.Runs
