import Outreach.Cleansing.Conservation
import Outreach.Library.Csv

/-!
# Ragged files

`csv.DictReader` gives a short row null fields, and a long one a surplus under the
key `None`. Step 1 passes a null `enriched_at` to `fromisoformat`, and neither
quarantine file takes a row with a surplus after a first row without one.
-/

namespace Outreach.Cleansing.Runs

open Outreach.Library

set_option autoImplicit false

/-! ## The rows of a file -/

/-- The columns of a record: what is beyond its end is null. -/
def cells (fieldnames : List Text) (record : Csv.Record) : List (Text × Option Text) :=
  fieldnames.zip (record.map some) ++ (fieldnames.drop record.length).map fun name => (name, none)

/-- A row of `csv.DictReader`. -/
def dictRow (fieldnames : List Text) (record : Csv.Record) : CsvRow where
  columns := Dict.ofList (cells fieldnames record)
  surplus :=
    if fieldnames.length < record.length then some (record.drop fieldnames.length) else none

/-- `read_csv_rows` of a decoded text; blank lines are skipped, and `none` is a `csv.Error`. -/
def readCsvRows (text : Text) : Option (List CsvRow) :=
  match Csv.read Csv.python text with
  | none => none
  | some [] => some []
  | some (fieldnames :: records) =>
      some ((records.filter fun record => !record.isEmpty).map (dictRow fieldnames))

theorem map_fst_cells (fieldnames : List Text) (record : Csv.Record) :
    (cells fieldnames record).map Prod.fst = fieldnames := by
  induction fieldnames generalizing record with
  | nil => simp [cells]
  | cons name fieldnames ih =>
    cases record with
    | nil =>
      show ((name :: fieldnames).map fun name => (name, (none : Option Text))).map Prod.fst = _
      rw [List.map_map]
      exact List.map_id _
    | cons value record => exact congrArg (name :: ·) (ih record)

/-- All rows of a file have the columns of its header. -/
theorem readCsvRows_columns {text : Text} {rows : List CsvRow} (h : readCsvRows text = some rows) :
    ∃ fieldnames : List Text, ∀ row ∈ rows, ∀ k, k ∈ row.columns.keys ↔ k ∈ fieldnames := by
  unfold readCsvRows at h
  split at h
  · exact absurd h.symm (Option.some_ne_none rows)
  · cases h
    exact ⟨[], List.forall_mem_nil _⟩
  · rename_i fieldnames records hread
    cases h
    refine ⟨fieldnames, fun row hrow k => ?_⟩
    obtain ⟨record, -, rfl⟩ := List.mem_map.mp hrow
    show k ∈ (Dict.ofList (cells fieldnames record)).keys ↔ _
    rw [Dict.mem_keys_ofList, map_fst_cells]

/-! ## What is claimed -/

section Claim

variable {ν : Type} (U : UnicodeData) (P : PhoneNumbers ν) (env : RunEnv) (runId : Text)

/-- The row that step 1 hands on, if it does. -/
def accepted (run : PipelineRun) (row : CsvRow) : Option ValidRow :=
  match schemaReason run row with
  | some (.ok enrichedAt) => some ⟨row.dated, enrichedAt⟩
  | _ => none

/-- The row that step 1 sets aside, if it does. -/
def refused (run : PipelineRun) (row : CsvRow) : Option (CsvRow × SchemaReason) :=
  match schemaReason run row with
  | some (.error reason) => some (row, reason)
  | _ => none

/-- Step 1 hands the row on, and step 2 sets it aside. -/
def refusedByNormalize (run : PipelineRun) (row : CsvRow) : Bool :=
  (accepted run row).any fun v => rejectedBy (normalizeRow U P) v.toRow

/-- Each row is handed on or set aside, once. -/
def SharedRows (run : PipelineRun) (rows : List CsvRow) (valid : List ValidRow)
    (quarantined : List (CsvRow × SchemaReason)) : Prop :=
  ∃ passed : List CsvRow, (passed ++ quarantined.map Prod.fst).Perm rows ∧
    List.Forall₂ (fun row v => accepted run row = some v) passed valid

/-- The file is read; step 1 returns, with every row in one of its two files; and step 2
returns. -/
def SchemaProtects (text : Text) : Prop :=
  ∃ rows valid quarantined o o', readCsvRows text = some rows ∧
    handler U P env runId .schemaValidate (.csv rows) = some o ∧ o.returns = true ∧
    o.out = .schemaValid valid ∧
    o.aside = (if quarantined = [] then none
      else some (quarantineKey runId "01_schema".toList, .schemaQuarantine quarantined)) ∧
    SharedRows env.run rows valid quarantined ∧
    handler U P env runId .normalize (.schemaValid valid) = some o' ∧ o'.returns = true

/-- None of the rows is longer than the header, unless the first of them is `covered`. -/
def FirstCovers (covered : CsvRow → Bool) (rows : List CsvRow) : Prop :=
  ∀ first others, rows = first :: others →
    ∀ r ∈ others, r.surplus.isSome = true → covered first = true

/-- The rows of a file with which both steps can deal. -/
structure Regular (rows : List CsvRow) : Prop where
  /-- a row with a company and an identifier has an `enriched_at` that is not null -/
  decided : ∀ row ∈ rows, SchemaDecides row
  quarantine : FirstCovers (fun row => row.surplus.isSome)
    (rows.filter fun row => (refused env.run row).isSome)
  /-- a row that is handed on has both columns, or no company is left of it -/
  readable : ∀ row ∈ rows, ∀ v, accepted env.run row = some v → v.readable U = true
  rejected : FirstCovers (fun row => row.surplus.isSome || (row.get? "null").isSome)
    (rows.filter (refusedByNormalize U P env.run))

end Claim

/-! ## The quarantine files -/

section Quarantine

variable {κ : Type}

/-- The columns of the first row are those of the file. -/
def Covers (names : List (List κ)) : Prop :=
  ∀ first others, names = first :: others → ∀ ns ∈ others, ∀ n ∈ ns, n ∈ first

/-- With equal columns otherwise, only a surplus is in the way. -/
theorem covers_map_iff {names : CsvRow → List κ} {covered : CsvRow → Bool} {rows : List CsvRow}
    (h : ∀ r ∈ rows, ∀ r' ∈ rows, (∀ n ∈ names r', n ∈ names r) ↔
      (r'.surplus.isSome = true → covered r = true)) :
    Covers (rows.map names) ↔ FirstCovers covered rows := by
  unfold Covers FirstCovers
  cases rows with
  | nil =>
    exact iff_of_true (fun _ _ h => absurd h.symm (List.cons_ne_nil _ _))
      fun _ _ h => absurd h.symm (List.cons_ne_nil _ _)
  | cons first others =>
    have hfirst := h first List.mem_cons_self
    simp only [List.map_cons, List.cons.injEq]
    constructor
    · intro hcovers first' others' hsame r hr
      obtain ⟨rfl, rfl⟩ := hsame
      exact (hfirst r (List.mem_cons_of_mem _ hr)).mp
        (hcovers _ _ ⟨rfl, rfl⟩ _ (List.mem_map_of_mem hr))
    · intro hcovers first' others' hsame ns hns
      obtain ⟨rfl, rfl⟩ := hsame
      obtain ⟨r, hr, rfl⟩ := List.mem_map.mp hns
      exact (hfirst r (List.mem_cons_of_mem _ hr)).mpr (hcovers _ _ ⟨rfl, rfl⟩ r hr)

variable [DecidableEq κ]

theorem quarantine_returns {o : Output} (ho : o.returns = true) (runId : Text) (step : String)
    (names : List (List κ)) (content : Content) :
    (o.quarantine runId step names content).returns = true ↔ Covers names := by
  cases names with
  | nil => exact iff_of_true ho fun _ _ h => absurd h.symm (List.cons_ne_nil _ _)
  | cons first others =>
    have hcovers : Covers (first :: others) ↔
        (others.all fun ns => ns.all fun n => n ∈ first) = true := by
      simp only [Covers, List.all_eq_true, decide_eq_true_eq, List.cons.injEq]
      constructor
      · intro h
        exact h first others ⟨rfl, rfl⟩
      · intro h first' others' hsame
        obtain ⟨rfl, rfl⟩ := hsame
        exact h
    rw [hcovers, Output.quarantine]
    split
    · rename_i hall
      exact iff_of_true ho hall
    · rename_i hall
      exact iff_of_false Bool.false_ne_true hall

theorem quarantine_aside {o : Output} (runId : Text) (step : String) {names : List (List κ)}
    (content : Content) (haside : o.aside = none)
    (hreturns : (o.quarantine runId step names content).returns = true) :
    (o.quarantine runId step names content).aside =
      if names = [] then none else some (quarantineKey runId step.toList, content) := by
  unfold Output.quarantine at hreturns ⊢
  cases names with
  | nil => exact haside
  | cons first others =>
    rw [if_neg (List.cons_ne_nil _ _)]
    simp only at hreturns ⊢
    split at hreturns
    · rename_i hall
      rw [if_pos hall]
    · exact absurd hreturns Bool.false_ne_true

end Quarantine

theorem mem_quarantineNames {row : CsvRow} {n : Option Text} :
    n ∈ row.quarantineNames ↔ (∃ k ∈ row.columns.keys, n = some k) ∨
      (n = none ∧ row.surplus.isSome = true) ∨ n = some "reason".toList := by
  unfold CsvRow.quarantineNames
  cases row.surplus <;> simp [eq_comm]

theorem mem_jsonQuarantineNames {row : CsvRow} {n : Text} :
    n ∈ row.jsonQuarantineNames ↔ n ∈ row.columns.keys ∨
      (n = "null".toList ∧ row.surplus.isSome = true) ∨ n = "reason".toList := by
  unfold CsvRow.jsonQuarantineNames
  cases row.surplus <;> simp

theorem quarantineNames_covers {r r' : CsvRow}
    (hcolumns : ∀ k, k ∈ r'.columns.keys ↔ k ∈ r.columns.keys) :
    (∀ n ∈ r'.quarantineNames, n ∈ r.quarantineNames) ↔
      (r'.surplus.isSome = true → r.surplus.isSome = true) := by
  simp only [mem_quarantineNames]
  constructor
  · intro h hsurplus
    rcases h none (Or.inr (Or.inl ⟨rfl, hsurplus⟩)) with ⟨k, -, hk⟩ | hnone | hreason
    · exact absurd hk.symm (Option.some_ne_none k)
    · exact hnone.2
    · exact absurd hreason.symm (Option.some_ne_none _)
  · intro h n hn
    rcases hn with ⟨k, hk, rfl⟩ | ⟨rfl, hsurplus⟩ | rfl
    · exact Or.inl ⟨k, (hcolumns k).mp hk, rfl⟩
    · exact Or.inr (Or.inl ⟨rfl, h hsurplus⟩)
    · exact Or.inr (Or.inr rfl)

theorem jsonQuarantineNames_covers {r r' : CsvRow}
    (hcolumns : ∀ k, k ∈ r'.columns.keys ↔ k ∈ r.columns.keys) :
    (∀ n ∈ r'.dated.jsonQuarantineNames, n ∈ r.dated.jsonQuarantineNames) ↔
      (r'.surplus.isSome = true → (r.surplus.isSome || (r.get? "null").isSome) = true) := by
  have hnull : (r.get? "null").isSome = true ↔ "null".toList ∈ r.columns.keys := by
    rw [Dict.mem_keys_iff, ← Option.isSome_iff_exists]
    rfl
  simp only [mem_jsonQuarantineNames, CsvRow.dated, Dict.mem_keys_set, Bool.or_eq_true, hnull]
  constructor
  · intro h hsurplus
    rcases h "null".toList (Or.inr (Or.inl ⟨rfl, hsurplus⟩)) with (hdate | hkey) | hsame | hreason
    · exact absurd hdate (by decide)
    · exact Or.inr hkey
    · exact Or.inl hsame.2
    · exact absurd hreason (by decide)
  · intro h n hn
    rcases hn with (hdate | hkey) | ⟨rfl, hsurplus⟩ | hreason
    · exact Or.inl (Or.inl hdate)
    · exact Or.inl (Or.inr ((hcolumns n).mp hkey))
    · rcases h hsurplus with hsame | hkey
      · exact Or.inr (Or.inl ⟨rfl, hsame⟩)
      · exact Or.inl (Or.inr hkey)
    · exact Or.inr (Or.inr hreason)

/-! ## The two steps -/

section Steps

variable {ν : Type} {U : UnicodeData} {P : PhoneNumbers ν} {env : RunEnv} {runId : Text}
  {rows : List CsvRow}

theorem schemaValidate_eq (run : PipelineRun) (h : ∀ row ∈ rows, SchemaDecides row) :
    schemaValidate run rows =
      some (rows.filterMap (accepted run), rows.filterMap (refused run)) := by
  induction rows with
  | nil => rfl
  | cons row rows ih =>
    obtain ⟨hrow, hrows⟩ := List.forall_mem_cons.mp h
    obtain ⟨decided, hdecided⟩ := Option.isSome_iff_exists.mp ((schemaReason_isSome run).mpr hrow)
    rw [schemaValidate, hdecided, ih hrows]
    cases decided with
    | ok enrichedAt => simp [accepted, refused, hdecided]
    | error reason => simp [accepted, refused, hdecided]

theorem sharedRows (run : PipelineRun) (h : ∀ row ∈ rows, SchemaDecides row) :
    SharedRows run rows (rows.filterMap (accepted run)) (rows.filterMap (refused run)) := by
  induction rows with
  | nil => exact ⟨[], .nil, .nil⟩
  | cons row rows ih =>
    obtain ⟨hrow, hrows⟩ := List.forall_mem_cons.mp h
    obtain ⟨passed, hperm, hall⟩ := ih hrows
    obtain ⟨decided, hdecided⟩ := Option.isSome_iff_exists.mp ((schemaReason_isSome run).mpr hrow)
    cases decided with
    | ok enrichedAt =>
      have haccepted : accepted run row = some ⟨row.dated, enrichedAt⟩ := by
        rw [accepted, hdecided]
      have hrefused : refused run row = none := by rw [refused, hdecided]
      rw [List.filterMap_cons_some haccepted, List.filterMap_cons_none hrefused]
      exact ⟨row :: passed, hperm.cons row, .cons haccepted hall⟩
    | error reason =>
      have haccepted : accepted run row = none := by rw [accepted, hdecided]
      have hrefused : refused run row = some (row, reason) := by rw [refused, hdecided]
      rw [List.filterMap_cons_none haccepted, List.filterMap_cons_some hrefused]
      exact ⟨passed, List.perm_middle.trans (hperm.cons row), hall⟩

theorem refused_names (run : PipelineRun) (rows : List CsvRow) :
    (rows.filterMap (refused run)).map (fun q => q.1.quarantineNames) =
      (rows.filter fun row => (refused run row).isSome).map CsvRow.quarantineNames := by
  induction rows with
  | nil => rfl
  | cons row rows ih =>
    cases hrow : refused run row with
    | none => simpa [List.filterMap_cons, hrow] using ih
    | some q =>
      have hq : q.1 = row := by
        unfold refused at hrow
        split at hrow
        · exact (Option.some.inj hrow) ▸ rfl
        · exact absurd hrow.symm (Option.some_ne_none q)
      simpa [List.filterMap_cons, hrow, hq] using ih

/-- The columns that a row has when Normalize sets it aside. -/
theorem refusedByNormalize_names (run : PipelineRun) (rows : List CsvRow) :
    ((((rows.filterMap (accepted run)).map ValidRow.toRow).filter
      (rejectedBy (normalizeRow U P))).map fun r => r.rest.jsonQuarantineNames) =
        (rows.filter (refusedByNormalize U P run)).map fun row => row.dated.jsonQuarantineNames := by
  induction rows with
  | nil => rfl
  | cons row rows ih =>
    cases hrow : accepted run row with
    | none => simpa [List.filterMap_cons, hrow, refusedByNormalize] using ih
    | some v =>
      have hv : v.toRow.rest = row.dated := by
        unfold accepted at hrow
        split at hrow
        · exact (Option.some.inj hrow) ▸ rfl
        · exact absurd hrow.symm (Option.some_ne_none v)
      cases hrejected : rejectedBy (normalizeRow U P) v.toRow with
      | true => simpa [List.filterMap_cons, hrow, refusedByNormalize, hrejected, hv] using ih
      | false => simpa [List.filterMap_cons, hrow, refusedByNormalize, hrejected] using ih

theorem normalize_names (run : PipelineRun) (rows : List CsvRow) :
    rejectedNames (normalize U P ((rows.filterMap (accepted run)).map ValidRow.toRow)).rejected =
      (rows.filter (refusedByNormalize U P run)).map fun row => row.dated.jsonQuarantineNames := by
  rw [← refusedByNormalize_names, ← rejected_partitionRows, List.map_map]
  rfl

variable (env runId rows) in
/-- What step 1 leaves when it can decide all rows. -/
def schemaOutput : Output :=
  Output.quarantine ⟨stepKey runId "01_schema_valid.ndjson".toList,
    .schemaValid (rows.filterMap (accepted env.run)), none, true⟩ runId "01_schema"
    ((rows.filterMap (refused env.run)).map fun q => q.1.quarantineNames)
    (.schemaQuarantine (rows.filterMap (refused env.run)))

variable (U P env runId rows) in
/-- What step 2 leaves of the rows that step 1 handed on. -/
def normalizeOutput : Output :=
  let out := normalize U P ((rows.filterMap (accepted env.run)).map ValidRow.toRow)
  Output.quarantine ⟨stepKey runId "02_normalized.ndjson".toList, .rows out.kept, none, true⟩ runId
    "02_normalize" (rejectedNames out.rejected) (.rejected out.rejected)

theorem handler_schemaValidate {o : Output} :
    handler U P env runId .schemaValidate (.csv rows) = some o ↔
      (∀ row ∈ rows, SchemaDecides row) ∧ o = schemaOutput env runId rows := by
  constructor
  · intro ho
    obtain ⟨shared, hshared, ho⟩ := Option.bind_eq_some_iff.mp ho
    have hdecides : ∀ row ∈ rows, SchemaDecides row :=
      (schemaValidate_isSome env.run).mp (Option.isSome_iff_exists.mpr ⟨shared, hshared⟩)
    rw [schemaValidate_eq env.run hdecides] at hshared
    cases hshared
    exact ⟨hdecides, (Option.some.inj ho).symm⟩
  · intro h
    obtain ⟨hdecides, rfl⟩ := h
    simp only [handler, schemaValidate_eq env.run hdecides, Option.bind_eq_bind, Option.bind_some]
    rfl

theorem handler_normalize {o : Output} :
    handler U P env runId .normalize (.schemaValid (rows.filterMap (accepted env.run))) = some o ↔
      (∀ row ∈ rows, ∀ v, accepted env.run row = some v → v.readable U = true) ∧
        o = normalizeOutput U P env runId rows := by
  have hall : ((rows.filterMap (accepted env.run)).all (ValidRow.readable U)) = true ↔
      ∀ row ∈ rows, ∀ v, accepted env.run row = some v → v.readable U = true := by
    rw [List.all_eq_true]
    constructor
    · intro h row hrow v hv
      exact h v (List.mem_filterMap.mpr ⟨row, hrow, hv⟩)
    · intro h v hv
      obtain ⟨row, hrow, hv⟩ := List.mem_filterMap.mp hv
      exact h row hrow v hv
  rw [← hall]
  constructor
  · intro ho
    obtain ⟨out, hout, ho⟩ := Option.bind_eq_some_iff.mp ho
    unfold normalizeRows at hout
    split at hout
    · rename_i hreadable
      cases hout
      exact ⟨hreadable, (Option.some.inj ho).symm⟩
    · exact absurd hout.symm (Option.some_ne_none out)
  · intro h
    obtain ⟨hreadable, rfl⟩ := h
    simp only [handler, normalizeRows, hreadable, if_true, Option.bind_eq_bind, Option.bind_some]
    rfl

/-- In the rows of one file, the quarantine file of step 1 breaks at a surplus only. -/
theorem schemaOutput_returns
    (hcolumns : ∀ r ∈ rows, ∀ r' ∈ rows, ∀ k, k ∈ r'.columns.keys ↔ k ∈ r.columns.keys) :
    (schemaOutput env runId rows).returns = true ↔
      FirstCovers (fun row => row.surplus.isSome)
        (rows.filter fun row => (refused env.run row).isSome) := by
  rw [schemaOutput, quarantine_returns rfl, refused_names]
  refine covers_map_iff fun r hr r' hr' => quarantineNames_covers ?_
  exact hcolumns r (List.mem_of_mem_filter hr) r' (List.mem_of_mem_filter hr')

theorem normalizeOutput_returns
    (hcolumns : ∀ r ∈ rows, ∀ r' ∈ rows, ∀ k, k ∈ r'.columns.keys ↔ k ∈ r.columns.keys) :
    (normalizeOutput U P env runId rows).returns = true ↔
      FirstCovers (fun row => row.surplus.isSome || (row.get? "null").isSome)
        (rows.filter (refusedByNormalize U P env.run)) := by
  rw [normalizeOutput, quarantine_returns rfl, normalize_names]
  refine covers_map_iff fun r hr r' hr' => jsonQuarantineNames_covers ?_
  exact hcolumns r (List.mem_of_mem_filter hr) r' (List.mem_of_mem_filter hr')

end Steps

/-- The first two steps get through a file exactly when it can be read and is regular. -/
theorem schema_protects_iff {ν : Type} (U : UnicodeData) (P : PhoneNumbers ν) (env : RunEnv)
    (runId text : Text) :
    SchemaProtects U P env runId text ↔
      ∃ rows, readCsvRows text = some rows ∧ Regular U P env rows := by
  have hcolumns : ∀ rows, readCsvRows text = some rows →
      ∀ r ∈ rows, ∀ r' ∈ rows, ∀ k, k ∈ r'.columns.keys ↔ k ∈ r.columns.keys := by
    intro rows hread r hr r' hr' k
    obtain ⟨fieldnames, hfields⟩ := readCsvRows_columns hread
    rw [hfields r' hr', hfields r hr]
  constructor
  · intro h
    obtain ⟨rows, valid, quarantined, o, o', hread, ho, hreturns, hout, -, -, ho', hreturns'⟩ := h
    obtain ⟨hdecides, rfl⟩ := handler_schemaValidate.mp ho
    rw [schemaOutput, Output.quarantine_out] at hout
    cases hout
    obtain ⟨hreadable, rfl⟩ := handler_normalize.mp ho'
    exact ⟨rows, hread, hdecides, (schemaOutput_returns (hcolumns rows hread)).mp hreturns,
      hreadable, (normalizeOutput_returns (hcolumns rows hread)).mp hreturns'⟩
  · intro h
    obtain ⟨rows, hread, hregular⟩ := h
    have hreturns : (schemaOutput env runId rows).returns = true :=
      (schemaOutput_returns (hcolumns rows hread)).mpr hregular.quarantine
    refine ⟨rows, _, _, _, _, hread, handler_schemaValidate.mpr ⟨hregular.decided, rfl⟩, hreturns,
      Output.quarantine_out _ _ _ _ _, ?_, sharedRows env.run hregular.decided,
      handler_normalize.mpr ⟨hregular.readable, rfl⟩,
      (normalizeOutput_returns (hcolumns rows hread)).mpr hregular.rejected⟩
    rw [schemaOutput, quarantine_aside runId "01_schema" _ rfl hreturns]
    simp only [List.map_eq_nil_iff]

/-- The row ends before the last column of the header. -/
def shortRow : Text := "company_name,phone,email,enriched_at\nAcme,+16502530000\n".toList

def laterEnv : RunEnv where
  run := tenDaysLater
  log := []
  toDatetime _ := true

/-- `fromisoformat(None)` -/
theorem shortRow_raises : ¬ SchemaProtects .plain .e164 laterEnv "leads".toList shortRow := by
  intro h
  obtain ⟨rows, valid, quarantined, o, o', hread, ho, -⟩ := h
  have hundecided : ((readCsvRows shortRow).map fun rows =>
      rows.map fun row => (schemaReason laterEnv.run row).isSome) = some [false] := by decide +kernel
  rw [hread] at hundecided
  obtain ⟨row, rfl, hrow⟩ := List.map_eq_singleton_iff.mp (Option.some.inj hundecided)
  have hdecides := (handler_schemaValidate.mp ho).1 row List.mem_cons_self
  exact Bool.false_ne_true (hrow.symm.trans ((schemaReason_isSome laterEnv.run).mpr hdecides))

end Outreach.Cleansing.Runs
