import Outreach.Cleansing.Ragged

/-!
# The dates that Suppress compares

Step 1 parses `enriched_at` and hands `last_contacted_at` on as it stands. Steps 2
to 4 carry the text, and Suppress parses it and subtracts it from `as_of`: a text
that is no date, or that has an offset where `as_of` has none, raises for the
whole batch.
-/

namespace Outreach.Cleansing.Runs

open Outreach.Library Outreach.Suppression

set_option autoImplicit false

/-- `row.get("last_contacted_at") or None` -/
def CsvRow.contactedAt (row : CsvRow) : Option Text :=
  (row.get? "last_contacted_at").join.filter fun t => !t.isEmpty

section Claim

variable {ν : Type} (U : UnicodeData) (P : PhoneNumbers ν) (env : RunEnv) (runId : Text)

/-- What a step hands to the next one. -/
def handedOn (step : Step) (content : Content) : Option Content :=
  (handler U P env runId step content).map Output.out

/-- What steps 1 to 4 make of the rows of a file. -/
def carried (rows : List CsvRow) : Option Content :=
  (((handedOn U P env runId .schemaValidate (.csv rows)).bind
    (handedOn U P env runId .normalize)).bind
      (handedOn U P env runId .validate)).bind (handedOn U P env runId .dedupe)

/-- The contact time, if there is one, can be subtracted from `as_of`. -/
def Dated (run : PipelineRun) (contactedAt : Option Text) : Prop :=
  ∀ t, contactedAt = some t →
    ∃ d, run.fromisoformat t = some d ∧ d.offset.isSome = run.asOf.offset.isSome

/-- Suppress returns with every row in one of its two files, and keeps none whose contact
time cannot be compared. -/
def SuppressTotal (rows : List CsvRow) : Prop :=
  ∀ content, carried U P env runId rows = some content →
    ∃ deduped kept excluded, content = .rows deduped ∧
      handler U P env runId .suppress content =
        some ⟨stepKey runId "05_suppressed.ndjson".toList, .rows kept,
          some (stepKey runId "05_excluded.ndjson".toList, .rejected excluded), true⟩ ∧
      (kept ++ excluded.map Prod.fst).Perm deduped ∧ ∀ r ∈ kept, Dated env.run r.lastContactedAt

/-- The row as Dedupe finds it, if steps 1 to 3 let it through. -/
def arriving (run : PipelineRun) (row : CsvRow) : Option (Row CsvRow) :=
  (accepted run row).bind fun v => prepared U P run v.toRow

/-- Step 1 can decide every row, and Normalize can read every row that is handed on. -/
def Carries (rows : List CsvRow) : Prop :=
  (∀ row ∈ rows, SchemaDecides row) ∧
    ∀ row ∈ rows, ∀ v, accepted env.run row = some v → v.readable U = true

end Claim

section Proofs

variable {ν : Type} {U : UnicodeData} {P : PhoneNumbers ν} {env : RunEnv} {runId : Text}
  {rows : List CsvRow}

/-! ## The text on its way -/

theorem dated_lastContactedAt (row : CsvRow) :
    (row.dated.get? "last_contacted_at").join = row.contactedAt := by
  show (row.dated.columns.get? "last_contacted_at".toList).join = _
  rw [CsvRow.dated, Dict.get?_set, if_pos rfl]
  rfl

/-- Nothing changes the text before Suppress. -/
theorem arriving_lastContactedAt {row : CsvRow} {r : Row CsvRow}
    (h : arriving U P env.run row = some r) : r.lastContactedAt = row.contactedAt := by
  obtain ⟨v, hv, hr⟩ := Option.bind_eq_some_iff.mp h
  obtain ⟨company, -, -, rfl⟩ := (prepared_eq_some U P env.run).mp hr
  rw [← dated_lastContactedAt]
  unfold accepted at hv
  split at hv
  · obtain rfl := Option.some.inj hv
    rfl
  · exact absurd hv.symm (Option.some_ne_none v)

theorem arriving_identified {row : CsvRow} {r : Row CsvRow}
    (h : arriving U P env.run row = some r) : Identified r := by
  obtain ⟨v, -, hr⟩ := Option.bind_eq_some_iff.mp h
  obtain ⟨company, -, hid, rfl⟩ := (prepared_eq_some U P env.run).mp hr
  exact hid

theorem survivors_accepted (rows : List CsvRow) :
    (validate env.run (normalize U P
      ((rows.filterMap (accepted env.run)).map ValidRow.toRow)).kept).kept =
        rows.filterMap (arriving U P env.run) := by
  rw [survivors_eq, List.map_filterMap, List.filterMap_filterMap]
  congr
  funext row
  unfold arriving
  cases accepted env.run row <;> rfl

/-! ## Steps 1 to 4 -/

theorem handedOn_schemaValidate {content : Content} :
    handedOn U P env runId .schemaValidate (.csv rows) = some content ↔
      (∀ row ∈ rows, SchemaDecides row) ∧ content = .schemaValid (rows.filterMap (accepted env.run)) := by
  rw [handedOn, Option.map_eq_some_iff]
  constructor
  · intro h
    obtain ⟨o, ho, rfl⟩ := h
    obtain ⟨hdecides, rfl⟩ := handler_schemaValidate.mp ho
    exact ⟨hdecides, Output.quarantine_out _ _ _ _ _⟩
  · intro h
    obtain ⟨hdecides, rfl⟩ := h
    exact ⟨_, handler_schemaValidate.mpr ⟨hdecides, rfl⟩, Output.quarantine_out _ _ _ _ _⟩

theorem handedOn_normalize {content : Content} :
    handedOn U P env runId .normalize (.schemaValid (rows.filterMap (accepted env.run))) =
        some content ↔
      (∀ row ∈ rows, ∀ v, accepted env.run row = some v → v.readable U = true) ∧
        content = .rows (normalize U P ((rows.filterMap (accepted env.run)).map ValidRow.toRow)).kept := by
  rw [handedOn, Option.map_eq_some_iff]
  constructor
  · intro h
    obtain ⟨o, ho, rfl⟩ := h
    obtain ⟨hreadable, rfl⟩ := handler_normalize.mp ho
    exact ⟨hreadable, Output.quarantine_out _ _ _ _ _⟩
  · intro h
    obtain ⟨hreadable, rfl⟩ := h
    exact ⟨_, handler_normalize.mpr ⟨hreadable, rfl⟩, Output.quarantine_out _ _ _ _ _⟩

theorem handedOn_validate (rows : List (Row CsvRow)) :
    handedOn U P env runId .validate (.rows rows) = some (.rows (validate env.run rows).kept) := by
  rw [handedOn, handler, Option.map_some, Output.quarantine_out]

theorem carried_eq_some {content : Content} :
    carried U P env runId rows = some content ↔
      Carries U env rows ∧
        content = .rows (dedupe (rows.filterMap (arriving U P env.run))) := by
  rw [← survivors_accepted]
  constructor
  · intro h
    obtain ⟨validated, h, hdeduped⟩ := Option.bind_eq_some_iff.mp h
    obtain ⟨normalized, h, hvalidated⟩ := Option.bind_eq_some_iff.mp h
    obtain ⟨valid, hvalid, hnormalized⟩ := Option.bind_eq_some_iff.mp h
    obtain ⟨hdecides, rfl⟩ := handedOn_schemaValidate.mp hvalid
    obtain ⟨hreadable, rfl⟩ := handedOn_normalize.mp hnormalized
    rw [handedOn_validate] at hvalidated
    obtain rfl := Option.some.inj hvalidated
    exact ⟨⟨hdecides, hreadable⟩, (Option.some.inj hdeduped).symm⟩
  · intro h
    obtain ⟨⟨hdecides, hreadable⟩, rfl⟩ := h
    rw [carried, handedOn_schemaValidate.mpr ⟨hdecides, rfl⟩, Option.bind_some,
      handedOn_normalize.mpr ⟨hreadable, rfl⟩, Option.bind_some, handedOn_validate]
    rfl

/-! ## Step 5 -/

theorem dated_iff {run : PipelineRun} {contactedAt : Option Text} :
    Dated run contactedAt ↔ cooling run contactedAt ≠ none := by
  unfold Dated
  cases contactedAt with
  | none => simp [cooling]
  | some t =>
    cases ht : run.fromisoformat t with
    | none => simp [cooling, ht]
    | some d =>
      rw [cooling_isSome ht]
      simp [ht]

theorem suppress_isSome_of_handler {rows : List (Row CsvRow)} {o : Output}
    (h : handler U P env runId .suppress (.rows rows) = some o) :
    (suppress U P env.run env.log rows).isSome = true := by
  obtain ⟨out, hout, -⟩ := Option.bind_eq_some_iff.mp h
  exact Option.isSome_iff_exists.mpr ⟨out, hout⟩

/-- Every row that Dedupe keeps has a contact time that can be compared, or is listed. -/
theorem all_decided_iff :
    (∀ x ∈ dedupe (rows.filterMap (arriving U P env.run)), Decided U P env.run env.log x) ↔
      ∀ row ∈ rows, ∀ r, arriving U P env.run row = some r →
        Survives (rows.filterMap (arriving U P env.run)) r →
          (report U P (currentSet env.log) r.phone r.email).suppressed = false →
            Dated env.run row.contactedAt := by
  constructor
  · intro h row _ r hr hsurvives hunlisted
    have hdecided := h _ (mem_dedupe_iff.mpr ⟨r, hsurvives, rfl⟩)
    rw [dated_iff, ← arriving_lastContactedAt hr]
    exact hdecided.2 hunlisted
  · intro h x hx
    obtain ⟨r, hsurvives, rfl⟩ := mem_dedupe_iff.mp hx
    obtain ⟨row, hrow, hr⟩ := List.mem_filterMap.mp hsurvives.mem
    have hid : Identified r := arriving_identified hr
    refine ⟨hid, fun hunlisted => ?_⟩
    have hdated := h row hrow r hr hsurvives hunlisted
    rw [dated_iff, ← arriving_lastContactedAt hr] at hdated
    exact hdated

end Proofs

/-- Suppress gets through what steps 1 to 4 carry to it exactly when every row that Dedupe
keeps and the suppression list does not match has no contact time or a comparable one. -/
theorem suppress_total_iff {ν : Type} (U : UnicodeData) (P : PhoneNumbers ν) (env : RunEnv)
    (runId : Text) (rows : List CsvRow) :
    SuppressTotal U P env runId rows ↔ (Carries U env rows →
      ∀ row ∈ rows, ∀ r, arriving U P env.run row = some r →
        Survives (rows.filterMap (arriving U P env.run)) r →
          (report U P (currentSet env.log) r.phone r.email).suppressed = false →
            Dated env.run row.contactedAt) := by
  rw [← all_decided_iff]
  constructor
  · intro h hcarries
    obtain ⟨deduped, kept, excluded, hsame, ho, -⟩ := h _ (carried_eq_some.mpr ⟨hcarries, rfl⟩)
    have hreturns := suppress_isSome_of_handler ho
    rw [suppress_eq, decideRows_isSome] at hreturns
    exact fun x hx => verdict_isSome.mp (hreturns x hx)
  · intro h content hcontent
    obtain ⟨hcarries, rfl⟩ := carried_eq_some.mp hcontent
    have hdecided := h hcarries
    obtain ⟨out, hout⟩ := Option.isSome_iff_exists.mp
      (decideRows_isSome.mpr fun x hx => verdict_isSome.mpr (hdecided x hx))
    refine ⟨_, out.kept, out.rejected, rfl, ?_, perm_decideRows hout, fun r hr => ?_⟩
    · rw [← suppress_eq] at hout
      simp only [handler, hout, Option.bind_eq_bind, Option.bind_some]
    · have hkept := verdict_kept.mp ((mem_kept_decideRows hout).mp hr).2
      rw [dated_iff, hkept.2.2]
      exact Option.some_ne_none false

/-- A good row, but for a cell that nobody has looked at. -/
def soonRow : CsvRow where
  columns := Dict.ofList [("company_name".toList, some "Acme".toList),
    ("phone".toList, some "+16502530000".toList), ("email".toList, some []),
    ("enriched_at".toList, some "2026-07-01T00:00:00+00:00".toList),
    ("last_contacted_at".toList, some "soon".toList)]

theorem soonRow_raises : ¬ SuppressTotal .plain .e164 laterEnv "leads".toList [soonRow] := by
  intro h
  have hdecides : (schemaReason laterEnv.run soonRow).isSome = true := by decide +kernel
  have hreadable : (accepted laterEnv.run soonRow).all (ValidRow.readable .plain) = true := by
    decide +kernel
  have hcarries : Carries .plain laterEnv [soonRow] :=
    ⟨List.forall_mem_singleton.mpr ((schemaReason_isSome laterEnv.run).mp hdecides),
      List.forall_mem_singleton.mpr ((Option.all_eq_true _ _).mp hreadable)⟩
  obtain ⟨deduped, kept, excluded, -, ho, -⟩ := h _ (carried_eq_some.mpr ⟨hcarries, rfl⟩)
  have hraises : (suppress .plain .e164 laterEnv.run laterEnv.log
      (dedupe ([soonRow].filterMap (arriving .plain .e164 laterEnv.run)))).isSome = false := by
    decide +kernel
  exact Bool.false_ne_true (hraises.symm.trans (suppress_isSome_of_handler ho))

end Outreach.Cleansing.Runs
