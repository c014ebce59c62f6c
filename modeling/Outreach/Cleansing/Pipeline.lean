import Outreach.Suppression.Store

/-!
# Normalize, Validate, Dedupe, Suppress: `cleansing/steps/`

Each step reads a list of rows and writes one; a step that raises writes
nothing. The columns that no step reads are the field `rest`. Deliverability,
line types and `datetime.fromisoformat` are functions of the run. The two caches
(mail domains, suppression list) turn out to be invisible: each step decides row
by row, Dedupe apart.
-/

namespace Outreach.Cleansing

open Outreach.Library Outreach.Suppression

set_option autoImplicit false

/-- A row; step 1 lets only an aware `enriched_at` through. -/
structure Row (α : Type) where
  companyName : Text
  phone : Option Text
  email : Option Text
  enrichedAt : Aware
  lastContactedAt : Option Text
  lineType : Option Text := none
  normalizedKey : Option Text := none
  rest : α
  deriving DecidableEq

inductive Reason where
  | companyEmptyAfterNormalization
  | noValidIdentifier
  | emailDomainHasNoMx
  | suppressed
  | cooldown
  deriving DecidableEq, Repr

/-- The kept rows, and the rejected ones with the reason that is written beside them. -/
structure StepOutput (α : Type) where
  kept : List (Row α)
  rejected : List (Row α × Reason)

/-- The loop of a step that decides each row by itself. -/
def partitionRows {α : Type} (f : Row α → Except Reason (Row α)) : List (Row α) → StepOutput α
  | [] => ⟨[], []⟩
  | row :: rows =>
      let out := partitionRows f rows
      match f row with
      | .ok r => { out with kept := r :: out.kept }
      | .error reason => { out with rejected := (row, reason) :: out.rejected }

theorem kept_partitionRows {α : Type} (f : Row α → Except Reason (Row α)) (rows : List (Row α)) :
    (partitionRows f rows).kept = rows.filterMap fun row => (f row).toOption := by
  induction rows with
  | nil => rfl
  | cons row rows ih =>
    rw [partitionRows, List.filterMap_cons]
    cases hrow : f row with
    | ok r => simp [Except.toOption, ih]
    | error reason => simp [Except.toOption, ih]

def StepOutput.add {α : Type} (row : Row α) (why : Option Reason) (out : StepOutput α) :
    StepOutput α :=
  match why with
  | none => { out with kept := row :: out.kept }
  | some reason => { out with rejected := (row, reason) :: out.rejected }

/-- The loop of a step that may raise at a row: `none` raises, `some none` keeps it. -/
def decideRows {α : Type} (v : Row α → Option (Option Reason)) :
    List (Row α) → Option (StepOutput α)
  | [] => some ⟨[], []⟩
  | row :: rows => (v row).bind fun why => (decideRows v rows).map (·.add row why)

theorem decideRows_isSome {α : Type} {v : Row α → Option (Option Reason)} {rows : List (Row α)} :
    (decideRows v rows).isSome = true ↔ ∀ row ∈ rows, (v row).isSome = true := by
  induction rows with
  | nil => simp [decideRows]
  | cons row rows ih =>
    rw [decideRows, List.forall_mem_cons, ← ih]
    cases v row with
    | none => simp
    | some why => simp

theorem mem_kept_decideRows {α : Type} {v : Row α → Option (Option Reason)} {rows : List (Row α)}
    {out : StepOutput α} (h : decideRows v rows = some out) {r : Row α} :
    r ∈ out.kept ↔ r ∈ rows ∧ v r = some none := by
  induction rows generalizing out with
  | nil =>
    cases h
    simp
  | cons row rows ih =>
    obtain ⟨why, hv, h⟩ := Option.bind_eq_some_iff.mp h
    obtain ⟨rest, hrest, rfl⟩ := Option.map_eq_some_iff.mp h
    cases why with
    | none =>
      rw [StepOutput.add, List.mem_cons, ih hrest, List.mem_cons, or_and_right]
      exact or_congr_left ⟨fun e => ⟨e, e ▸ hv⟩, And.left⟩
    | some reason =>
      have hne : ¬ (r = row ∧ v r = some none) := by
        intro h
        obtain ⟨rfl, hr⟩ := h
        rw [hv] at hr
        exact nomatch hr
      rw [StepOutput.add, ih hrest, List.mem_cons, or_and_right, or_iff_right hne]

/-- What a run of the pipeline is given from outside. -/
structure PipelineRun where
  mxCheck : Text → Bool
  /-- `none` unless `TWILIO_LOOKUP_ENABLED` -/
  lineTypeLookup : Option (Text → Option Text)
  fromisoformat : Text → Option DateTime
  asOf : DateTime
  cooldownDays : Int
  /-- the readings of `monotonic` in the Suppress step, one for each check -/
  monotonic : Nat → Int

section Steps

variable {ν α : Type} (U : UnicodeData) (P : PhoneNumbers ν) (run : PipelineRun)

/-! ## Step 2 -/

def normalizeRow (row : Row α) : Except Reason (Row α) :=
  match normalizeCompany U (some row.companyName) with
  | none => .error .companyEmptyAfterNormalization
  | some company =>
      let phone := normalizePhone U P row.phone
      let email := normalizeEmail U row.email
      if phone = none ∧ email = none then .error .noValidIdentifier
      else .ok { row with companyName := company, phone, email }

def normalize (rows : List (Row α)) : StepOutput α := partitionRows (normalizeRow U P) rows

/-! ## Step 3 -/

/-- `email.rpartition("@")[2]` -/
def domainOf (email : Text) : Text := ((rpartition '@' email).map Prod.snd).getD email

def lineType (phone : Option Text) : Option Text :=
  match run.lineTypeLookup, phone with
  | some lookup, some p => lookup p
  | _, _ => none

def validateRow (deliverable : Text → Bool) (row : Row α) : Except Reason (Row α) :=
  match row.email with
  | none => .ok { row with lineType := lineType run row.phone }
  | some email =>
      if deliverable (domainOf email) then .ok { row with lineType := lineType run row.phone }
      else if row.phone = none then .error .emailDomainHasNoMx
      else .ok { row with email := none, lineType := lineType run row.phone }

/-- The domain of the row is looked up once and remembered. -/
def remember (cache : Dict Text Bool) (email : Option Text) : Dict Text Bool :=
  match email with
  | none => cache
  | some e =>
      match cache.get? (domainOf e) with
      | some _ => cache
      | none => cache.set (domainOf e) (run.mxCheck (domainOf e))

def validateFrom : Dict Text Bool → List (Row α) → StepOutput α
  | _, [] => ⟨[], []⟩
  | mxCache, row :: rows =>
      let mxCache := remember run mxCache row.email
      let out := validateFrom mxCache rows
      match validateRow run (fun d => (mxCache.get? d).getD false) row with
      | .ok r => { out with kept := r :: out.kept }
      | .error reason => { out with rejected := (row, reason) :: out.rejected }

def validate (rows : List (Row α)) : StepOutput α := validateFrom run Dict.empty rows

/-! ## Step 4 -/

def Row.key (row : Row α) : Text := Cleansing.normalizedKey row.phone row.email

def Row.keyed (row : Row α) : Row α := { row with normalizedKey := some row.key }

def Row.enrichedInstant (row : Row α) : Int := row.enrichedAt.instant

def dedupe (rows : List (Row α)) : List (Row α) :=
  (Dict.bestOf Row.key Row.enrichedInstant (rows.map Row.keyed)).values

/-! ## Step 5 -/

def microsecondsPerDay : Int := 24 * 60 * 60 * 1000000

/-- Contacted within the window; `none` is the `ValueError` or `TypeError` on the way. -/
def cooling (lastContactedAt : Option Text) : Option Bool :=
  match lastContactedAt with
  | none => some false
  | some t => do
      let age ← run.asOf.sub (← run.fromisoformat t)
      some (decide (age < run.cooldownDays * microsecondsPerDay))

def suppressFrom (log : List Event) :
    Nat → SuppressionStore → List (Row α) → Option (StepOutput α)
  | _, _, [] => some ⟨[], []⟩
  | i, store, row :: rows => do
      let (result, store) ← store.isSuppressed U P log (run.monotonic i) row.phone row.email
      if result.suppressed then
        let out ← suppressFrom log (i + 1) store rows
        some { out with rejected := (row, .suppressed) :: out.rejected }
      else
        let contacted ← cooling run row.lastContactedAt
        let out ← suppressFrom log (i + 1) store rows
        if contacted then some { out with rejected := (row, .cooldown) :: out.rejected }
        else some { out with kept := row :: out.kept }

def suppress (log : List Event) (rows : List (Row α)) : Option (StepOutput α) :=
  suppressFrom U P run log 0 .init rows

/-- A row after Normalize and Validate, if both keep it. -/
def prepared (row : Row α) : Option (Row α) :=
  (normalizeRow U P row).toOption.bind fun r => (validateRow run run.mxCheck r).toOption

/-- The rows of `05_suppressed.ndjson`; `none` when a step raised before writing it. -/
def suppressedRows (log : List Event) (rows : List (Row α)) : Option (List (Row α)) :=
  (suppress U P run log (dedupe (validate run (normalize U P rows).kept).kept)).map StepOutput.kept

/-! ## The caches are invisible -/

/-- The cache repeats what `mx_check` answered. -/
def Repeats (cache : Dict Text Bool) : Prop := ∀ d b, cache.get? d = some b → b = run.mxCheck d

theorem remember_repeats {cache : Dict Text Bool} (h : Repeats run cache) (email : Option Text) :
    Repeats run (remember run cache email) := by
  intro d b hb
  unfold remember at hb
  split at hb
  · exact h d b hb
  · rename_i e
    split at hb
    · exact h d b hb
    · rw [Dict.get?_set] at hb
      split at hb
      · rename_i hd
        rw [← hd]
        exact (Option.some.inj hb).symm
      · exact h d b hb

theorem remember_get? {cache : Dict Text Bool} (h : Repeats run cache) (e : Text) :
    (remember run cache (some e)).get? (domainOf e) = some (run.mxCheck (domainOf e)) := by
  cases hc : cache.get? (domainOf e) with
  | some b => simp only [remember, hc, h _ b hc]
  | none => simp only [remember, hc, Dict.get?_set, if_true]

theorem validateRow_remember {cache : Dict Text Bool} (h : Repeats run cache) (row : Row α) :
    validateRow run (fun d => ((remember run cache row.email).get? d).getD false) row =
      validateRow run run.mxCheck row := by
  unfold validateRow
  cases he : row.email with
  | none => rfl
  | some e => simp only [remember_get? run h e, Option.getD_some]

theorem validateFrom_eq {cache : Dict Text Bool} (h : Repeats run cache) (rows : List (Row α)) :
    validateFrom run cache rows = partitionRows (validateRow run run.mxCheck) rows := by
  induction rows generalizing cache with
  | nil => rfl
  | cons row rows ih =>
    simp only [validateFrom, partitionRows, ih (remember_repeats run h row.email),
      validateRow_remember run h row]

theorem validate_eq (rows : List (Row α)) :
    validate run rows = partitionRows (validateRow run run.mxCheck) rows := by
  refine validateFrom_eq run (fun d b hb => ?_) rows
  rw [Dict.get?_empty] at hb
  exact nomatch hb

theorem survivors_eq (rows : List (Row α)) :
    (validate run (normalize U P rows).kept).kept = rows.filterMap (prepared U P run) := by
  rw [validate_eq, normalize, kept_partitionRows, kept_partitionRows, List.filterMap_filterMap]
  rfl

/-- The address that is left after Normalize and Validate. -/
def keptEmail (row : Row α) : Option Text :=
  (normalizeEmail U row.email).filter fun e => run.mxCheck (domainOf e)

/-- Two steps as one: a row survives with a usable company and an identifier that
is left, and only its identifiers, company and line type change. -/
theorem prepared_eq_some {row r : Row α} :
    prepared U P run row = some r ↔ ∃ company,
      normalizeCompany U (some row.companyName) = some company ∧
      ¬ (normalizePhone U P row.phone = none ∧ keptEmail U run row = none) ∧
      r = { row with
        companyName := company
        phone := normalizePhone U P row.phone
        email := keptEmail U run row
        lineType := lineType run (normalizePhone U P row.phone) } := by
  unfold prepared normalizeRow keptEmail
  cases normalizeCompany U (some row.companyName) with
  | none => simp [Except.toOption]
  | some company =>
    cases hp : normalizePhone U P row.phone with
    | none =>
      cases he : normalizeEmail U row.email with
      | none => simp [Except.toOption]
      | some e =>
        by_cases hmx : run.mxCheck (domainOf e) = true
        · simp [Except.toOption, validateRow, Option.filter, hmx, @eq_comm _ r]
        · simp [Except.toOption, validateRow, hmx]
    | some n =>
      cases he : normalizeEmail U row.email with
      | none => simp [Except.toOption, validateRow, @eq_comm _ r]
      | some e =>
        by_cases hmx : run.mxCheck (domainOf e) = true
        · simp [Except.toOption, validateRow, Option.filter, hmx, @eq_comm _ r]
        · simp [Except.toOption, validateRow, Option.filter, hmx, @eq_comm _ r]

/-- What the Suppress step does with one row: `none` raises, `some none` keeps it. -/
def verdict (log : List Event) (row : Row α) : Option (Option Reason) :=
  if row.phone = none ∧ row.email = none then none
  else if (report U P (currentSet log) row.phone row.email).suppressed then some (some .suppressed)
  else (cooling run row.lastContactedAt).map fun contacted =>
    if contacted then some .cooldown else none

variable {log : List Event}

theorem isSuppressed_follows {s : SuppressionStore} (h : s.Follows log) (now : Int)
    {phone email : Option Text} (hid : ¬ (phone = none ∧ email = none)) :
    ∃ s', s'.Follows log ∧ s.isSuppressed U P log now phone email =
      some (report U P (currentSet log) phone email, s') := by
  refine ⟨s.refreshIfStale log now, Or.inr (s.refreshIfStale_cache h now), ?_⟩
  simp only [SuppressionStore.isSuppressed, if_neg hid, s.refreshIfStale_cache h now]

theorem suppressFrom_cons {i : Nat} {s : SuppressionStore} (h : s.Follows log) (row : Row α)
    (rows : List (Row α)) :
    ∃ s', s'.Follows log ∧ suppressFrom U P run log i s (row :: rows) =
      (verdict U P run log row).bind fun why =>
        (suppressFrom U P run log (i + 1) s' rows).map (·.add row why) := by
  by_cases hid : row.phone = none ∧ row.email = none
  · refine ⟨s, h, ?_⟩
    rw [verdict, if_pos hid]
    simp [suppressFrom, SuppressionStore.isSuppressed, hid]
  · obtain ⟨s', hs', hcheck⟩ := isSuppressed_follows U P h (run.monotonic i) hid
    refine ⟨s', hs', ?_⟩
    rw [verdict, if_neg hid, suppressFrom, hcheck]
    by_cases hsup : (report U P (currentSet log) row.phone row.email).suppressed = true
    · simp only [Option.bind_eq_bind, Option.bind_some, hsup, if_true]
      cases suppressFrom U P run log (i + 1) s' rows <;> rfl
    · simp only [Option.bind_eq_bind, Option.bind_some, hsup]
      cases cooling run row.lastContactedAt with
      | none => rfl
      | some contacted =>
        cases suppressFrom U P run log (i + 1) s' rows <;> cases contacted <;> rfl

/-- The clock and the reloads do not matter: over a fixed log the step decides row by row. -/
theorem suppress_eq (rows : List (Row α)) :
    suppress U P run log rows = decideRows (verdict U P run log) rows := by
  have hloop : ∀ i s, s.Follows log →
      suppressFrom U P run log i s rows = decideRows (verdict U P run log) rows := by
    induction rows with
    | nil => exact fun _ _ _ => rfl
    | cons row rows ih =>
      intro i s hs
      obtain ⟨s', hs', hcons⟩ := suppressFrom_cons U P run hs row rows
      rw [hcons, decideRows, ih (i + 1) s' hs']
  exact hloop 0 .init (SuppressionStore.init_follows log)

end Steps

end Outreach.Cleansing
