import Outreach.Cleansing.Steps

/-!
# Runs that share a run id

Every object of a run is named after its run id, and the run id is what
`_run_id` leaves of the file name. Runs with different ids never meet, whatever
the order of their steps; runs with one id overwrite each other's objects as soon
as both have got through step 1.
-/

namespace Outreach.Cleansing.Runs

open Outreach.Library Outreach.Suppression

set_option autoImplicit false

/-! ## Run ids -/

section RunId

variable (U : UnicodeData)

/-- `key.rsplit("/", 1)[-1].rsplit(".", 1)[0]` -/
def stem (key : Text) : Text :=
  let file := ((rpartition '/' key).map Prod.snd).getD key
  ((rpartition '.' file).map Prod.fst).getD file

def runIdChar (ch : Char) : Char := if U.alnum ch || ch = '-' || ch = '_' then ch else '-'

def runId (key : Text) : Text := (stem key).map (runIdChar U)

/-- A dash, or a character that becomes one. -/
def Dashed (ch : Char) : Prop := ch = '-' ∨ (U.alnum ch = false ∧ ch ≠ '_')

/-- The two file names differ in characters only that both become dashes. -/
def Alike (key key' : Text) : Prop :=
  List.Forall₂ (fun c d => c = d ∨ (Dashed U c ∧ Dashed U d)) (stem key) (stem key')

variable {U}

theorem runIdChar_eq_dash {ch : Char} : runIdChar U ch = '-' ↔ Dashed U ch := by
  unfold runIdChar Dashed
  by_cases hdash : ch = '-'
  · simp [hdash]
  · by_cases hkept : U.alnum ch = true ∨ ch = '_'
    · rcases hkept with h | h <;> simp [h, hdash]
    · obtain ⟨halnum, hscore⟩ := not_or.mp hkept
      simp [halnum, hscore, hdash]

theorem runIdChar_of_not_dashed {ch : Char} (h : ¬ Dashed U ch) : runIdChar U ch = ch := by
  have hne : runIdChar U ch ≠ '-' := fun he => h (runIdChar_eq_dash.mp he)
  unfold runIdChar at hne ⊢
  split
  · rfl
  · rename_i hlost
    exact absurd (if_neg hlost) hne

theorem runIdChar_eq_iff {c d : Char} :
    runIdChar U c = runIdChar U d ↔ c = d ∨ (Dashed U c ∧ Dashed U d) := by
  constructor
  · intro h
    by_cases hc : Dashed U c
    · refine Or.inr ⟨hc, ?_⟩
      rw [← runIdChar_eq_dash, ← h]
      exact runIdChar_eq_dash.mpr hc
    · by_cases hd : Dashed U d
      · exact absurd (runIdChar_eq_dash.mp (h.trans (runIdChar_eq_dash.mpr hd))) hc
      · left
        rw [← runIdChar_of_not_dashed hc, h, runIdChar_of_not_dashed hd]
  · intro h
    rcases h with h | h
    · rw [h]
    · rw [runIdChar_eq_dash.mpr h.1, runIdChar_eq_dash.mpr h.2]

theorem runId_eq_iff {key key' : Text} : runId U key = runId U key' ↔ Alike U key key' := by
  rw [runId, runId, Alike, ← List.forall₂_eq_eq_eq, List.forall₂_map_left_iff,
    List.forall₂_map_right_iff]
  simp only [runIdChar_eq_iff]

/-- Neither of the characters that end a run id in the name of an object. -/
def bare (ch : Char) : Bool := ch != '/' && ch != '.'

theorem bare_of_mem_runId {key : Text} {ch : Char} (h : ch ∈ runId U key) : bare ch = true := by
  have halnum : ∀ sep : Char, bare sep = false → sep = '/' ∨ sep = '.' := by
    intro sep hsep
    by_contra hne
    obtain ⟨hslash, hdot⟩ := not_or.mp hne
    simp [bare, hslash, hdot] at hsep
  obtain ⟨c, -, rfl⟩ := List.mem_map.mp h
  by_cases hc : Dashed U c
  · rw [runIdChar_eq_dash.mpr hc]
    rfl
  · rw [runIdChar_of_not_dashed hc]
    refine Bool.eq_true_of_not_eq_false fun hsep => hc ?_
    rcases halnum c hsep with rfl | rfl
    · exact Or.inr ⟨rfl, by decide⟩
    · exact Or.inr ⟨rfl, by decide⟩

end RunId

/-! ## The objects of a run -/

/-- `RAW_ENRICHMENT_PREFIX` -/
def enrichmentPrefix : Text := "raw/enrichment/".toList

/-- The names that a run can give to an object. -/
inductive Owned (id : Text) : Text → Prop where
  | step (name : Text) : Owned id (stepKey id name)
  | quarantine (step : Text) : Owned id (quarantineKey id step)
  | cleansed : Owned id (cleansedKey id)

/-- The folder after the second slash, or the file name up to its extension. -/
def ownerOf (key : Text) : Text :=
  let afterSlash (s : Text) : Text := (s.dropWhile (· != '/')).drop 1
  (afterSlash (afterSlash key)).takeWhile bare

theorem takeWhile_bare {id : Text} (hid : ∀ ch ∈ id, bare ch = true) {sep : Char}
    (hsep : bare sep = false) (rest : Text) : (id ++ sep :: rest).takeWhile bare = id := by
  rw [List.takeWhile_append_of_pos hid, List.takeWhile_cons_of_neg (by simp [hsep]),
    List.append_nil]

/-- The run id can be read off every object of the run. -/
theorem Owned.ownerOf_eq {id key : Text} (hid : ∀ ch ∈ id, bare ch = true) (h : Owned id key) :
    ownerOf key = id := by
  cases h with
  | step name => exact takeWhile_bare hid rfl name
  | quarantine step => exact takeWhile_bare hid rfl _
  | cleansed => exact takeWhile_bare hid rfl _

theorem Owned.take {id key : Text} (h : Owned id key) :
    key.take 10 = "staging/pi".toList ∨ key.take 10 = "raw/quaran".toList ∨
      key.take 10 = "staging/cl".toList := by
  cases h with
  | step name => exact Or.inl rfl
  | quarantine step => exact Or.inr (Or.inl rfl)
  | cleansed => exact Or.inr (Or.inr rfl)

/-- No run writes under `raw/enrichment/`. -/
theorem Owned.not_enrichment {id key : Text} (h : Owned id key) : ¬ enrichmentPrefix <+: key := by
  intro hpre
  obtain ⟨rest, rfl⟩ := hpre
  have htake : (enrichmentPrefix ++ rest).take 10 = "raw/enrich".toList := rfl
  rcases h.take with ht | ht | ht <;> exact absurd (htake.symm.trans ht) (by decide)

theorem Owned.runId_eq {U : UnicodeData} {key key' k : Text} (h : Owned (runId U key) k)
    (h' : Owned (runId U key') k) : runId U key = runId U key' := by
  rw [← h.ownerOf_eq fun _ => bare_of_mem_runId, h'.ownerOf_eq fun _ => bare_of_mem_runId]

/-! ## What a run touches -/

section Footprint

variable {ν : Type} {U : UnicodeData} {P : PhoneNumbers ν} {env : RunEnv} {id : Text}

def Output.Owned (id : Text) (o : Output) : Prop :=
  Runs.Owned id o.key ∧ ∀ a ∈ o.aside, Runs.Owned id a.1

theorem Output.Owned.quarantine {κ : Type} [DecidableEq κ] {o : Output} (h : o.Owned id)
    (step : String) (names : List (List κ)) (content : Content) :
    (o.quarantine id step names content).Owned id := by
  unfold Output.quarantine
  split
  · exact h
  · split
    · refine ⟨h.1, fun a ha => ?_⟩
      obtain rfl := Option.some.inj ha
      exact .quarantine step.toList
    · exact h

theorem Output.quarantine_key {κ : Type} [DecidableEq κ] (o : Output) (step : String)
    (names : List (List κ)) (content : Content) :
    (o.quarantine id step names content).key = o.key := by
  unfold Output.quarantine
  split
  · rfl
  · split <;> rfl

theorem schemaValidate_key {content : Content} {o : Output}
    (h : handler U P env id .schemaValidate content = some o) :
    o.key = stepKey id "01_schema_valid.ndjson".toList := by
  cases content with
  | csv rows =>
    obtain ⟨⟨valid, quarantined⟩, -, h⟩ := Option.bind_eq_some_iff.mp h
    obtain rfl := Option.some.inj h
    apply Output.quarantine_key
  | _ => exact nomatch h

/-- Every step puts its objects under names of its run. -/
theorem handler_owned {step : Step} {content : Content} {o : Output}
    (h : handler U P env id step content = some o) : o.Owned id := by
  have hplain : ∀ (name : Text) (out : Content), Output.Owned id ⟨stepKey id name, out, none, true⟩ :=
    fun name out => ⟨.step name, fun a ha => nomatch ha⟩
  unfold handler at h
  split at h
  · obtain ⟨⟨valid, quarantined⟩, -, h⟩ := Option.bind_eq_some_iff.mp h
    obtain rfl := Option.some.inj h
    exact (hplain _ _).quarantine _ _ _
  · obtain ⟨out, -, h⟩ := Option.bind_eq_some_iff.mp h
    obtain rfl := Option.some.inj h
    exact (hplain _ _).quarantine _ _ _
  · obtain rfl := Option.some.inj h
    exact (hplain _ _).quarantine _ _ _
  · obtain rfl := Option.some.inj h
    exact hplain _ _
  · obtain ⟨out, -, h⟩ := Option.bind_eq_some_iff.mp h
    obtain rfl := Option.some.inj h
    refine ⟨.step _, fun a ha => ?_⟩
    obtain rfl := Option.some.inj ha
    exact .step _
  · obtain ⟨out, -, h⟩ := Option.bind_eq_some_iff.mp h
    obtain rfl := Option.some.inj h
    exact hplain _ _
  · split at h
    · obtain rfl := Option.some.inj h
      exact ⟨.cleansed, fun a ha => nomatch ha⟩
    · exact nomatch h
  · exact nomatch h

/-- The next accesses of a run that has got through step 1 are under its own names. -/
def Phase.Owned (id : Text) : Phase → Prop
  | .get _ key => Runs.Owned id key
  | .putOut _ o => o.Owned id
  | .putAside _ o aside => o.Owned id ∧ Runs.Owned id aside.1
  | .ended _ => True

theorem finish_owned {step : Step} {o : Output} (h : o.Owned id) : (finish step o).Owned id := by
  unfold finish
  split
  · split
    · trivial
    · exact h.1
  · trivial

end Footprint

/-! ## Any number of runs -/

section Runs

variable {ν ι : Type} (U : UnicodeData) (P : PhoneNumbers ν) (env : ι → RunEnv)
  (key : ι → Text) (bucket : Text → Option Content)

/-- The trigger passes the bucket and the key, and no run id. -/
def runAction (i : ι) : Phase → Option (StoreAction Text Content Phase) :=
  action U P (env i) (runId U (key i))

def triggered : Shared ι Text Content Phase where
  phase i := .get .schemaValidate (key i)
  store := bucket

/-- Step 1 finds the rows of the object and can decide all of them. -/
def Starts (key : Text) : Prop :=
  ∃ rows, bucket key = some (.csv rows) ∧ ∀ row ∈ rows, SchemaDecides row

/-- The names that run `i` writes. -/
def Writes (i : ι) (k : Text) : Prop := Starts bucket (key i) ∧ Owned (runId U (key i)) k

def Touches (i : ι) (k : Text) : Prop := k = key i ∨ Writes U key bucket i k

/-- A run is before step 1, or over, or it has got through step 1 and stays under its names. -/
def Placed (i : ι) (phase : Phase) : Prop :=
  phase = .get .schemaValidate (key i) ∨ (∃ returned, phase = .ended returned) ∨
    (Starts bucket (key i) ∧ phase.Owned (runId U (key i)))

/-- Nobody has changed a triggering object, and every run is in its place. -/
def InPlace (s : Shared ι Text Content Phase) : Prop :=
  (∀ i, s.store (key i) = bucket (key i)) ∧ ∀ i, Placed U key bucket i (s.phase i)

variable {U P env key bucket}

variable (U P) in
theorem schemaValidate_starts (e : RunEnv) (id : Text) {k : Text} :
    ((bucket k).bind (handler U P e id .schemaValidate)).isSome = true ↔ Starts bucket k := by
  unfold Starts
  cases bucket k with
  | none => simp
  | some content =>
    cases content with
    | csv rows =>
      have hdecides : (schemaValidate e.run rows).isSome = true ↔ ∀ row ∈ rows, SchemaDecides row :=
        schemaValidate_isSome e.run
      cases hv : schemaValidate e.run rows with
      | none => simp_all [handler]
      | some out => simp_all [handler]
    | _ => simp [handler]

theorem action_within {i : ι} {phase : Phase} {a : StoreAction Text Content Phase}
    (h : Placed U key bucket i phase) (ha : runAction U P env key i phase = some a) :
    (a.key = key i ∧ a.writes = false) ∨ Writes U key bucket i a.key := by
  rcases h with rfl | ⟨returned, rfl⟩ | ⟨hstarts, howned⟩
  · obtain rfl := Option.some.inj ha
    exact Or.inl ⟨rfl, rfl⟩
  · exact nomatch ha
  · refine Or.inr ⟨hstarts, ?_⟩
    cases phase with
    | get step k =>
      obtain rfl := Option.some.inj ha
      exact howned
    | putOut step o =>
      obtain rfl := Option.some.inj ha
      exact howned.1
    | putAside step o aside =>
      obtain rfl := Option.some.inj ha
      exact howned.2
    | ended returned => exact nomatch ha

/-- What a step that was just read leads to. -/
theorem placed_read {i : ι} {step : Step} {seen : Option Content}
    (h : (seen.bind (handler U P (env i) (runId U (key i)) step)).isSome = true →
      Starts bucket (key i)) :
    Placed U key bucket i
      (match seen.bind (handler U P (env i) (runId U (key i)) step) with
      | none => .ended false
      | some o => .putOut step o) := by
  cases hread : seen.bind (handler U P (env i) (runId U (key i)) step) with
  | none => exact Or.inr (Or.inl ⟨false, rfl⟩)
  | some o =>
    obtain ⟨content, -, ho⟩ := Option.bind_eq_some_iff.mp hread
    exact Or.inr (Or.inr ⟨h (by rw [hread]; rfl), handler_owned ho⟩)

theorem action_placed {i : ι} {phase : Phase} {a : StoreAction Text Content Phase}
    {seen : Option Content} (h : Placed U key bucket i phase)
    (ha : runAction U P env key i phase = some a)
    (hseen : a.key = key i → seen = bucket (key i)) : Placed U key bucket i (a.next seen) := by
  rcases h with rfl | ⟨returned, rfl⟩ | ⟨hstarts, howned⟩
  · obtain rfl := Option.some.inj ha
    apply placed_read
    rw [hseen rfl]
    exact (schemaValidate_starts U P _ _).mp
  · exact nomatch ha
  · cases phase with
    | get step k =>
      obtain rfl := Option.some.inj ha
      exact placed_read fun _ => hstarts
    | putOut step o =>
      obtain rfl := Option.some.inj ha
      refine Or.inr (Or.inr ⟨hstarts, ?_⟩)
      cases haside : o.aside with
      | none => exact finish_owned howned
      | some aside => exact ⟨howned, howned.2 aside haside⟩
    | putAside step o aside =>
      obtain rfl := Option.some.inj ha
      exact Or.inr (Or.inr ⟨hstarts, finish_owned howned.1⟩)
    | ended returned => exact nomatch ha

variable [DecidableEq ι]

theorem step_inPlace (hkey : ∀ i, enrichmentPrefix <+: key i) {s t : Shared ι Text Content Phase}
    {i : ι} (hs : InPlace U key bucket s)
    (hstep : (interleaving (runAction U P env key)).step s i = some t) :
    InPlace U key bucket t := by
  obtain ⟨a, ha, rfl⟩ := (interleaving_step _).mp hstep
  constructor
  · intro j
    rw [← hs.1 j]
    rcases action_within (hs.2 i) ha with ⟨-, hread⟩ | ⟨-, howned⟩
    · rw [s.perform_store_of_read hread]
    · apply s.perform_store_ne
      intro he
      exact howned.not_enrichment (he ▸ hkey j)
  · intro j
    by_cases hj : j = i
    · subst hj
      rw [s.perform_phase_self]
      apply action_placed (hs.2 j) ha
      intro hread
      rw [hread]
      exact hs.1 j
    · rw [s.perform_phase_ne a hj]
      exact hs.2 j

/-- Runs of which no two that start have the same id keep apart. -/
theorem runs_confined (hkey : ∀ i, enrichmentPrefix <+: key i)
    (hids : ∀ i j, i ≠ j → Starts bucket (key i) → Starts bucket (key j) →
      runId U (key i) ≠ runId U (key j)) :
    Confined (runAction U P env key) (InPlace U key bucket) (Touches U key bucket)
      (Writes U key bucket) where
  step _ _ _ hs hstep := step_inPlace hkey hs hstep
  touches s i a hs ha := (action_within (hs.2 i) ha).imp And.left id
  writes s i a hs ha hwrite := by
    rcases action_within (hs.2 i) ha with ⟨-, hread⟩ | howned
    · rw [hread] at hwrite
      exact nomatch hwrite
    · exact howned
  apart i j k hw ht := by
    by_contra hne
    rcases ht with rfl | ht
    · exact hw.2.not_enrichment (hkey j)
    · exact hids i j hne hw.1 ht.1 (hw.2.runId_eq ht.2)

variable (U P env) in
/-- The first two accesses of a run that gets through step 1. -/
theorem opening {s : Shared ι Text Content Phase} {i : ι} (hstarts : Starts bucket (key i))
    (hphase : s.phase i = .get .schemaValidate (key i)) (hstore : s.store (key i) = bucket (key i)) :
    ∃ u, (interleaving (runAction U P env key)).run s [i, i] = some u ∧
      (∀ j, j ≠ i → u.phase j = s.phase j) ∧
      (∀ k, ¬ Owned (runId U (key i)) k → u.store k = s.store k) ∧
      ∀ es, accesses (runAction U P env key) s (i :: i :: es) =
        ⟨i, key i, false⟩ :: ⟨i, stepKey (runId U (key i)) "01_schema_valid.ndjson".toList, true⟩ ::
          accesses (runAction U P env key) u es := by
  obtain ⟨o, ho⟩ := Option.isSome_iff_exists.mp
    ((schemaValidate_starts U P (env i) (runId U (key i))).mpr hstarts)
  obtain ⟨content, -, hcontent⟩ := Option.bind_eq_some_iff.mp ho
  obtain ⟨a, ha, hakey, haread, hanext⟩ : ∃ a, runAction U P env key i (s.phase i) = some a ∧
      a.key = key i ∧ a.writes = false ∧
        a.next (s.store (key i)) = .putOut .schemaValidate o := by
    rw [hphase]
    refine ⟨_, rfl, rfl, rfl, ?_⟩
    rw [← hstore] at ho
    simp only [StoreAction.next, ho]
  have hput : (s.perform i a).phase i = .putOut .schemaValidate o := by
    rw [s.perform_phase_self, hakey, hanext]
  obtain ⟨b, hb, hbkey, hbwrite⟩ : ∃ b, runAction U P env key i ((s.perform i a).phase i) = some b ∧
      b.key = o.key ∧ b.writes = true := by
    rw [hput]
    exact ⟨_, rfl, rfl, rfl⟩
  refine ⟨(s.perform i a).perform i b, ?_, fun j hj => ?_, fun k hk => ?_, fun es => ?_⟩
  · exact (Machine.run_cons_some _).mpr ⟨_, (interleaving_step _).mpr ⟨a, ha, rfl⟩,
      (Machine.run_singleton _).mpr ((interleaving_step _).mpr ⟨b, hb, rfl⟩)⟩
  · rw [Shared.perform_phase_ne _ b hj, Shared.perform_phase_ne _ a hj]
  · rw [Shared.perform_store_ne, s.perform_store_of_read haread]
    intro he
    rw [hbkey] at he
    exact hk (he ▸ (handler_owned hcontent).1)
  · rw [accesses_cons _ _ ha rfl, accesses_cons _ _ hb rfl, hakey, haread, hbkey, hbwrite,
      schemaValidate_key hcontent]

/-- Two runs that start with one id: both put `01_schema_valid.ndjson`. -/
theorem not_isolated {i j : ι} (hne : i ≠ j) (hkey : ∀ i, enrichmentPrefix <+: key i)
    (hi : Starts bucket (key i)) (hj : Starts bucket (key j))
    (hid : runId U (key i) = runId U (key j)) :
    ¬ Isolated (runAction U P env key) (triggered key bucket) := by
  intro h
  obtain ⟨u, hu, hphase, hstore, hacc⟩ := opening U P env (s := triggered key bucket) hi rfl rfl
  have hj' : u.phase j = .get .schemaValidate (key j) := hphase j hne.symm
  have hb : u.store (key j) = bucket (key j) :=
    hstore (key j) fun ho => ho.not_enrichment (hkey j)
  obtain ⟨v, hv, -, -, hacc'⟩ := opening U P env hj hj' hb
  have hrun : (interleaving (runAction U P env key)).run (triggered key bucket) [i, i, j, j] =
      some v := (Machine.run_append_some _).mpr ⟨u, hu, hv⟩
  have hund := (h _ _ hrun).1
  rw [hacc [j, j], hacc' [], hid] at hund
  have hpair := List.rel_of_pairwise_cons (List.pairwise_cons.mp hund).2
    (List.mem_cons_of_mem _ List.mem_cons_self)
  exact hne (hpair rfl rfl)

/-- Runs that are triggered by objects under `raw/enrichment/` keep to themselves exactly when
no two of them that get through step 1 have file names alike. -/
theorem runs_isolated_iff (U : UnicodeData) (P : PhoneNumbers ν) (env : ι → RunEnv)
    (key : ι → Text) (bucket : Text → Option Content) (hkey : ∀ i, enrichmentPrefix <+: key i) :
    Isolated (runAction U P env key) (triggered key bucket) ↔
      ∀ i j, i ≠ j → Starts bucket (key i) → Starts bucket (key j) →
        ¬ Alike U (key i) (key j) := by
  constructor
  · intro h i j hne hi hj halike
    exact not_isolated hne hkey hi hj (runId_eq_iff.mpr halike) h
  · intro h
    have hconfined : Confined (runAction U P env key) _ _ _ :=
      runs_confined hkey fun i j hne hi hj hid => h i j hne hi hj (runId_eq_iff.mp hid)
    exact hconfined.isolated ⟨fun _ => rfl, fun _ => Or.inl rfl⟩

end Runs

/-- Two vendors drop a file of the same name into folders of their own. -/
def vendorKey (second : Bool) : Text :=
  (if second then "raw/enrichment/b/leads.csv" else "raw/enrichment/a/leads.csv").toList

def leadRow : CsvRow where
  columns := (((Dict.empty.set "company_name".toList (some "Acme".toList)).set
    "phone".toList (some "+16502530000".toList)).set "email".toList none).set
    "enriched_at".toList (some "2026-07-01T00:00:00+00:00".toList)

/-- The same row under both keys. -/
def twoFiles (key : Bool → Text) (k : Text) : Option Content :=
  if k = key false ∨ k = key true then some (.csv [leadRow]) else none

def vendorEnv : RunEnv where
  run := { noMxRun with fromisoformat := fun _ => some ⟨0, some 0⟩ }
  log := []
  toDatetime _ := true

theorem twoFiles_starts (key : Bool → Text) (second : Bool) : Starts (twoFiles key) (key second) := by
  refine ⟨[leadRow], ?_, fun row hrow => ?_⟩
  · cases second
    · exact if_pos (Or.inl rfl)
    · exact if_pos (Or.inr rfl)
  · obtain rfl := List.mem_singleton.mp hrow
    exact Or.inr (Or.inr (by decide))

theorem vendors_not_isolated :
    vendorKey false ≠ vendorKey true ∧ (∀ second, enrichmentPrefix <+: vendorKey second) ∧
      ¬ Isolated (runAction .plain .e164 (fun _ => vendorEnv) vendorKey)
        (triggered vendorKey (twoFiles vendorKey)) := by
  have hkey : ∀ second, enrichmentPrefix <+: vendorKey second := by decide
  refine ⟨by decide, hkey, ?_⟩
  exact not_isolated Bool.false_ne_true hkey (twoFiles_starts vendorKey false)
    (twoFiles_starts vendorKey true) (by decide)

def weeklyKey (second : Bool) : Text :=
  (if second then "raw/enrichment/a/leads-2.csv" else "raw/enrichment/a/leads-1.csv").toList

theorem runs_isolated_iff_weekly :
    Isolated (runAction .plain .e164 (fun _ => vendorEnv) weeklyKey)
      (triggered weeklyKey (twoFiles weeklyKey)) := by
  refine (runs_isolated_iff .plain .e164 (fun _ => vendorEnv) weeklyKey (twoFiles weeklyKey)
    (by decide)).mpr fun i j hne _ _ => ?_
  have hids : ∀ i j : Bool, i ≠ j → runId .plain (weeklyKey i) ≠ runId .plain (weeklyKey j) := by
    decide
  rw [← runId_eq_iff]
  exact hids i j hne

end Outreach.Cleansing.Runs
