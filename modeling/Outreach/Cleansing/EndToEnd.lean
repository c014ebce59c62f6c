import Outreach.Cleansing.ContactDates
import Outreach.Cleansing.Reruns

/-!
# From the raw file to the staged batch

The objects that a finished run has left, taken together: each row of the raw file
is in exactly one of them, or was dropped for a newer row of its contact; and the
staged batch holds exactly the rows that every step lets through.
-/

namespace Outreach.Cleansing.Runs

open Outreach.Library Outreach.Suppression

set_option autoImplicit false

/-- The rows of the raw file that an object holds, as step 1 passes them on. -/
def Content.sources : Content → List CsvRow
  | .csv raw => raw.map CsvRow.dated
  | .schemaQuarantine aside => aside.map fun q => q.1.dated
  | .schemaValid valid => valid.map ValidRow.row
  | .rows kept => kept.map Row.rest
  | .rejected aside => aside.map fun r => r.1.rest
  | .withIds assigned => assigned.map fun r => r.1.rest
  | .parquet staged => staged.map fun r => r.1.rest
  | .other => []

/-- The source rows of an object; an object that is not there has none. -/
def sourcesAt (store : Text → Option Content) (key : Text) : List CsvRow :=
  (store key).elim [] Content.sources

/-! ## Each step -/

section Steps

variable {ν : Type} {U : UnicodeData} {P : PhoneNumbers ν} {env : RunEnv} {id : Text} {o : Output}

/-- The rows of the second object of a step. -/
def Output.asideSources (o : Output) : List CsvRow :=
  o.aside.elim [] fun a => a.2.sources

/-- A quarantine file holds all rows that the step rejects, or there are none. -/
theorem quarantine_sources {κ : Type} [DecidableEq κ] {step : String} {names : List (List κ)}
    {content : Content} (hnone : o.aside = none)
    (hnames : names = [] → content.sources = [])
    (hreturns : (o.quarantine id step names content).returns = true) :
    (o.quarantine id step names content).asideSources = content.sources := by
  unfold Output.quarantine at hreturns ⊢
  split at hreturns
  · rw [Output.asideSources, hnone]
    exact (hnames rfl).symm
  · split
    · rfl
    · rename_i hall
      rw [if_neg hall] at hreturns
      exact nomatch hreturns

theorem schemaValidate_shares {run : PipelineRun} {rows : List CsvRow}
    {valid : List ValidRow} {quarantined : List (CsvRow × SchemaReason)}
    (h : schemaValidate run rows = some (valid, quarantined)) :
    ((quarantined.map fun q => q.1.dated) ++ valid.map ValidRow.row).Perm
      (rows.map CsvRow.dated) := by
  induction rows generalizing valid quarantined with
  | nil =>
    cases h
    exact .nil
  | cons row rows ih =>
    obtain ⟨decided, -, h⟩ := Option.bind_eq_some_iff.mp h
    obtain ⟨⟨valid', quarantined'⟩, hrest, h⟩ := Option.bind_eq_some_iff.mp h
    have hperm := ih hrest
    cases decided with
    | ok enrichedAt =>
      cases h
      exact List.perm_middle.trans (hperm.cons row.dated)
    | error reason =>
      cases h
      exact hperm.cons row.dated

theorem schemaValidate_conserves {rows : List CsvRow}
    (h : handler U P env id .schemaValidate (.csv rows) = some o) (hreturns : o.returns = true) :
    o.out = .schemaValid (rows.filterMap (accepted env.run)) ∧
      (o.asideSources ++ (rows.filterMap (accepted env.run)).map ValidRow.row).Perm
        (rows.map CsvRow.dated) := by
  obtain ⟨⟨valid, quarantined⟩, hsplit, h⟩ := Option.bind_eq_some_iff.mp h
  obtain rfl := Option.some.inj h
  have hdecides : ∀ row ∈ rows, SchemaDecides row :=
    (schemaValidate_isSome env.run).mp (Option.isSome_iff_exists.mpr ⟨_, hsplit⟩)
  have hvalid : valid = rows.filterMap (accepted env.run) :=
    congrArg Prod.fst (Option.some.inj (hsplit.symm.trans (schemaValidate_eq env.run hdecides)))
  rw [← hvalid]
  refine ⟨Output.quarantine_out .., ?_⟩
  rw [quarantine_sources rfl (fun hnil => ?_) hreturns]
  · exact schemaValidate_shares hsplit
  · rw [Content.sources, List.map_eq_nil_iff]
    exact List.map_eq_nil_iff.mp hnil

/-- The source rows of a step that decides row by row. -/
theorem sharedOut_sources {rows kept : List (Row CsvRow)} {aside : List (Row CsvRow × Reason)}
    (h : SharedOut rows kept aside) :
    ((aside.map fun r => r.1.rest) ++ kept.map Row.rest).Perm (rows.map Row.rest) := by
  obtain ⟨passed, hperm, hall⟩ := h
  have hkept : kept.map Row.rest = passed.map Row.rest := by
    rw [← List.forall₂_eq_eq_eq, List.forall₂_map_left_iff, List.forall₂_map_right_iff]
    exact (hall.imp fun _ _ hc => hc.rest).flip
  have hmap := hperm.map Row.rest
  rw [List.map_append, List.map_map] at hmap
  rw [hkept]
  exact List.perm_append_comm.trans hmap

theorem rejectedNames_nil {rejected : List (Row CsvRow × Reason)}
    (h : rejectedNames rejected = []) : (Content.rejected rejected).sources = [] := by
  rw [Content.sources, List.map_eq_nil_iff]
  exact List.map_eq_nil_iff.mp h

theorem normalize_conserves {rows : List ValidRow}
    (h : handler U P env id .normalize (.schemaValid rows) = some o) (hreturns : o.returns = true) :
    o.out = .rows (normalize U P (rows.map ValidRow.toRow)).kept ∧
      (o.asideSources ++ (normalize U P (rows.map ValidRow.toRow)).kept.map Row.rest).Perm
        (rows.map ValidRow.row) := by
  obtain ⟨out, hout, h⟩ := Option.bind_eq_some_iff.mp h
  obtain rfl := Option.some.inj h
  unfold normalizeRows at hout
  split at hout
  · cases hout
    refine ⟨Output.quarantine_out .., ?_⟩
    rw [quarantine_sources rfl rejectedNames_nil hreturns]
    have hshared := sharedOut_sources (sharedOut_partitionRows
      (fun row k hk => (normalizeRow_continues (U := U) (P := P) row k hk).1)
      (rows.map ValidRow.toRow))
    rw [List.map_map] at hshared
    exact hshared
  · exact nomatch hout

theorem validate_conserves {rows : List (Row CsvRow)}
    (h : handler U P env id .validate (.rows rows) = some o) (hreturns : o.returns = true) :
    o.out = .rows (validate env.run rows).kept ∧
      (o.asideSources ++ (validate env.run rows).kept.map Row.rest).Perm (rows.map Row.rest) := by
  obtain rfl := Option.some.inj h
  refine ⟨Output.quarantine_out .., ?_⟩
  rw [quarantine_sources rfl rejectedNames_nil hreturns, validate_eq]
  exact sharedOut_sources (sharedOut_partitionRows
    (fun row k hk => (validateRow_continues row k hk).1) rows)

theorem suppress_conserves {rows : List (Row CsvRow)}
    (h : handler U P env id .suppress (.rows rows) = some o) :
    ∃ out, suppress U P env.run env.log rows = some out ∧ o.out = .rows out.kept ∧
      (o.asideSources ++ out.kept.map Row.rest).Perm (rows.map Row.rest) := by
  obtain ⟨out, hout, h⟩ := Option.bind_eq_some_iff.mp h
  obtain rfl := Option.some.inj h
  refine ⟨out, hout, rfl, ?_⟩
  rw [suppress_eq] at hout
  have hmap := (perm_decideRows hout).map Row.rest
  rw [List.map_append, List.map_map] at hmap
  exact List.perm_append_comm.trans hmap

theorem dedupe_sources (rows : List (Row CsvRow)) :
    ∃ dropped : List (Row CsvRow),
      (dropped.map Row.rest ++ (dedupe rows).map Row.rest).Perm (rows.map Row.rest) ∧
      ∀ d ∈ dropped, d ∈ rows ∧
        ∃ k ∈ dedupe rows, k.key = d.key ∧ d.enrichedInstant ≤ k.enrichedInstant := by
  obtain ⟨winners, dropped, hperm, hkept, hdropped, -⟩ := dedupe_conserves rows
  have hkept' : dedupe rows = winners.map Row.keyed := hkept
  refine ⟨dropped, ?_, fun d hd => ?_⟩
  · have hmap := hperm.map Row.rest
    rw [List.map_append] at hmap
    have hrest : (dedupe rows).map Row.rest = winners.map Row.rest := by
      rw [hkept', List.map_map]
      rfl
    rw [hrest]
    exact List.perm_append_comm.trans hmap
  · obtain ⟨w, hw, hkey⟩ := hdropped d hd
    have hinput : d ∈ rows := hperm.mem_iff.mp (List.mem_append_right winners hd)
    have hmem : w.keyed ∈ dedupe rows := hkept' ▸ List.mem_map_of_mem hw
    refine ⟨hinput, w.keyed, hmem, hkey, ?_⟩
    obtain ⟨row, hsurvives, hrow⟩ := mem_dedupe_iff.mp hmem
    have hrowKey : w.keyed.key = row.keyed.key := congrArg Row.key hrow
    have hinstant : w.keyed.enrichedInstant = row.keyed.enrichedInstant :=
      congrArg Row.enrichedInstant hrow
    have hnewest : d.enrichedInstant ≤ row.enrichedInstant :=
      hsurvives.newest hinput (hkey.symm.trans hrowKey)
    exact hnewest.trans hinstant.ge

/-- Suppress keeps the rows in their order. -/
theorem kept_sublist {v : Row CsvRow → Option (Option Reason)} {rows : List (Row CsvRow)}
    {out : StepOutput CsvRow} (h : decideRows v rows = some out) : out.kept.Sublist rows := by
  induction rows generalizing out with
  | nil =>
    cases h
    exact .slnil
  | cons row rows ih =>
    obtain ⟨why, -, h⟩ := Option.bind_eq_some_iff.mp h
    obtain ⟨rest, hrest, rfl⟩ := Option.map_eq_some_iff.mp h
    cases why with
    | none => exact (ih hrest).cons_cons row
    | some reason => exact (ih hrest).cons row

/-- The ids are put beside the rows. -/
theorem assign_fst {rows : List (Row CsvRow)} {out : List (Row CsvRow × Text)}
    (h : assign rows = some out) : out.map Prod.fst = rows := by
  induction rows generalizing out with
  | nil =>
    cases h
    rfl
  | cons row rows ih =>
    rw [assign, List.mapM_cons] at h
    obtain ⟨first, hfirst, h⟩ := Option.bind_eq_some_iff.mp h
    obtain ⟨rest, hrest, h⟩ := Option.bind_eq_some_iff.mp h
    obtain ⟨key, -, rfl⟩ := Option.map_eq_some_iff.mp hfirst
    cases h
    rw [List.map_cons, ih hrest]

theorem handler_assign {content : Content} {kept : List (Row CsvRow)}
    (h : handler U P env id .assignExternalId content = some o) (hrows : content = .rows kept) :
    ∃ out, assign kept = some out ∧ o.out = .withIds out := by
  subst hrows
  obtain ⟨out, hout, h⟩ := Option.bind_eq_some_iff.mp h
  obtain rfl := Option.some.inj h
  exact ⟨out, hout, rfl⟩

theorem handler_writeStaging {content : Content}
    (h : handler U P env id .writeStaging content = some o) :
    ∃ rows, content = .withIds rows ∧ o.out = .parquet rows := by
  cases content with
  | withIds rows =>
    simp only [handler] at h
    split at h
    · cases h
      exact ⟨rows, rfl, rfl⟩
    · cases h
  | _ => cases h

theorem share {α : Type} {raw front aside kept rest : List α} (h : (front ++ rest).Perm raw)
    (hrest : (aside ++ kept).Perm rest) : (front ++ aside ++ kept).Perm raw := by
  rw [List.append_assoc]
  exact (hrest.append_left front).trans h

end Steps

/-! ## The objects of a finished run -/

section Finished

variable {ν : Type} {U : UnicodeData} {P : PhoneNumbers ν} {env : RunEnv} {id key : Text}
  {bucket store : Text → Option Content} {rows : List CsvRow}

theorem Produced.prev {prev step : Step} {o' : Output} (hnext : prev.next = some step)
    (h : Produced U P env id key bucket step o') :
    ∃ o, Produced U P env id key bucket prev o ∧ handler U P env id step o.out = some o' := by
  cases h with
  | first _ _ => exact nomatch Step.next_index hnext
  | next hprev hnext' ho =>
    have hindex := (Step.next_index hnext).symm.trans (Step.next_index hnext')
    obtain rfl := Step.eq_of_index (Nat.succ.inj hindex)
    exact ⟨_, hprev, ho⟩

/-- In the second slot of a step there is what the step has put aside, and nothing else. -/
theorem sourcesAt_aside {step : Step} {o : Output}
    (hsettled : ∀ k v, store k = some v → Settles U P env id key bucket k v)
    (hstored : Stored U P env id key bucket store step)
    (ho : Produced U P env id key bucket step o) :
    sourcesAt store ((Slot.aside step).key id) = o.asideSources := by
  obtain ⟨o', ho', -, hobjects⟩ := hstored
  obtain rfl := ho.unique ho'
  obtain ⟨content, hcontent⟩ := ho.handled
  unfold sourcesAt Output.asideSources
  cases haside : o.aside with
  | some a =>
    have hkey := (handler_slots hcontent).2 a haside
    have hmem : a ∈ o.objects := List.mem_cons_of_mem _ (Option.mem_toList.mpr haside)
    rw [← hkey, hobjects a hmem]
    rfl
  | none =>
    cases hk : store ((Slot.aside step).key id) with
    | none => rfl
    | some v =>
      rcases hsettled _ _ hk with ⟨hout, -⟩ | ⟨step', o', ho', hkv⟩
      · exact absurd rfl (hout (.aside step))
      · rcases ho'.slot hkv with ⟨hslot, -⟩ | ⟨hslot, hsome⟩
        · exact nomatch Slot.key_injective id hslot
        · cases Slot.key_injective id hslot
          obtain rfl := ho.unique ho'
          exact nomatch haside.symm.trans hsome

theorem store_out {step : Step} {o : Output} (hstored : Stored U P env id key bucket store step)
    (ho : Produced U P env id key bucket step o) :
    o.returns = true ∧ store ((Slot.out step).key id) = some o.out := by
  obtain ⟨o', ho', hreturns, hobjects⟩ := hstored
  obtain rfl := ho.unique ho'
  obtain ⟨content, hcontent⟩ := ho.handled
  rw [← (handler_slots hcontent).1]
  exact ⟨hreturns, hobjects _ List.mem_cons_self⟩

/-- The objects of a finished run, step by step. -/
structure Finished (U : UnicodeData) (P : PhoneNumbers ν) (env : RunEnv) (id : Text)
    (store : Text → Option Content) (rows : List CsvRow) (out : StepOutput CsvRow)
    (staged : List (Row CsvRow × Text)) : Prop where
  schema : (sourcesAt store ((Slot.aside .schemaValidate).key id) ++
    (rows.filterMap (accepted env.run)).map ValidRow.row).Perm (rows.map CsvRow.dated)
  normalize : (sourcesAt store ((Slot.aside .normalize).key id) ++
    (Cleansing.normalize U P ((rows.filterMap (accepted env.run)).map ValidRow.toRow)).kept.map
      Row.rest).Perm ((rows.filterMap (accepted env.run)).map ValidRow.row)
  validate : (sourcesAt store ((Slot.aside .validate).key id) ++
    (rows.filterMap (arriving U P env.run)).map Row.rest).Perm
      ((Cleansing.normalize U P ((rows.filterMap (accepted env.run)).map ValidRow.toRow)).kept.map
        Row.rest)
  deduped : store ((Slot.out .dedupe).key id) =
    some (.rows (dedupe (rows.filterMap (arriving U P env.run))))
  decided : Cleansing.suppress U P env.run env.log
    (dedupe (rows.filterMap (arriving U P env.run))) = some out
  suppress : (sourcesAt store ((Slot.aside .suppress).key id) ++ out.kept.map Row.rest).Perm
    ((dedupe (rows.filterMap (arriving U P env.run))).map Row.rest)
  assigned : assign out.kept = some staged
  written : store ((Slot.out .writeStaging).key id) = some (.parquet staged)

theorem finished_of_stored (hcsv : bucket key = some (.csv rows))
    (hsettled : ∀ k v, store k = some v → Settles U P env id key bucket k v)
    (hall : ∀ step, Stored U P env id key bucket store step) :
    ∃ out staged, Finished U P env id store rows out staged := by
  obtain ⟨o₇, h₇, -⟩ := hall .writeStaging
  obtain ⟨o₆, h₆, hh₇⟩ := Produced.prev (show Step.next .assignExternalId = _ from rfl) h₇
  obtain ⟨o₅, h₅, hh₆⟩ := Produced.prev (show Step.next .suppress = _ from rfl) h₆
  obtain ⟨o₄, h₄, hh₅⟩ := Produced.prev (show Step.next .dedupe = _ from rfl) h₅
  obtain ⟨o₃, h₃, hh₄⟩ := Produced.prev (show Step.next .validate = _ from rfl) h₄
  obtain ⟨o₂, h₂, hh₃⟩ := Produced.prev (show Step.next .normalize = _ from rfl) h₃
  obtain ⟨o₁, h₁, hh₂⟩ := Produced.prev (show Step.next .schemaValidate = _ from rfl) h₂
  have hh₁ : handler U P env id .schemaValidate (.csv rows) = some o₁ := by
    cases h₁ with
    | first hc ho => exact Option.some.inj (hcsv.symm.trans hc) ▸ ho
    | next _ hnext _ => exact nomatch Step.next_index hnext
  obtain ⟨hout₁, hshare₁⟩ := schemaValidate_conserves hh₁ (store_out (hall _) h₁).1
  rw [hout₁] at hh₂
  obtain ⟨hout₂, hshare₂⟩ := normalize_conserves hh₂ (store_out (hall _) h₂).1
  rw [hout₂] at hh₃
  obtain ⟨hout₃, hshare₃⟩ := validate_conserves hh₃ (store_out (hall _) h₃).1
  rw [survivors_accepted] at hout₃ hshare₃
  rw [hout₃] at hh₄
  have hout₄ : o₄.out = .rows (dedupe (rows.filterMap (arriving U P env.run))) := by
    cases hh₄
    rfl
  rw [hout₄] at hh₅
  obtain ⟨out, hdecided, hout₅, hshare₅⟩ := suppress_conserves hh₅
  obtain ⟨staged, hassigned, hout₆⟩ := handler_assign hh₆ hout₅
  rw [hout₆] at hh₇
  obtain ⟨written, hwritten, hout₇⟩ := handler_writeStaging hh₇
  cases hwritten
  rw [← sourcesAt_aside hsettled (hall _) h₁] at hshare₁
  rw [← sourcesAt_aside hsettled (hall _) h₂] at hshare₂
  rw [← sourcesAt_aside hsettled (hall _) h₃] at hshare₃
  rw [← sourcesAt_aside hsettled (hall _) h₅] at hshare₅
  exact ⟨out, staged, hshare₁, hshare₂, hshare₃, hout₄ ▸ (store_out (hall _) h₄).2, hdecided,
    hshare₅, hassigned, hout₇ ▸ (store_out (hall _) h₇).2⟩

/-- What a run from step 1 to the end has left, whoever else has worked on it. -/
theorem finished_of_run {ι : Type} [DecidableEq ι] (hkey : enrichmentPrefix <+: key)
    (hcsv : bucket key = some (.csv rows))
    (hfresh : ∀ slot : Slot, bucket (slot.key id) = none) {start : ι → Step}
    {t : Shared ι Text Content Phase} {es : List ι}
    (hr : (interleaving fun _ => action U P env id).run (invoked id key bucket start) es = some t)
    {i : ι} (hi : start i = .schemaValidate) (hdone : t.phase i = .ended true) :
    ∃ out staged, Finished U P env id t.store rows out staged := by
  have hslot : ∀ slot : Slot, slot.key id ≠ key :=
    fun slot he => (slot.owned id).not_enrichment (he ▸ hkey)
  have hsettled : ∀ k v, t.store k = some v → Settles U P env id key bucket k v :=
    (Predetermined.run (steps_predetermined hslot) (invoked_consistent hfresh start) hr).store
  exact finished_of_stored hcsv hsettled (returned_stored hslot hfresh hr hi hdone).1

/-! ## What is left of the rows -/

/-- The rows of the staged batch: the winners of Dedupe that Suppress keeps. -/
theorem Finished.mem_staged {out : StepOutput CsvRow} {staged : List (Row CsvRow × Text)}
    (h : Finished U P env id store rows out staged) {r : Row CsvRow} {x : Text} :
    (r, x) ∈ staged ↔ (∃ row, Survives (rows.filterMap (arriving U P env.run)) row ∧
      r = row.keyed) ∧ Passes U P env.run env.log r ∧ x = externalId r.key := by
  have hdecided := h.decided
  rw [suppress_eq] at hdecided
  have hkeyed : ∀ k ∈ out.kept, k.normalizedKey = some k.key := by
    intro k hk
    obtain ⟨row, -, rfl⟩ := mem_dedupe_iff.mp ((mem_kept_decideRows hdecided).mp hk).1
    rfl
  obtain rfl := Option.some.inj (h.assigned.symm.trans (assign_keyed hkeyed))
  rw [List.mem_map]
  constructor
  · rintro ⟨k, hk, heq⟩
    cases heq
    obtain ⟨hmem, hverdict⟩ := (mem_kept_decideRows hdecided).mp hk
    exact ⟨mem_dedupe_iff.mp hmem, (verdict_kept.mp hverdict).2, rfl⟩
  · rintro ⟨⟨row, hsurvives, rfl⟩, hpasses, rfl⟩
    obtain ⟨source, -, hsource⟩ := List.mem_filterMap.mp hsurvives.mem
    have hidentified : Identified row := arriving_identified hsource
    exact ⟨row.keyed, (mem_kept_decideRows hdecided).mpr
      ⟨mem_dedupe_iff.mpr ⟨row, hsurvives, rfl⟩, verdict_kept.mpr ⟨hidentified, hpasses⟩⟩, rfl⟩

theorem Finished.staged_sources {out : StepOutput CsvRow} {staged : List (Row CsvRow × Text)}
    (h : Finished U P env id store rows out staged) :
    sourcesAt store (cleansedKey id) = out.kept.map Row.rest := by
  have hwritten : store (cleansedKey id) = some (.parquet staged) := h.written
  rw [sourcesAt, hwritten, ← assign_fst h.assigned, List.map_map]
  rfl

theorem Finished.keys_nodup {out : StepOutput CsvRow} {staged : List (Row CsvRow × Text)}
    (h : Finished U P env id store rows out staged) :
    (staged.map fun r => r.1.key).Nodup := by
  have hdecided := h.decided
  rw [suppress_eq] at hdecided
  have hsub : (out.kept.map Row.key).Nodup :=
    ((kept_sublist hdecided).map Row.key).nodup (dedupe_keys_nodup _)
  rwa [← assign_fst h.assigned, List.map_map] at hsub

theorem Finished.accounts {out : StepOutput CsvRow} {staged : List (Row CsvRow × Text)}
    (h : Finished U P env id store rows out staged) :
    ∃ dropped : List (Row CsvRow),
      (∀ d ∈ dropped, d ∈ rows.filterMap (arriving U P env.run) ∧
        ∃ k ∈ dedupe (rows.filterMap (arriving U P env.run)),
          k.key = d.key ∧ d.enrichedInstant ≤ k.enrichedInstant) ∧
      (sourcesAt store (quarantineKey id "01_schema".toList) ++
        sourcesAt store (quarantineKey id "02_normalize".toList) ++
        sourcesAt store (quarantineKey id "03_validate".toList) ++ dropped.map Row.rest ++
        sourcesAt store (stepKey id "05_excluded.ndjson".toList) ++
        sourcesAt store (cleansedKey id)).Perm (rows.map CsvRow.dated) := by
  obtain ⟨dropped, hdropped, hnewer⟩ := dedupe_sources (rows.filterMap (arriving U P env.run))
  refine ⟨dropped, hnewer, ?_⟩
  rw [h.staged_sources]
  exact share (share (share (share h.schema h.normalize) h.validate) hdropped) h.suppress

end Finished

/-! ## Runs -/

/-- A contact with two rows, and between them a row without a company. -/
def mixedRows : List CsvRow :=
  [leadRow, { columns := leadRow.columns.set "company_name".toList none }, leadRow]

def mixedFile (k : Text) : Option Content :=
  if k = weeklyKey false then some (.csv mixedRows) else none

theorem mixedFile_fresh (slot : Slot) : mixedFile (slot.key "r".toList) = none := by
  have hall : ∀ slot ∈ Slot.all, (mixedFile (slot.key "r".toList)).isNone = true := by
    decide +kernel
  exact Option.isNone_iff_eq_none.mp (hall slot slot.mem_all)

/-- Two invocations that start with step 1, and a rerun of step 2. -/
inductive Invocation where
  | crashed
  | rerun
  | last
  deriving DecidableEq

def Invocation.start : Invocation → Step
  | .rerun => .normalize
  | _ => .schemaValidate

/-- The first invocation is cut off within step 2, the rerun of step 2 within step 3; between
their accesses the last one goes through. Step 1 puts a quarantine file. -/
def mixedAccesses : List Invocation :=
  [.crashed, .crashed, .crashed, .rerun, .crashed, .rerun, .last, .last, .rerun] ++
    List.replicate 14 .last

theorem mixedFile_run :
    ∃ t, (interleaving fun _ => action .plain .e164 vendorEnv "r".toList).run
        (invoked "r".toList (weeklyKey false) mixedFile Invocation.start) mixedAccesses = some t ∧
      t.phase .last = .ended true := by
  have hruns : ((interleaving fun _ => action .plain .e164 vendorEnv "r".toList).run
      (invoked "r".toList (weeklyKey false) mixedFile Invocation.start) mixedAccesses).map
        (fun t => (t.phase .last).returned) = some true := by
    decide +kernel
  obtain ⟨t, ht, hdone⟩ := Option.map_eq_some_iff.mp hruns
  exact ⟨t, ht, Phase.eq_of_returned hdone⟩

section Run

variable {ν ι : Type} [DecidableEq ι] {U : UnicodeData} {P : PhoneNumbers ν} {env : RunEnv}
  {id key : Text} {bucket : Text → Option Content} {rows : List CsvRow}

/-- No row of the raw file gets lost between the objects: where no object of the run was there
before and all invocations get the same answers (the one `env`), once one invocation has gone
from step 1 to the end, whatever reruns there were beside it, each row stands in exactly one
of the three quarantine files, `05_excluded` and the staged batch, or is an older row of a
contact in `04_deduped`. -/
theorem finished_run_accounts (hkey : enrichmentPrefix <+: key)
    (hcsv : bucket key = some (.csv rows))
    (hfresh : ∀ slot : Slot, bucket (slot.key id) = none) {start : ι → Step}
    {t : Shared ι Text Content Phase} {es : List ι}
    (hr : (interleaving fun _ => action U P env id).run (invoked id key bucket start) es = some t)
    {i : ι} (hi : start i = .schemaValidate) (hdone : t.phase i = .ended true) :
    ∃ kept dropped : List (Row CsvRow),
      t.store (stepKey id "04_deduped.ndjson".toList) = some (.rows kept) ∧
      (∀ d ∈ dropped, d ∈ rows.filterMap (arriving U P env.run) ∧
        ∃ k ∈ kept, k.key = d.key ∧ d.enrichedInstant ≤ k.enrichedInstant) ∧
      (sourcesAt t.store (quarantineKey id "01_schema".toList) ++
        sourcesAt t.store (quarantineKey id "02_normalize".toList) ++
        sourcesAt t.store (quarantineKey id "03_validate".toList) ++ dropped.map Row.rest ++
        sourcesAt t.store (stepKey id "05_excluded.ndjson".toList) ++
        sourcesAt t.store (cleansedKey id)).Perm (rows.map CsvRow.dated) := by
  obtain ⟨out, staged, hfinished⟩ := finished_of_run hkey hcsv hfresh hr hi hdone
  obtain ⟨dropped, hnewer, hperm⟩ := hfinished.accounts
  exact ⟨_, dropped, hfinished.deduped, hnewer, hperm⟩

theorem finished_run_accounts_mixed :
    ∃ (t : Shared Invocation Text Content Phase) (kept dropped : List (Row CsvRow)),
      (interleaving fun _ => action .plain .e164 vendorEnv "r".toList).run
        (invoked "r".toList (weeklyKey false) mixedFile Invocation.start) mixedAccesses = some t ∧
      t.store (stepKey "r".toList "04_deduped.ndjson".toList) = some (.rows kept) ∧
      (∀ d ∈ dropped, ∃ k ∈ kept, k.key = d.key) ∧
      (sourcesAt t.store (quarantineKey "r".toList "01_schema".toList) ++
        sourcesAt t.store (quarantineKey "r".toList "02_normalize".toList) ++
        sourcesAt t.store (quarantineKey "r".toList "03_validate".toList) ++
        dropped.map Row.rest ++ sourcesAt t.store (stepKey "r".toList "05_excluded.ndjson".toList) ++
        sourcesAt t.store (cleansedKey "r".toList)).Perm (mixedRows.map CsvRow.dated) := by
  obtain ⟨t, ht, hdone⟩ := mixedFile_run
  obtain ⟨kept, dropped, hkept, hnewer, hperm⟩ :=
    finished_run_accounts (by decide) (if_pos rfl) mixedFile_fresh ht rfl hdone
  exact ⟨t, kept, dropped, ht, hkept,
    fun d hd => (hnewer d hd).2.imp fun k hk => ⟨hk.1, hk.2.1⟩, hperm⟩

/-- The staged batch of such a run, with the same `env` for all invocations and no object there
before: one row for each contact, the newest of those that the first three steps let through,
where that row is neither on the suppression list nor inside the cooldown, with the id of its
key. -/
theorem finished_run_stages (hkey : enrichmentPrefix <+: key)
    (hcsv : bucket key = some (.csv rows))
    (hfresh : ∀ slot : Slot, bucket (slot.key id) = none) {start : ι → Step}
    {t : Shared ι Text Content Phase} {es : List ι}
    (hr : (interleaving fun _ => action U P env id).run (invoked id key bucket start) es = some t)
    {i : ι} (hi : start i = .schemaValidate) (hdone : t.phase i = .ended true) :
    ∃ staged, t.store (cleansedKey id) = some (.parquet staged) ∧
      (staged.map fun r => r.1.key).Nodup ∧
      ∀ r x, (r, x) ∈ staged ↔ (∃ row, Survives (rows.filterMap (arriving U P env.run)) row ∧
        r = row.keyed) ∧ Passes U P env.run env.log r ∧ x = externalId r.key := by
  obtain ⟨out, staged, hfinished⟩ := finished_of_run hkey hcsv hfresh hr hi hdone
  exact ⟨staged, hfinished.written, hfinished.keys_nodup, fun r x => hfinished.mem_staged⟩

theorem finished_run_stages_mixed :
    ∃ t staged, (interleaving fun _ => action .plain .e164 vendorEnv "r".toList).run
        (invoked "r".toList (weeklyKey false) mixedFile Invocation.start) mixedAccesses = some t ∧
      t.store (cleansedKey "r".toList) = some (.parquet staged) ∧
      ∀ r x, (r, x) ∈ staged → x = externalId r.key := by
  obtain ⟨t, ht, hdone⟩ := mixedFile_run
  obtain ⟨staged, hstaged, -, hmem⟩ :=
    finished_run_stages (by decide) (if_pos rfl) mixedFile_fresh ht rfl hdone
  exact ⟨t, staged, ht, hstaged, fun r x hr => ((hmem r x).mp hr).2.2⟩

end Run

end Outreach.Cleansing.Runs
