import Outreach.Cleansing.Steps
import Outreach.Library.Binary64
import Outreach.Salesforce.Growth
import Outreach.Salesforce.Sync
import Outreach.Salesforce.Terminal
import Mathlib.Data.List.Dedup

/-!
# The lake and Salesforce: `salesforce/reconcile.py`

The cleansed batches are pushed record by record, in any order, over and over,
and some records never; the daily reconciliation compares two counts. Every lead
with an external id comes from a record of a batch, so that as long as no batch
is replaced by one without its ids, the difference of the counts is the number of
ids without a lead. The drift is a `float`, and so is the alarm's threshold.
-/

namespace Outreach.Salesforce

open Outreach.Library Outreach.Cleansing

set_option autoImplicit false

/-- The objects under `staging/cleansed/`, with the rows of each. -/
abbrev Lake := Dict Text (List (Row Runs.CsvRow × Text))

/-- `external_ids`, as the `set` that it is. -/
def lakeIds (lake : Lake) : List Text := (lake.values.flatMap fun rows => rows.map Prod.snd).dedup

/-- The leads that `DRIFT_QUERY` counts, by their external ids. -/
def leadIds (db : Database) : List Text := db.leads.rows.filterMap Lead.outreachExternalId

/-- `drift_percent`; each of the two operations rounds. -/
def driftPercent (lakeCount salesforceCount : Nat) : ℚ :=
  if lakeCount = 0 then if salesforceCount = 0 then 0 else 100
  else Binary64.round (Binary64.round (|(lakeCount : ℚ) - salesforceCount| / lakeCount) * 100)

structure DriftReport where
  lakeCount : Nat
  salesforceCount : Nat
  driftPercent : ℚ

/-- The handler of the reconciliation, on the batches and the leads as it finds them. -/
def reconcileCounts (lake : Lake) (db : Database) : DriftReport where
  lakeCount := (lakeIds lake).length
  salesforceCount := (leadIds db).length
  driftPercent := Salesforce.driftPercent (lakeIds lake).length (leadIds db).length

/-- `DRIFT_ALARM_THRESHOLD_PERCENT` -/
def driftAlarmThreshold : ℚ := 1

/-- `SyncDriftAlarm`, on the maximum of a day; a day without one breaches. -/
def driftAlarm : Option ℚ → Bool
  | none => true
  | some percent => decide (driftAlarmThreshold < percent)

/-- The columns of a staged row that the sync reads. -/
def batchRow (staged : Row Runs.CsvRow × Text) : Bulk.BatchRow :=
  Dict.ofList [("external_id".toList, some staged.2),
    ("company_name".toList, some staged.1.companyName),
    ("contact_name".toList, (staged.1.rest.get? "contact_name").join),
    ("phone".toList, staged.1.phone), ("email".toList, staged.1.email)]

structure Sides where
  lake : Lake
  org : Org

inductive Move where
  /-- `write_staging` of a run puts its batch -/
  | stage (runId : Text) (rows : List (Row Runs.CsvRow × Text))
  /-- a job of the sync saves a record of a batch -/
  | sync (key : Text) (n : Nat)
  /-- the org does anything but an upsert -/
  | org (e : Label)

section Step

variable {ν : Type} (p : Platform) (P : PhoneNumbers ν)

def Sides.step (s : Sides) : Move → Option Sides
  | .stage runId rows => some { s with lake := s.lake.set (Runs.cleansedKey runId) rows }
  | .sync key n => do
      let staged ← (← s.lake.get? key)[n]?
      let org ← (Salesforce.org p P).step s.org (.upsert (Bulk.leadRecord (batchRow staged)))
      some { s with org }
  | .org (.upsert _) => none
  | .org e => ((Salesforce.org p P).step s.org e).map fun org => { s with org }

def sides : Machine Sides Move := ⟨Sides.step p P⟩

end Step

/-- A batch that replaces another has the ids of the other. -/
def KeepsIds (s : Sides) : Move → Prop
  | .stage runId rows => ∀ old, s.lake.get? (Runs.cleansedKey runId) = some old →
      ∀ x ∈ old.map Prod.snd, x ∈ rows.map Prod.snd
  | _ => True

/-- No two leads share an external id, and each has that of a staged row. -/
structure Sides.Matched (s : Sides) : Prop where
  unique : (leadIds s.org.db).Nodup
  staged : ∀ x ∈ leadIds s.org.db, x ∈ lakeIds s.lake

/-- The staged ids without a lead. -/
def missingIds (s : Sides) : List Text :=
  (lakeIds s.lake).filter fun x => !(leadIds s.org.db).contains x

/-! ## External ids in the org -/

section Org

variable {ν : Type} {p : Platform} {P : PhoneNumbers ν} {w w' : Org} {db db' : Database}
  {now : Time}

theorem leadIds_of_leads (h : db'.leads = db.leads) : leadIds db' = leadIds db := by
  rw [leadIds, h, leadIds]

theorem leadIds_map {f : Lead → Lead} (hf : ∀ l, (f l).outreachExternalId = l.outreachExternalId)
    (h : db'.leads.rows = db.leads.rows.map f) : leadIds db' = leadIds db := by
  rw [leadIds, h, List.filterMap_map, leadIds]
  exact congrArg (fun g => List.filterMap g db.leads.rows) (funext hf)

theorem leadIds_modifyLead {i : Id} {f : Lead → Lead} {hid : ∀ l, (f l).id = l.id}
    (hf : ∀ l, (f l).outreachExternalId = l.outreachExternalId) :
    leadIds (db.modifyLead i f hid) = leadIds db := by
  refine leadIds_map (f := fun l => if l.id = i then f l else l) (fun l => ?_) rfl
  split
  · exact hf l
  · rfl

theorem leadIds_contact (contacted : List (Id × Time)) (db : Database) :
    leadIds (contacted.foldl
      (fun db c => db.modifyLead c.1 (markContacted c.2) fun _ => rfl) db) = leadIds db := by
  induction contacted generalizing db with
  | nil => rfl
  | cons c contacted ih => exact (ih _).trans (leadIds_modifyLead fun _ => rfl)

theorem leadIds_finished {fault fault' : Bool} {tx : Tx}
    (h : w.finished p fault fault' tx = some db) : leadIds db = leadIds w.db := by
  rcases finished_cases h with rfl | ⟨b, -, hc⟩ | ⟨form, sid, matched, -, -, rfl⟩ |
    ⟨query, out, -, hs, rfl⟩
  · rfl
  · obtain ⟨db₁, hins, rfl⟩ := Option.map_eq_some_iff.mp hc
    exact (leadIds_contact _ _).trans (leadIds_of_leads (Database.insert_spec hins).2.1)
  · refine leadIds_map (f := afterReply p.unicode w.now form matched) (fun l => ?_) ?_
    · unfold afterReply applyReply
      split
      · split <;> rfl
      · rfl
    · exact (persistVerdict_leads p.unicode w.now form matched _ _).1
  · exact leadIds_of_leads (statusCommit_leads hs)

/-- Only an upsert changes the external ids of the org. -/
theorem leadIds_step {e : Label} (hs : (org p P).step w e = some w')
    (he : ∀ record, e ≠ .upsert record) : leadIds w'.db = leadIds w.db := by
  rcases step_db hs with hsame | ⟨_, _, _, _, -, -, hdb⟩ | ⟨_, _, _, _, job, -, -, hdb⟩ |
    ⟨record, hupsert, -⟩
  · rw [hsame]
  · exact leadIds_finished hdb
  · rw [hdb]
    exact leadIds_of_leads (afterSync_leads job _ _).1
  · exact absurd hupsert (he record)

/-- An upsert adds its external id, unless a lead has it. -/
theorem leadIds_upsert (now : Time) (r : LeadRecord) (db : Database) :
    leadIds (upsertLead now r db) =
      if r.outreachExternalId ∈ leadIds db then leadIds db
      else leadIds db ++ [r.outreachExternalId] := by
  have hmem : r.outreachExternalId ∈ leadIds db ↔
      ∃ l ∈ db.leads.rows, l.outreachExternalId = some r.outreachExternalId := List.mem_filterMap
  unfold upsertLead
  split
  · rename_i l hfound
    have hid := List.find?_some hfound
    rw [if_pos (hmem.mpr ⟨l, List.mem_of_find?_eq_some hfound, by simpa using hid⟩)]
    exact leadIds_modifyLead fun _ => rfl
  · rename_i hnone
    rw [if_neg]
    · show List.filterMap _ (db.leads.rows ++ [_]) = _
      rw [List.filterMap_append]
      rfl
    · intro hin
      obtain ⟨l, hl, hid⟩ := hmem.mp hin
      exact List.find?_eq_none.mp hnone l hl (decide_eq_true hid)

end Org

/-! ## Runs -/

section Runs

variable {ν : Type} {p : Platform} {P : PhoneNumbers ν} {s s' t : Sides} {es : List Move}

theorem mem_lakeIds {lake : Lake} {x : Text} :
    x ∈ lakeIds lake ↔ ∃ key rows, lake.get? key = some rows ∧ x ∈ rows.map Prod.snd := by
  rw [lakeIds, List.mem_dedup, List.mem_flatMap]
  constructor
  · rintro ⟨rows, hrows, hx⟩
    obtain ⟨key, hkey⟩ := Dict.mem_values.mp hrows
    exact ⟨key, rows, hkey, hx⟩
  · rintro ⟨key, rows, hkey, hx⟩
    exact ⟨rows, Dict.mem_values.mpr ⟨key, hkey⟩, hx⟩

theorem sync_id (staged : Row Runs.CsvRow × Text) :
    (Bulk.leadRecord (batchRow staged)).outreachExternalId = staged.2 := rfl

/-- A record is saved of a batch that is there, by an upsert of the org. -/
theorem step_sync {key : Text} {n : Nat} (hs : (sides p P).step s (.sync key n) = some s') :
    ∃ rows staged, s.lake.get? key = some rows ∧ staged ∈ rows ∧ s'.lake = s.lake ∧
      s'.org.db = upsertLead s.org.now (Bulk.leadRecord (batchRow staged)) s.org.db := by
  simp only [sides, Sides.step, Option.bind_eq_bind, Option.bind_eq_some_iff] at hs
  obtain ⟨rows, hrows, staged, hstaged, w, hw, hs⟩ := hs
  cases hs
  cases hw
  exact ⟨rows, staged, hrows, List.mem_of_getElem? hstaged, rfl, rfl⟩

/-- Every other step of the org leaves the external ids as they are. -/
theorem step_org {e : Label} (hs : (sides p P).step s (.org e) = some s') :
    s'.lake = s.lake ∧ leadIds s'.org.db = leadIds s.org.db := by
  have hother : (∀ record, e ≠ .upsert record) →
      ((Salesforce.org p P).step s.org e).map (fun org => { s with org }) = some s' →
      s'.lake = s.lake ∧ leadIds s'.org.db = leadIds s.org.db := by
    intro he hmap
    obtain ⟨w, hw, rfl⟩ := Option.map_eq_some_iff.mp hmap
    exact ⟨rfl, leadIds_step hw he⟩
  cases e with
  | upsert record => cases hs
  | _ => exact hother (fun _ => Label.noConfusion) hs

/-- Every step keeps the ids of the leads apart, and among those of the lake. -/
theorem step_matched (h : s.Matched) {e : Move} (he : KeepsIds s e)
    (hs : (sides p P).step s e = some s') : s'.Matched := by
  cases e with
  | stage runId rows =>
    cases hs
    refine ⟨h.unique, fun x hx => ?_⟩
    obtain ⟨key, old, hold, hin⟩ := mem_lakeIds.mp (h.staged x hx)
    by_cases hkey : key = Runs.cleansedKey runId
    · subst hkey
      refine mem_lakeIds.mpr ⟨Runs.cleansedKey runId, rows, ?_, he old hold x hin⟩
      rw [Dict.get?_set, if_pos rfl]
    · refine mem_lakeIds.mpr ⟨key, old, ?_, hin⟩
      rw [Dict.get?_set, if_neg (Ne.symm hkey)]
      exact hold
  | sync key n =>
    obtain ⟨rows, staged, hrows, hstaged, hlake, hdb⟩ := step_sync hs
    have hid : staged.2 ∈ lakeIds s.lake :=
      mem_lakeIds.mpr ⟨key, rows, hrows, List.mem_map_of_mem hstaged⟩
    have hids := leadIds_upsert s.org.now (Bulk.leadRecord (batchRow staged)) s.org.db
    rw [sync_id, ← hdb] at hids
    split at hids
    · exact ⟨hids ▸ h.unique, fun x hx => hlake ▸ h.staged x (hids ▸ hx)⟩
    · rename_i hnew
      refine ⟨?_, fun x hx => ?_⟩
      · rw [hids, List.nodup_append]
        refine ⟨h.unique, List.nodup_singleton _, fun x hx y hy hxy => hnew ?_⟩
        rwa [← List.mem_singleton.mp hy, ← hxy]
      · rw [hids, List.mem_append, List.mem_singleton] at hx
        rw [hlake]
        rcases hx with hx | rfl
        · exact h.staged x hx
        · exact hid
  | org e =>
    obtain ⟨hlake, hids⟩ := step_org hs
    exact ⟨hids ▸ h.unique, fun x hx => hlake ▸ h.staged x (hids ▸ hx)⟩

theorem run_matched (h : s.Matched) (ha : (sides p P).Along KeepsIds s es)
    (hr : (sides p P).run s es = some t) : t.Matched :=
  (sides p P).run_preserves_along (fun _ _ _ hs he hstep => step_matched hs he hstep) h ha hr

end Runs

/-! ## The counts -/

section Counts

variable {ν : Type} {p : Platform} {P : PhoneNumbers ν} {s t : Sides} {es : List Move}

/-- The ids of the leads and the missing ids are those of the lake. -/
theorem Sides.Matched.counts (h : s.Matched) :
    (leadIds s.org.db).length + (missingIds s).length = (lakeIds s.lake).length := by
  have hlake : (lakeIds s.lake).Nodup := List.nodup_dedup _
  have hpresent : ((lakeIds s.lake).filter fun x => (leadIds s.org.db).contains x).Perm
      (leadIds s.org.db) := by
    rw [List.perm_ext_iff_of_nodup (hlake.filter _) h.unique]
    intro x
    rw [List.mem_filter, List.contains_iff_mem]
    exact ⟨fun hx => hx.2, fun hx => ⟨h.staged x hx, hx⟩⟩
  have hsplit := List.filter_append_perm (fun x => (leadIds s.org.db).contains x) (lakeIds s.lake)
  have hlength := hsplit.length_eq
  rwa [List.length_append, hpresent.length_eq] at hlength

theorem driftPercent_of_missing {missing present : Nat} (h : present + missing ≠ 0) :
    driftPercent (present + missing) present =
      Binary64.round (Binary64.round (missing / (present + missing : ℕ)) * 100) := by
  have hdifference : |((present + missing : ℕ) : ℚ) - present| = missing := by
    rw [Nat.cast_add, add_sub_cancel_left, Nat.abs_cast]
  rw [driftPercent, if_neg h, hdifference]

/-- No drift is small enough to be rounded away. -/
theorem driftPercent_eq_zero {missing present : Nat} :
    driftPercent (present + missing) present = 0 ↔ missing = 0 := by
  rcases Nat.eq_zero_or_pos missing with rfl | hpos
  · refine iff_of_true ?_ rfl
    rw [driftPercent, Nat.add_zero, sub_self, abs_zero, zero_div, Binary64.round_zero, zero_mul,
      Binary64.round_zero]
    split <;> rfl
  · refine iff_of_false ?_ hpos.ne'
    have hcount : 0 < present + missing := Nat.add_pos_right _ hpos
    have hquotient : (0 : ℚ) < missing / (present + missing : ℕ) :=
      div_pos (Nat.cast_pos.mpr hpos) (Nat.cast_pos.mpr hcount)
    rw [driftPercent_of_missing hcount.ne']
    exact (Binary64.round_pos (mul_pos (Binary64.round_pos hquotient) (by norm_num))).ne'

/-- What the code makes of a quotient, in percent. -/
theorem percent_mono {x y : ℚ} (hx : 0 ≤ x) (h : x ≤ y) :
    Binary64.round (Binary64.round x * 100) ≤ Binary64.round (Binary64.round y * 100) := by
  have hround := Binary64.round_mono hx h
  refine Binary64.round_mono (mul_nonneg (Binary64.round_nonneg hx) (by norm_num)) ?_
  exact mul_le_mul_of_nonneg_right hround (by norm_num)

theorem percent_hundredth : Binary64.round (Binary64.round (1 / 100) * 100) = 1 := by
  decide +kernel

theorem percent_above_hundredth :
    1 < Binary64.round (Binary64.round ((2 ^ 50 + 1) / (100 * 2 ^ 50)) * 100) := by
  decide +kernel

/-- The rounding hides no drift above the threshold, and makes up none. -/
theorem driftAlarm_iff {missing present : Nat} (h : present + missing ≤ 2 ^ 50) :
    driftAlarm (some (driftPercent (present + missing) present)) = true ↔
      present + missing < 100 * missing := by
  rw [driftAlarm, decide_eq_true_iff, driftAlarmThreshold]
  rcases Nat.eq_zero_or_pos (present + missing) with hnone | hcount
  · rw [driftPercent, if_pos hnone, if_pos (Nat.eq_zero_of_add_eq_zero_right hnone)]
    refine iff_of_false (by norm_num) ?_
    rw [Nat.eq_zero_of_add_eq_zero_left hnone]
    exact Nat.not_lt_zero _
  have hpos : (0 : ℚ) < (present + missing : ℕ) := Nat.cast_pos.mpr hcount
  rw [driftPercent_of_missing hcount.ne']
  constructor
  · intro halarm
    by_contra hless
    have hbelow : (missing : ℚ) / (present + missing : ℕ) ≤ 1 / 100 := by
      rw [div_le_div_iff₀ hpos (by norm_num), one_mul, mul_comm]
      exact_mod_cast not_lt.mp hless
    have hpercent := percent_mono (div_nonneg (Nat.cast_nonneg _) hpos.le) hbelow
    rw [percent_hundredth] at hpercent
    exact absurd halarm (not_lt.mpr hpercent)
  · intro hmore
    -- one id more than a hundredth is at least one part in `100 * 2 ^ 50` more
    have habove : ((2 : ℚ) ^ 50 + 1) / (100 * 2 ^ 50) ≤ missing / (present + missing : ℕ) := by
      rw [div_le_div_iff₀ (by norm_num) hpos]
      have hnat : (2 ^ 50 + 1) * (present + missing) ≤ missing * (100 * 2 ^ 50) := by
        omega
      exact_mod_cast hnat
    exact percent_above_hundredth.trans_le (percent_mono (by norm_num) habove)

/-- The drift is the share of the staged ids that have no lead. -/
theorem reconcileCounts_missing (h : s.Matched) (ha : (sides p P).Along KeepsIds s es)
    (hr : (sides p P).run s es = some t) :
    (reconcileCounts t.lake t.org.db).salesforceCount + (missingIds t).length =
        (reconcileCounts t.lake t.org.db).lakeCount ∧
      ((reconcileCounts t.lake t.org.db).driftPercent = 0 ↔
        ∀ x ∈ lakeIds t.lake, x ∈ leadIds t.org.db) ∧
      ((lakeIds t.lake).length ≤ 2 ^ 50 →
        (driftAlarm (some (reconcileCounts t.lake t.org.db).driftPercent) = true ↔
          (lakeIds t.lake).length < 100 * (missingIds t).length)) := by
  have hcounts := (run_matched h ha hr).counts
  have hpercent : (reconcileCounts t.lake t.org.db).driftPercent =
      driftPercent ((leadIds t.org.db).length + (missingIds t).length)
        (leadIds t.org.db).length := by
    rw [hcounts]
    rfl
  refine ⟨hcounts, ?_, fun hlake => ?_⟩
  · rw [hpercent, driftPercent_eq_zero, List.length_eq_zero_iff, missingIds,
      List.filter_eq_nil_iff]
    refine forall₂_congr fun x hx => ?_
    rw [Bool.not_eq_true', Bool.not_eq_false, List.contains_iff_mem]
  · rw [← hcounts] at hlake ⊢
    rw [hpercent]
    exact driftAlarm_iff hlake

/-! A batch of two companies, and the sync of the second. -/

def stagedRow (company externalId : String) : Row Runs.CsvRow × Text :=
  ({ companyName := company.toList, phone := some sharedPhone, email := none,
     enrichedAt := ⟨0, 0⟩, lastContactedAt := none, rest := ⟨.empty, none⟩ }, externalId.toList)

def secondSynced : List Move :=
  [.stage "r".toList [stagedRow "Acme" "a", stagedRow "Bolt" "b"],
    .sync (Runs.cleansedKey "r".toList) 1]

theorem twins_matched : Sides.Matched ⟨.empty, twins⟩ := by
  have hnone : leadIds twins.db = [] := rfl
  refine ⟨hnone ▸ List.nodup_nil, fun x hx => ?_⟩
  exact absurd (hnone ▸ hx) List.not_mem_nil

theorem reconcileCounts_missing_secondSynced :
    ∃ t, (sides gmtPlatform .e164).run ⟨.empty, twins⟩ secondSynced = some t ∧
      (reconcileCounts t.lake t.org.db).lakeCount = 2 ∧
      (reconcileCounts t.lake t.org.db).salesforceCount = 1 ∧
      driftAlarm (some (reconcileCounts t.lake t.org.db).driftPercent) = true := by
  have hruns : ((sides gmtPlatform .e164).run ⟨.empty, twins⟩ secondSynced).map
      (fun t => (lakeIds t.lake, leadIds t.org.db)) =
        some (["a".toList, "b".toList], ["b".toList]) := by decide +kernel
  obtain ⟨t, ht, hids⟩ := Option.map_eq_some_iff.mp hruns
  obtain ⟨hlake, hlead⟩ := Prod.mk.injEq .. ▸ hids
  have ha : (sides gmtPlatform .e164).Along KeepsIds ⟨.empty, twins⟩ secondSynced := by
    refine ⟨fun old hold => absurd hold (Option.some_ne_none _ ·.symm), fun u _ => ⟨trivial, ?_⟩⟩
    exact fun _ _ => trivial
  obtain ⟨hcounts, -, halarm⟩ := reconcileCounts_missing twins_matched ha ht
  have hlakeCount : (reconcileCounts t.lake t.org.db).lakeCount = 2 := congrArg List.length hlake
  have hcount : (reconcileCounts t.lake t.org.db).salesforceCount = 1 := congrArg List.length hlead
  refine ⟨t, ht, hlakeCount, hcount, (halarm ?_).mpr ?_⟩
  · rw [hlake]
    decide
  · rw [hcount, hlakeCount] at hcounts
    rw [hlake]
    show 2 < 100 * (missingIds t).length
    omega

end Counts

end Outreach.Salesforce
