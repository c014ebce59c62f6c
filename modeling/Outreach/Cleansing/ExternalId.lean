import Outreach.Cleansing.Leak
import Outreach.Library.Uuid

/-!
# The external id over two runs

The id is taken over what is left of the identifiers after Validate, and Validate
asks the network. Where the two runs get different answers about the domain of a
row that also has a phone, the row has two keys.
-/

namespace Outreach.Cleansing

open Outreach.Library

set_option autoImplicit false

def externalIdNamespace : Uuid := .uuid5 .namespaceDns "outreach.fundmatellc.com".toList

def externalId (key : Text) : Text := (Uuid.uuid5 externalIdNamespace key).toText

example : externalId "+16502530000|jane@acme.com".toList =
    "6ce2fedc-673b-5d29-b5d8-1feb3fd64630".toList := by
  decide +kernel

section Assign

variable {ν α : Type} (U : UnicodeData) (P : PhoneNumbers ν)

/-- Step 6: each row with its `external_id`; `none` is the `KeyError` without a key. -/
def assign (rows : List (Row α)) : Option (List (Row α × Text)) :=
  rows.mapM fun row => row.normalizedKey.map fun key => (row, externalId key)

/-- Normalize, Validate, Dedupe and Assign. -/
def assignedRows (run : PipelineRun) (rows : List (Row α)) : Option (List (Row α × Text)) :=
  assign (dedupe (validate run (normalize U P rows).kept).kept)

/-- The run keeps the input row `i` and gives it the id. -/
def Assigns (run : PipelineRun) (rows : List (Row α)) (i : Nat) (id : Text) : Prop :=
  ∃ out, assignedRows U P run (numbered rows) = some out ∧ ∃ r, (r, id) ∈ out ∧ r.origin = i

/-- Two runs that both keep the row, among whatever other rows, give it the same id. -/
def StableId (run run' : PipelineRun) (row : Row α) : Prop :=
  ∀ (rows rows' : List (Row α)) (i j : Nat) (id id' : Text), rows[i]? = some row →
    rows'[j]? = some row → Assigns U P run rows i id → Assigns U P run' rows' j id' → id = id'

variable {U P} {run run' : PipelineRun} {row : Row α}

/-- After Dedupe every row has its key. -/
theorem assign_keyed {rows : List (Row α)} (h : ∀ r ∈ rows, r.normalizedKey = some r.key) :
    assign rows = some (rows.map fun r => (r, externalId r.key)) := by
  induction rows with
  | nil => rfl
  | cons r rows ih =>
    obtain ⟨hr, hrows⟩ := List.forall_mem_cons.mp h
    have hrest : rows.mapM (fun row => row.normalizedKey.map fun key => (row, externalId key)) =
        some (rows.map fun r => (r, externalId r.key)) := ih hrows
    rw [assign, List.mapM_cons, hr, hrest]
    rfl

theorem assigns_iff {rows : List (Row α)} {i : Nat} {id : Text} :
    Assigns U P run rows i id ↔ ∃ (row r : Row α), rows[i]? = some row ∧
      prepared U P run row = some r ∧ Newest U P run rows i row ∧ id = externalId r.key := by
  have hkeyed : ∀ r ∈ dedupe ((numbered rows).filterMap (prepared U P run)),
      r.normalizedKey = some r.key := by
    intro r hr
    obtain ⟨_, _, _, -, -, -, rfl⟩ := mem_dedupe.mp hr
    rfl
  rw [Assigns, assignedRows, survivors_eq, assign_keyed hkeyed]
  constructor
  · intro h
    obtain ⟨out, hout, r, hr, horigin⟩ := h
    cases hout
    obtain ⟨x, hx, heq⟩ := List.mem_map.mp hr
    obtain ⟨rfl, rfl⟩ := Prod.mk.injEq .. ▸ heq
    obtain ⟨k, row, s, hrow, hs, hnewest, rfl⟩ := mem_dedupe.mp hx
    obtain rfl : k = i := horigin
    exact ⟨row, s, hrow, hs, hnewest, rfl⟩
  · intro h
    obtain ⟨row, s, hrow, hs, hnewest, rfl⟩ := h
    refine ⟨_, rfl, (s.numbered i).keyed, ?_, rfl⟩
    exact List.mem_map.mpr ⟨_, mem_dedupe.mpr ⟨i, row, s, hrow, hs, hnewest, rfl⟩, rfl⟩

theorem prepared_key {r : Row α} (h : prepared U P run row = some r) :
    r.key = normalizedKey (normalizePhone U P row.phone) (keptEmail U run row) := by
  obtain ⟨_, -, -, rfl⟩ := (prepared_eq_some U P run).mp h
  rfl

theorem keptEmail_some {e : Text} (he : normalizeEmail U row.email = some e) :
    keptEmail U run row = if run.mxCheck (domainOf e) then some e else none := by
  rw [keptEmail, he]
  rfl

/-- A row alone in its run is kept when it has a company and an identifier that is left. -/
theorem assigns_alone {company : Text} (hc : normalizeCompany U (some row.companyName) = some company)
    (hid : ¬ (normalizePhone U P row.phone = none ∧ keptEmail U run row = none)) :
    Assigns U P run [row] 0
      (externalId (normalizedKey (normalizePhone U P row.phone) (keptEmail U run row))) := by
  obtain ⟨r, hr⟩ : ∃ r, prepared U P run row = some r :=
    ⟨_, (prepared_eq_some U P run).mpr ⟨company, hc, hid, rfl⟩⟩
  refine assigns_iff.mpr ⟨row, r, rfl, hr, fun j other hother _ => ?_, by rw [prepared_key hr]⟩
  have hj : j = 0 := by
    cases j with
    | zero => rfl
    | succ j => exact nomatch hother
  constructor
  · intro hlt
    omega
  · intro hlt
    omega

/-- Two runs that both keep the row give it one id exactly when they agree on the domain
of its address, where it has a phone too, or the keys with and without it collide. -/
theorem sameId_iff
    (hid : ¬ (normalizePhone U P row.phone = none ∧ keptEmail U run row = none))
    (hid' : ¬ (normalizePhone U P row.phone = none ∧ keptEmail U run' row = none)) :
    externalId (normalizedKey (normalizePhone U P row.phone) (keptEmail U run row)) =
        externalId (normalizedKey (normalizePhone U P row.phone) (keptEmail U run' row)) ↔
      ∀ n e, normalizePhone U P row.phone = some n → normalizeEmail U row.email = some e →
        run.mxCheck (domainOf e) = run'.mxCheck (domainOf e) ∨
          externalId (normalizedKey (some n) (some e)) = externalId (normalizedKey (some n) none) := by
  constructor
  · intro hsame n e hn he
    rw [hn, keptEmail_some he, keptEmail_some he] at hsame
    cases hm : run.mxCheck (domainOf e) <;> cases hm' : run'.mxCheck (domainOf e) <;>
      rw [hm, hm'] at hsame
    · exact .inl rfl
    · exact .inr hsame.symm
    · exact .inr hsame
    · exact .inl rfl
  · intro hcond
    cases he : normalizeEmail U row.email with
    | none =>
      have hnone : ∀ s : PipelineRun, keptEmail U s row = none := by
        intro s
        rw [keptEmail, he]
        rfl
      rw [hnone run, hnone run']
    | some e =>
      rw [keptEmail_some he] at hid hid' ⊢
      rw [keptEmail_some he]
      cases hn : normalizePhone U P row.phone with
      | none =>
        -- without a phone the address has carried the row through both runs
        have hmx : ∀ b : Bool, ¬ (normalizePhone U P row.phone = none ∧
            (if b then some e else none) = none) → b = true := by
          intro b hb
          by_contra hfalse
          exact hb ⟨hn, if_neg hfalse⟩
        rw [hmx _ hid, hmx _ hid']
      | some n =>
        rcases hcond n e hn he with hmx | hcollision
        · rw [hmx]
        · cases run.mxCheck (domainOf e) <;> cases run'.mxCheck (domainOf e)
          · rfl
          · exact hcollision.symm
          · exact hcollision
          · rfl

/-- The id is stable for a row exactly when the row is never kept, or the runs agree
on the domain of its address wherever it also has a phone, up to a collision of the
two keys. -/
theorem stableId_iff (U : UnicodeData) (P : PhoneNumbers ν) (run run' : PipelineRun)
    (row : Row α) :
    StableId U P run run' row ↔ normalizeCompany U (some row.companyName) = none ∨
      ∀ n e, normalizePhone U P row.phone = some n → normalizeEmail U row.email = some e →
        run.mxCheck (domainOf e) = run'.mxCheck (domainOf e) ∨
          externalId (normalizedKey (some n) (some e)) = externalId (normalizedKey (some n) none) := by
  constructor
  · intro hstable
    by_cases hcompany : normalizeCompany U (some row.companyName) = none
    · exact .inl hcompany
    · right
      intro n e hn he
      obtain ⟨company, hc⟩ := Option.ne_none_iff_exists'.mp hcompany
      -- the phone alone carries the row through both runs
      have hkept : ∀ s : PipelineRun,
          ¬ (normalizePhone U P row.phone = none ∧ keptEmail U s row = none) := by
        intro s hid
        rw [hn] at hid
        exact nomatch hid.1
      have hsame := hstable [row] [row] 0 0 _ _ rfl rfl (assigns_alone hc (hkept run))
        (assigns_alone hc (hkept run'))
      exact (sameId_iff (hkept run) (hkept run')).mp hsame n e hn he
  · intro hcond rows rows' i j id id' hrow hrow' h h'
    obtain ⟨_, r, hrow₁, hr, -, rfl⟩ := assigns_iff.mp h
    obtain ⟨_, r', hrow₂, hr', -, rfl⟩ := assigns_iff.mp h'
    obtain rfl : row = _ := Option.some.inj (hrow.symm.trans hrow₁)
    obtain rfl : row = _ := Option.some.inj (hrow'.symm.trans hrow₂)
    obtain ⟨company, hc, hid, -⟩ := (prepared_eq_some U P run).mp hr
    obtain ⟨-, -, hid', -⟩ := (prepared_eq_some U P run').mp hr'
    rw [prepared_key hr, prepared_key hr']
    exact (sameId_iff hid hid').mpr (hcond.resolve_left (hc ▸ Option.some_ne_none company))

end Assign

/-- The first run finds the mail exchanger of every domain, the second one of none. -/
def answeringRun : PipelineRun := { noMxRun with mxCheck := fun _ => true }

theorem janeRow_rekeyed : ¬ StableId .plain .e164 answeringRun noMxRun janeRow := by
  intro h
  have hc : normalizeCompany .plain (some janeRow.companyName) = some "Acme".toList := by
    decide +kernel
  have hphone : normalizePhone .plain .e164 janeRow.phone ≠ none := by decide +kernel
  have hsame := h [janeRow] [janeRow] 0 0 _ _ rfl rfl (assigns_alone hc fun hid => hphone hid.1)
    (assigns_alone hc fun hid => hphone hid.1)
  exact absurd hsame (by decide +kernel)

end Outreach.Cleansing
