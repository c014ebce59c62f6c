import Outreach.Cleansing.Cooldown

/-!
# One row for each contact

The dedupe key puts a bar between the two identifiers. A phone in E.164 has no
bar, so the key can be taken apart again even where the address has one, and two
rows have one key exactly when they are of one contact. Which instant wins does
not depend on the order of the rows.
-/

namespace Outreach.Cleansing

open Outreach.Library

set_option autoImplicit false

section Newest

variable {ν α : Type} {U : UnicodeData} {P : PhoneNumbers ν}

variable (U P) in
/-- The row has identifiers as Validate leaves them. -/
structure Canonical (row : Row α) : Prop where
  phone : ∃ raw, normalizePhone U P raw = row.phone
  email : ∃ raw, normalizeEmail U raw = row.email

theorem normalizePhone_ne_nil (hP : P.Lawful) {raw : Option Text} :
    normalizePhone U P raw ≠ some [] := by
  intro h
  obtain ⟨r, v, -, -, -, hv, hnil⟩ := (normalizePhone_eq_some U P).mp h
  obtain ⟨ds, hds, -⟩ := hP.shape v hv
  exact nomatch hds.symm.trans hnil

theorem normalizeEmail_ne_nil {raw : Option Text} : normalizeEmail U raw ≠ some [] := by
  intro h
  obtain ⟨user, domain, hnil⟩ := normalizeEmail_shape U h
  exact List.append_ne_nil_of_right_ne_nil _ (List.cons_ne_nil _ _) hnil.symm

theorem bar_not_mem (hP : P.Lawful) {raw : Option Text} {n : Text}
    (h : normalizePhone U P raw = some n) : '|' ∉ n := by
  obtain ⟨r, v, -, -, -, hv, rfl⟩ := (normalizePhone_eq_some U P).mp h
  obtain ⟨ds, hds, hdigits⟩ := hP.shape v hv
  rw [hds, List.mem_cons, not_or]
  exact ⟨by decide, fun hbar => absurd (hdigits _ hbar) (by decide)⟩

theorem getD_nil_inj {a b : Option Text} (ha : a ≠ some []) (hb : b ≠ some [])
    (h : a.getD [] = b.getD []) : a = b := by
  cases a with
  | none =>
    cases b with
    | none => rfl
    | some t => exact absurd (congrArg some h.symm) hb
  | some s =>
    cases b with
    | none => exact absurd (congrArg some h) ha
    | some t => exact congrArg some h

/-- The key tells the two identifiers apart. -/
theorem key_inj (hP : P.Lawful) {r s : Row α} (hr : Canonical U P r) (hs : Canonical U P s) :
    r.key = s.key ↔ r.phone = s.phone ∧ r.email = s.email := by
  have hbar : ∀ row : Row α, Canonical U P row → '|' ∉ row.phone.getD [] := by
    intro row hrow
    obtain ⟨raw, hraw⟩ := hrow.phone
    cases hphone : row.phone with
    | none => exact List.not_mem_nil
    | some n => exact bar_not_mem hP (hraw.trans hphone)
  have hphone : ∀ row : Row α, Canonical U P row → row.phone ≠ some [] := by
    intro row hrow
    obtain ⟨raw, hraw⟩ := hrow.phone
    exact hraw ▸ normalizePhone_ne_nil hP
  have hemail : ∀ row : Row α, Canonical U P row → row.email ≠ some [] := by
    intro row hrow
    obtain ⟨raw, hraw⟩ := hrow.email
    exact hraw ▸ normalizeEmail_ne_nil
  constructor
  · intro h
    obtain ⟨hp, he⟩ := append_sep_inj (hbar r hr) (hbar s hs) h
    exact ⟨getD_nil_inj (hphone r hr) (hphone s hs) hp, getD_nil_inj (hemail r hr) (hemail s hs) he⟩
  · intro h
    rw [Row.key, Row.key, h.1, h.2]

/-- What Normalize and Validate leave is canonical. -/
theorem prepared_canonical {run : PipelineRun} {row r : Row α} (h : prepared U P run row = some r) :
    Canonical U P r := by
  obtain ⟨company, -, -, rfl⟩ := (prepared_eq_some U P run).mp h
  refine ⟨⟨row.phone, rfl⟩, ?_⟩
  cases hk : keptEmail U run row with
  | none => exact ⟨none, rfl⟩
  | some e => exact ⟨row.email, (Option.filter_eq_some_iff.mp hk).1⟩

/-! ## What is kept -/

theorem dedupe_keys (rows : List (Row α)) :
    (dedupe rows).map Row.key = (rows.map Row.key).eraseDups := by
  have hkeyed : (rows.map Row.keyed).map Row.key = rows.map Row.key := by
    rw [List.map_map]
    rfl
  rw [dedupe, Dict.map_key_values, Dict.keys_bestOf, hkeyed]
  exact congrArg (fun i => @List.eraseDups Text i _) (lawful_beq_subsingleton _ _)

theorem dedupe_keys_nodup (rows : List (Row α)) : ((dedupe rows).map Row.key).Nodup := by
  rw [dedupe, Dict.map_key_values]
  exact Dict.nodup _

theorem mem_dedupe_keys {rows : List (Row α)} {k : Text} :
    (∃ x ∈ dedupe rows, x.key = k) ↔ ∃ row ∈ rows, row.key = k := by
  rw [← List.mem_map, dedupe_keys, List.mem_eraseDups, List.mem_map]

theorem Survives.mem {rows : List (Row α)} {row : Row α} (h : Survives rows row) : row ∈ rows := by
  obtain ⟨pre, post, rfl, -, -⟩ := h
  exact List.mem_append_right pre List.mem_cons_self

theorem Survives.newest {rows : List (Row α)} {row other : Row α} (h : Survives rows row)
    (ho : other ∈ rows) (hk : other.key = row.key) :
    other.enrichedInstant ≤ row.enrichedInstant := by
  obtain ⟨pre, post, rfl, hpre, hpost⟩ := h
  rcases List.mem_append.mp ho with ho | ho
  · exact (hpre other ho hk).le
  · rcases List.mem_cons.mp ho with rfl | ho
    · exact le_rfl
    · exact hpost other ho hk

/-- The winning instant of a contact is the same for every order of the rows. -/
theorem winning_instant {rows rows' : List (Row α)} (hperm : rows'.Perm rows) {x x' : Row α}
    (hx : x ∈ dedupe rows) (hx' : x' ∈ dedupe rows') (hk : x'.key = x.key) :
    x'.enrichedInstant = x.enrichedInstant := by
  obtain ⟨row, hrow, rfl⟩ := mem_dedupe_iff.mp hx
  obtain ⟨row', hrow', rfl⟩ := mem_dedupe_iff.mp hx'
  apply le_antisymm
  · have hle : row'.enrichedInstant ≤ row.enrichedInstant :=
      hrow.newest (hperm.mem_iff.mp hrow'.mem) hk
    exact hle
  · have hle : row.enrichedInstant ≤ row'.enrichedInstant :=
      hrow'.newest (hperm.mem_iff.mpr hrow.mem) hk.symm
    exact hle

/-- Dedupe keeps the newest row of each contact, the contacts in the order of their
first rows, whatever the order of the rest. -/
theorem dedupe_exact (U : UnicodeData) (P : PhoneNumbers ν) (hP : P.Lawful)
    (rows : List (Row α)) (hrows : ∀ row ∈ rows, Canonical U P row) :
    (∀ r ∈ rows, ∀ s ∈ rows, r.key = s.key ↔ r.phone = s.phone ∧ r.email = s.email) ∧
    (dedupe rows).map Row.key = (rows.map Row.key).eraseDups ∧
    ((dedupe rows).map Row.key).Nodup ∧
    (∀ x ∈ dedupe rows, ∃ row, Survives rows row ∧ x = row.keyed) ∧
    ∀ rows' : List (Row α), rows'.Perm rows →
      (∀ k, (∃ x ∈ dedupe rows', x.key = k) ↔ ∃ x ∈ dedupe rows, x.key = k) ∧
        ∀ x ∈ dedupe rows, ∀ x' ∈ dedupe rows', x'.key = x.key →
          x'.enrichedInstant = x.enrichedInstant := by
  refine ⟨fun r hr s hs => key_inj hP (hrows r hr) (hrows s hs), dedupe_keys rows,
    dedupe_keys_nodup rows, fun x hx => mem_dedupe_iff.mp hx, fun rows' hperm => ⟨fun k => ?_, ?_⟩⟩
  · rw [mem_dedupe_keys, mem_dedupe_keys]
    simp only [hperm.mem_iff]
  · intro x hx x' hx' hk
    exact winning_instant hperm hx hx' hk

end Newest

/-- Two contacts with a bar in the address, one of them without a phone. -/
def piped : List (Row Unit) :=
  [{ companyName := "Acme".toList, phone := some "+16502530000".toList,
     email := some "a|b@acme.com".toList, enrichedAt := ⟨0, 0⟩, lastContactedAt := none, rest := () },
   { companyName := "Acme".toList, phone := none, email := some "a|b@acme.com".toList,
     enrichedAt := ⟨0, 0⟩, lastContactedAt := none, rest := () }]

theorem dedupe_exact_piped :
    (dedupe piped).map Row.key = (piped.map Row.key).eraseDups ∧
      ∀ x ∈ dedupe piped, ∃ row, Survives piped row ∧ x = row.keyed := by
  have hcanonical : ∀ row ∈ piped, Canonical .plain .e164 row := by
    have hsame : ∀ row ∈ piped, normalizePhone .plain .e164 row.phone = row.phone ∧
        normalizeEmail .plain row.email = row.email := by decide +kernel
    intro row hrow
    exact ⟨⟨_, (hsame row hrow).1⟩, ⟨_, (hsame row hrow).2⟩⟩
  obtain ⟨-, hkeys, -, hkept, -⟩ :=
    dedupe_exact .plain .e164 PhoneNumbers.e164_lawful piped hcanonical
  exact ⟨hkeys, hkept⟩

end Outreach.Cleansing
