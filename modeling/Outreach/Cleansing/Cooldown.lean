import Outreach.Cleansing.Pipeline

/-!
# The cooldown after Dedupe

Dedupe keeps the row of a contact that was enriched last, with its own
`last_contacted_at`. The dates of the other rows are gone when Suppress asks how
long ago the contact was sent to.
-/

namespace Outreach.Cleansing

open Outreach.Library Outreach.Suppression

set_option autoImplicit false

section Cooldown

variable {ν α : Type} (U : UnicodeData) (P : PhoneNumbers ν) (run : PipelineRun)
  (log : List Event)

/-- Dedupe keeps the row: it is newer than the earlier rows of its contact, and as new
as the later ones. -/
def Survives (rows : List (Row α)) (row : Row α) : Prop :=
  ∃ pre post, rows = pre ++ row :: post ∧
    (∀ other ∈ pre, other.key = row.key → other.enrichedInstant < row.enrichedInstant) ∧
      ∀ other ∈ post, other.key = row.key → other.enrichedInstant ≤ row.enrichedInstant

/-- No contact with a row inside the window comes out of Dedupe and Suppress. -/
def CooldownHolds (rows : List (Row α)) : Prop :=
  ∀ row ∈ rows, cooling run row.lastContactedAt = some true →
    ∀ out, suppress U P run log (dedupe rows) = some out → ∀ r ∈ out.kept, r.key ≠ row.key

/-- Suppress can decide the row: it has an identifier, and its `last_contacted_at` can be
read and compared unless the row is listed. -/
def Decided (row : Row α) : Prop :=
  ¬ (row.phone = none ∧ row.email = none) ∧
    ((report U P (currentSet log) row.phone row.email).suppressed = false →
      cooling run row.lastContactedAt ≠ none)

/-- The row does not keep its contact back. -/
def Passes (row : Row α) : Prop :=
  (report U P (currentSet log) row.phone row.email).suppressed = false ∧
    cooling run row.lastContactedAt = some false

variable {U P run log}

theorem mem_dedupe_iff {rows : List (Row α)} {x : Row α} :
    x ∈ dedupe rows ↔ ∃ row, Survives rows row ∧ x = row.keyed := by
  rw [dedupe, Dict.mem_values_bestOf]
  constructor
  · intro h
    obtain ⟨pre, post, hsplit, hpre, hpost⟩ := h
    obtain ⟨pre', tail, rfl, rfl, htail⟩ := List.map_eq_append_iff.mp hsplit
    obtain ⟨row, post', rfl, rfl, rfl⟩ := List.map_eq_cons_iff.mp htail
    refine ⟨row, ⟨pre', post', rfl, fun other ho => ?_, fun other ho => ?_⟩, rfl⟩
    · exact hpre other.keyed (List.mem_map_of_mem ho)
    · exact hpost other.keyed (List.mem_map_of_mem ho)
  · intro h
    obtain ⟨row, ⟨pre, post, rfl, hpre, hpost⟩, rfl⟩ := h
    refine ⟨pre.map Row.keyed, post.map Row.keyed, by rw [List.map_append, List.map_cons],
      fun y hy => ?_, fun y hy => ?_⟩
    · obtain ⟨other, ho, rfl⟩ := List.mem_map.mp hy
      exact hpre other ho
    · obtain ⟨other, ho, rfl⟩ := List.mem_map.mp hy
      exact hpost other ho

theorem verdict_isSome {row : Row α} :
    (verdict U P run log row).isSome = true ↔ Decided U P run log row := by
  unfold verdict Decided
  by_cases hid : row.phone = none ∧ row.email = none
  · simp [hid]
  · rw [if_neg hid]
    cases (report U P (currentSet log) row.phone row.email).suppressed with
    | true => simp [hid]
    | false =>
      rw [if_neg Bool.false_ne_true, Option.isSome_map]
      simp [hid, Option.isSome_iff_ne_none]

theorem verdict_kept {row : Row α} :
    verdict U P run log row = some none ↔
      ¬ (row.phone = none ∧ row.email = none) ∧ Passes U P run log row := by
  unfold verdict Passes
  by_cases hid : row.phone = none ∧ row.email = none
  · simp [hid]
  · rw [if_neg hid]
    cases (report U P (currentSet log) row.phone row.email).suppressed with
    | true => simp
    | false =>
      rw [if_neg Bool.false_ne_true]
      cases cooling run row.lastContactedAt with
      | none => simp
      | some contacted => cases contacted <;> simp [hid]

/-- The step writes its files when it can decide every row that Dedupe keeps. -/
theorem suppress_isSome {rows : List (Row α)} :
    (suppress U P run log (dedupe rows)).isSome = true ↔
      ∀ row, Survives rows row → Decided U P run log row := by
  rw [suppress_eq, decideRows_isSome]
  constructor
  · intro h row hrow
    exact verdict_isSome.mp (h row.keyed (mem_dedupe_iff.mpr ⟨row, hrow, rfl⟩))
  · intro h x hx
    obtain ⟨row, hrow, rfl⟩ := mem_dedupe_iff.mp hx
    exact verdict_isSome.mpr (h row hrow)

/-- The cooldown holds exactly when Suppress raises, or every row inside the window has
its contact kept back by the row that Dedupe keeps. -/
theorem cooldown_holds_iff (rows : List (Row α)) :
    CooldownHolds U P run log rows ↔
      (∀ row, Survives rows row → Decided U P run log row) →
        ∀ row ∈ rows, cooling run row.lastContactedAt = some true →
          ∀ newest, Survives rows newest → newest.key = row.key →
            ¬ Passes U P run log newest := by
  constructor
  · intro h hdec row hrow hcool newest hnewest hkey hpasses
    obtain ⟨out, hout⟩ := Option.isSome_iff_exists.mp (suppress_isSome.mpr hdec)
    have hkept : newest.keyed ∈ out.kept := by
      rw [suppress_eq] at hout
      refine (mem_kept_decideRows hout).mpr ⟨mem_dedupe_iff.mpr ⟨newest, hnewest, rfl⟩, ?_⟩
      exact verdict_kept.mpr ⟨(hdec newest hnewest).1, hpasses⟩
    exact h row hrow hcool out hout _ hkept hkey
  · intro h row hrow hcool out hout r hr hkey
    have hdec := suppress_isSome.mp (Option.isSome_iff_exists.mpr ⟨out, hout⟩)
    rw [suppress_eq] at hout
    obtain ⟨hmem, hv⟩ := (mem_kept_decideRows hout).mp hr
    obtain ⟨newest, hnewest, rfl⟩ := mem_dedupe_iff.mp hmem
    exact h hdec row hrow hcool newest hnewest hkey (verdict_kept.mp hv).2

end Cooldown

/-- A run ten days after the only date that its rows mention. -/
def tenDaysLater : PipelineRun where
  mxCheck _ := true
  lineTypeLookup := none
  fromisoformat t := if t = "2026-07-01T00:00:00+00:00".toList then some ⟨0, some 0⟩ else none
  asOf := ⟨10 * microsecondsPerDay, some 0⟩
  cooldownDays := 90
  monotonic _ := 0

/-- One contact, scraped again two days after the message. -/
def scrapedTwice : List (Row Unit) :=
  [{ companyName := "Acme".toList, phone := some "+16502530000".toList, email := none,
     enrichedAt := ⟨0, 0⟩, lastContactedAt := some "2026-07-01T00:00:00+00:00".toList, rest := () },
   { companyName := "Acme".toList, phone := some "+16502530000".toList, email := none,
     enrichedAt := ⟨2 * microsecondsPerDay, 0⟩, lastContactedAt := none, rest := () }]

/-- The newer row has no date, so the contact is kept. -/
theorem scrapedTwice_kept : ¬ CooldownHolds .plain .e164 tenDaysLater [] scrapedTwice := by
  intro h
  have hout : suppress .plain .e164 tenDaysLater [] (dedupe scrapedTwice) =
      some ⟨(scrapedTwice.drop 1).map Row.keyed, []⟩ := rfl
  exact h _ List.mem_cons_self (by decide +kernel) _ hout _ List.mem_cons_self rfl

end Outreach.Cleansing
