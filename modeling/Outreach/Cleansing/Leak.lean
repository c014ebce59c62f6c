import Outreach.Cleansing.Pipeline

/-!
# When a listed contact leaks through the pipeline

A row is listed when the raw identifiers it brings into Normalize name a logged
identifier. The Suppress step sees other identifiers: Validate may have removed
the address, and Suppress normalizes a second time. `Exposed` says exactly which
listed rows these two differences let through.
-/

namespace Outreach.Cleansing

open Outreach.Library Outreach.Suppression

set_option autoImplicit false

section Numbered

variable {α : Type}

/-- The row with its place in the input kept beside the unread columns. -/
def Row.numbered (row : Row α) (i : Nat) : Row (α × Nat) :=
  ⟨row.companyName, row.phone, row.email, row.enrichedAt, row.lastContactedAt, row.lineType,
    row.normalizedKey, (row.rest, i)⟩

def numbered (rows : List (Row α)) : List (Row (α × Nat)) :=
  rows.zipIdx.map fun p => p.1.numbered p.2

/-- The place of the input row from which a row is derived. -/
def Row.origin (row : Row (α × Nat)) : Nat := row.rest.2

theorem mem_numbered {rows : List (Row α)} {x : Row (α × Nat)} :
    x ∈ numbered rows ↔ ∃ (i : Nat) (row : Row α), rows[i]? = some row ∧ x = row.numbered i := by
  simp only [numbered, List.mem_map, Prod.exists, List.mem_zipIdx_iff_getElem?]
  constructor
  · intro h
    obtain ⟨row, i, hrow, rfl⟩ := h
    exact ⟨i, row, hrow, rfl⟩
  · intro h
    obtain ⟨i, row, hrow, rfl⟩ := h
    exact ⟨row, i, hrow, rfl⟩

theorem numbered_pairwise (rows : List (Row α)) :
    (numbered rows).Pairwise fun x y => x.origin < y.origin := by
  have hfun : (fun p : Row α × Nat => (p.1.numbered p.2).origin) = Prod.snd := rfl
  have hmap : (numbered rows).map Row.origin = List.range' 0 rows.length := by
    rw [numbered, List.map_map]
    exact (congrArg (fun f => rows.zipIdx.map f) hfun).trans (List.zipIdx_map_snd 0 rows)
  have hlt : ((numbered rows).map Row.origin).Pairwise (· < ·) := by
    rw [hmap]
    exact List.pairwise_lt_range'
  exact List.pairwise_map.mp hlt

end Numbered

section Leak

variable {ν α : Type} (U : UnicodeData) (P : PhoneNumbers ν) (run : PipelineRun)
  (log : List Event)

def Logged (n : Text) : Prop := ∃ e ∈ log, e.identifier = n

/-- The raw identifiers of the row name a logged identifier. -/
def Listed (row : Row α) : Prop :=
  ∃ n, (normalizePhone U P row.phone = some n ∨ normalizeEmail U row.email = some n) ∧ Logged log n

/-- A row derived from input row `i` is in `05_suppressed.ndjson`. -/
def Leaks (rows : List (Row α)) (i : Nat) : Prop :=
  ∃ kept, suppressedRows U P run log (numbered rows) = some kept ∧ ∃ r ∈ kept, r.origin = i

/-- No listed contact leaks. -/
def NoLeak (rows : List (Row α)) : Prop :=
  ∀ (i : Nat) (row : Row α), rows[i]? = some row → Listed U P log row → ¬ Leaks U P run log rows i

/-- The dedupe key of a row, if it survives Normalize and Validate. -/
def contactKey (row : Row α) : Option Text := (prepared U P run row).map Row.key

/-- No surviving row of the same contact is newer, and no earlier one is as new. -/
def Newest (rows : List (Row α)) (i : Nat) (row : Row α) : Prop :=
  ∀ (j : Nat) (other : Row α), rows[j]? = some other →
    contactKey U P run other = contactKey U P run row →
      (j < i → other.enrichedInstant < row.enrichedInstant) ∧
        (i < j → other.enrichedInstant ≤ row.enrichedInstant)

/-- The listed address of the row is gone or reads differently after Validate. -/
def AddressLost (row : Row α) : Prop :=
  ∃ m, normalizeEmail U row.email = some m ∧ Logged log m ∧
    ((run.mxCheck (domainOf m) = false ∧ normalizePhone U P row.phone ≠ none) ∨
      (run.mxCheck (domainOf m) = true ∧
        ∃ m', normalizeEmail U (some m) = some m' ∧ ¬ Logged log m'))

/-- A listed row that the Suppress step cannot recognize: only its address is
listed, and the address is lost. -/
structure Exposed (rows : List (Row α)) (i : Nat) (row : Row α) : Prop where
  company : normalizeCompany U (some row.companyName) ≠ none
  phone : ∀ n, normalizePhone U P row.phone = some n → ¬ Logged log n
  address : AddressLost U P run log row
  newest : Newest U P run rows i row
  contacted : cooling run row.lastContactedAt = some false

/-- The Suppress step raises at no row: where it reads `last_contacted_at` at all,
the value can be read and compared. -/
def Readable (rows : List (Row α)) : Prop :=
  ∀ (i : Nat) (row : Row α), rows[i]? = some row → Newest U P run rows i row →
    ∀ r, prepared U P run row = some r →
      (report U P (currentSet log) r.phone r.email).suppressed = false →
        cooling run row.lastContactedAt ≠ none

variable {U P run log}

theorem prepared_numbered (row : Row α) (i : Nat) :
    prepared U P run (row.numbered i) = (prepared U P run row).map fun r => r.numbered i := by
  apply Option.ext
  intro r
  rw [Option.map_eq_some_iff]
  simp only [prepared_eq_some]
  constructor
  · intro h
    obtain ⟨company, hc, hid, rfl⟩ := h
    exact ⟨_, ⟨company, hc, hid, rfl⟩, rfl⟩
  · intro h
    obtain ⟨s, ⟨company, hc, hid, rfl⟩, rfl⟩ := h
    exact ⟨company, hc, hid, rfl⟩

theorem mem_survivors {rows : List (Row α)} {x : Row (α × Nat)} :
    x ∈ (numbered rows).filterMap (prepared U P run) ↔
      ∃ (i : Nat) (row r : Row α), rows[i]? = some row ∧ prepared U P run row = some r ∧
        x = r.numbered i := by
  rw [List.mem_filterMap]
  constructor
  · intro h
    obtain ⟨y, hy, hx⟩ := h
    obtain ⟨i, row, hrow, rfl⟩ := mem_numbered.mp hy
    rw [prepared_numbered] at hx
    obtain ⟨r, hr, rfl⟩ := Option.map_eq_some_iff.mp hx
    exact ⟨i, row, r, hrow, hr, rfl⟩
  · intro h
    obtain ⟨i, row, r, hrow, hr, rfl⟩ := h
    exact ⟨row.numbered i, mem_numbered.mpr ⟨i, row, hrow, rfl⟩, by rw [prepared_numbered, hr]; rfl⟩

theorem prepared_enriched {row r : Row α} (h : prepared U P run row = some r) :
    r.enrichedInstant = row.enrichedInstant ∧ r.lastContactedAt = row.lastContactedAt := by
  obtain ⟨company, -, -, rfl⟩ := (prepared_eq_some U P run).mp h
  exact ⟨rfl, rfl⟩

theorem survivors_pairwise (rows : List (Row α)) :
    ((numbered rows).filterMap (prepared U P run)).Pairwise fun x y => x.origin < y.origin := by
  have horigin : ∀ x r : Row (α × Nat), prepared U P run x = some r → r.origin = x.origin := by
    intro x r h
    obtain ⟨company, -, -, rfl⟩ := (prepared_eq_some U P run).mp h
    rfl
  refine (numbered_pairwise rows).filterMap _ fun x y hlt r hr s hs => ?_
  rw [horigin x r hr, horigin y s hs]
  exact hlt

/-- Dedupe keeps the newest survivor of each contact, extended with its key. -/
theorem mem_dedupe {rows : List (Row α)} {x : Row (α × Nat)} :
    x ∈ dedupe ((numbered rows).filterMap (prepared U P run)) ↔
      ∃ (i : Nat) (row r : Row α), rows[i]? = some row ∧ prepared U P run row = some r ∧
        Newest U P run rows i row ∧ x = (r.numbered i).keyed := by
  have htags : (((numbered rows).filterMap (prepared U P run)).map Row.keyed).Pairwise
      fun x y => x.origin < y.origin := List.pairwise_map.mpr (survivors_pairwise rows)
  rw [dedupe, Dict.mem_values_bestOf_of_tags Row.key Row.enrichedInstant htags, List.mem_map]
  constructor
  · intro h
    obtain ⟨⟨y, hy, rfl⟩, hbest⟩ := h
    obtain ⟨i, row, r, hrow, hr, rfl⟩ := mem_survivors.mp hy
    refine ⟨i, row, r, hrow, hr, fun j other hother hkey => ?_, rfl⟩
    obtain ⟨s, hs, hsk⟩ : ∃ s, prepared U P run other = some s ∧ s.key = r.key := by
      rw [contactKey, contactKey, hr] at hkey
      exact Option.map_eq_some_iff.mp hkey
    have hin : (s.numbered j).keyed ∈
        ((numbered rows).filterMap (prepared U P run)).map Row.keyed :=
      List.mem_map_of_mem (mem_survivors.mpr ⟨j, other, s, hother, hs, rfl⟩)
    have hb := hbest _ hin hsk
    rw [← (prepared_enriched hs).1, ← (prepared_enriched hr).1]
    exact hb
  · intro h
    obtain ⟨i, row, r, hrow, hr, hnewest, rfl⟩ := h
    refine ⟨⟨r.numbered i, mem_survivors.mpr ⟨i, row, r, hrow, hr, rfl⟩, rfl⟩, fun y hy hkey => ?_⟩
    obtain ⟨z, hz, rfl⟩ := List.mem_map.mp hy
    obtain ⟨j, other, s, hother, hs, rfl⟩ := mem_survivors.mp hz
    have hck : contactKey U P run other = contactKey U P run row := by
      rw [contactKey, contactKey, hs, hr]
      exact congrArg some hkey
    have hb := hnewest j other hother hck
    rw [← (prepared_enriched hs).1, ← (prepared_enriched hr).1] at hb
    exact hb

theorem not_suppressed_iff {phone email : Option Text} :
    (report U P (currentSet log) phone email).suppressed = false ↔
      (phone ≠ none → ∃ n, normalizePhone U P phone = some n ∧ ¬ Logged log n) ∧
        (email ≠ none → ∃ n, normalizeEmail U email = some n ∧ ¬ Logged log n) := by
  have hlogged : ∀ k, k ∈ (currentSet log).keys ↔ Logged log k := fun k => mem_keys_currentSet
  rw [← Bool.not_eq_true, report_suppressed]
  push Not
  constructor
  · intro h
    constructor
    · intro hne
      obtain ⟨raw, rfl⟩ := Option.ne_none_iff_exists'.mp hne
      obtain ⟨hn, hk⟩ := h _ (mem_provided.mpr (Or.inl ⟨rfl, rfl⟩))
      obtain ⟨n, hn⟩ := Option.ne_none_iff_exists'.mp hn
      exact ⟨n, hn, fun hlog => hk n ((hlogged n).mpr hlog) hn⟩
    · intro hne
      obtain ⟨raw, rfl⟩ := Option.ne_none_iff_exists'.mp hne
      obtain ⟨hn, hk⟩ := h _ (mem_provided.mpr (Or.inr ⟨rfl, rfl⟩))
      obtain ⟨n, hn⟩ := Option.ne_none_iff_exists'.mp hn
      exact ⟨n, hn, fun hlog => hk n ((hlogged n).mpr hlog) hn⟩
  · rintro ⟨hphone, hemail⟩ ⟨raw, m⟩ hq
    have hunlisted : ∃ n, m = some n ∧ ¬ Logged log n := by
      rcases mem_provided.mp hq with ⟨hraw, rfl⟩ | ⟨hraw, rfl⟩
      · exact hphone (hraw ▸ Option.some_ne_none raw)
      · exact hemail (hraw ▸ Option.some_ne_none raw)
    obtain ⟨n, rfl, hn⟩ := hunlisted
    refine ⟨Option.some_ne_none n, fun k hk he => hn ?_⟩
    rw [Option.some.inj he]
    exact (hlogged k).mp hk

/-- A surviving row has an identifier, so only its `last_contacted_at` can raise. -/
theorem verdict_prepared {row r : Row α} (h : prepared U P run row = some r) :
    verdict U P run log r =
      if (report U P (currentSet log) r.phone r.email).suppressed then some (some .suppressed)
      else (cooling run row.lastContactedAt).map fun contacted =>
        if contacted then some .cooldown else none := by
  obtain ⟨company, -, hid, rfl⟩ := (prepared_eq_some U P run).mp h
  exact if_neg hid

/-- The step writes its files exactly when it can read every date it needs. -/
theorem readable_iff {rows : List (Row α)} :
    (suppressedRows U P run log (numbered rows)).isSome = true ↔ Readable U P run log rows := by
  rw [suppressedRows, Option.isSome_map, suppress_eq, decideRows_isSome, survivors_eq]
  constructor
  · intro h i row hrow hnewest r hr hsup hcool
    have hv := h _ (mem_dedupe.mpr ⟨i, row, r, hrow, hr, hnewest, rfl⟩)
    have hverdict : verdict U P run log (r.numbered i).keyed = verdict U P run log r := rfl
    rw [hverdict, verdict_prepared hr, hsup, if_neg Bool.false_ne_true, hcool] at hv
    exact nomatch hv
  · intro h x hx
    obtain ⟨i, row, r, hrow, hr, hnewest, rfl⟩ := mem_dedupe.mp hx
    have hverdict : verdict U P run log (r.numbered i).keyed = verdict U P run log r := rfl
    rw [hverdict, verdict_prepared hr]
    cases hsup : (report U P (currentSet log) r.phone r.email).suppressed with
    | true => rfl
    | false =>
      have hcool := h i row hrow hnewest r hr hsup
      rw [if_neg Bool.false_ne_true, Option.isSome_map]
      exact Option.isSome_iff_ne_none.mpr hcool

theorem leaks_iff {rows : List (Row α)} {i : Nat} {row : Row α} (hrow : rows[i]? = some row) :
    Leaks U P run log rows i ↔ Readable U P run log rows ∧ Newest U P run rows i row ∧
      ∃ r, prepared U P run row = some r ∧ verdict U P run log r = some none := by
  have hmem : ∀ kept, suppressedRows U P run log (numbered rows) = some kept → ∀ x, x ∈ kept ↔
      x ∈ dedupe ((numbered rows).filterMap (prepared U P run)) ∧
        verdict U P run log x = some none := by
    intro kept hkept x
    rw [suppressedRows, survivors_eq] at hkept
    obtain ⟨out, hout, rfl⟩ := Option.map_eq_some_iff.mp hkept
    rw [suppress_eq] at hout
    exact mem_kept_decideRows hout
  constructor
  · intro h
    obtain ⟨kept, hkept, x, hx, horigin⟩ := h
    obtain ⟨hx, hv⟩ := (hmem kept hkept x).mp hx
    obtain ⟨j, row', r, hrow', hr, hnewest, rfl⟩ := mem_dedupe.mp hx
    have hij : j = i := horigin
    subst hij
    have hrr : row' = row := Option.some.inj (hrow'.symm.trans hrow)
    subst hrr
    exact ⟨readable_iff.mp (hkept ▸ rfl), hnewest, r, hr, hv⟩
  · intro h
    obtain ⟨hread, hnewest, r, hr, hv⟩ := h
    obtain ⟨kept, hkept⟩ := Option.isSome_iff_exists.mp (readable_iff.mpr hread)
    refine ⟨kept, hkept, (r.numbered i).keyed, (hmem kept hkept _).mpr ⟨?_, hv⟩, rfl⟩
    exact mem_dedupe.mpr ⟨i, row, r, hrow, hr, hnewest, rfl⟩

theorem keptEmail_eq {row : Row α} {m : Text} (h : normalizeEmail U row.email = some m) :
    keptEmail U run row = if run.mxCheck (domainOf m) then some m else none := by
  rw [keptEmail, h, Option.filter]

theorem verdict_eq_none {row r : Row α} (h : prepared U P run row = some r) :
    verdict U P run log r = some none ↔
      (report U P (currentSet log) r.phone r.email).suppressed = false ∧
        cooling run row.lastContactedAt = some false := by
  rw [verdict_prepared h]
  cases (report U P (currentSet log) r.phone r.email).suppressed with
  | true => simp
  | false =>
    rw [if_neg Bool.false_ne_true, Option.map_eq_some_iff]
    constructor
    · intro h
      obtain ⟨b, hb, hn⟩ := h
      cases b with
      | true => exact nomatch hn
      | false => exact ⟨rfl, hb⟩
    · intro h
      obtain ⟨-, hb⟩ := h
      exact ⟨false, hb, rfl⟩

/-- A listed row that survives and passes the check lost its listed address on the way. -/
theorem passes_lost (hP : P.Lawful) {row r : Row α} (hl : Listed U P log row)
    (hr : prepared U P run row = some r)
    (hsup : (report U P (currentSet log) r.phone r.email).suppressed = false) :
    (∀ n, normalizePhone U P row.phone = some n → ¬ Logged log n) ∧
      AddressLost U P run log row := by
  obtain ⟨company, -, hid, rfl⟩ := (prepared_eq_some U P run).mp hr
  obtain ⟨hphone, hemail⟩ := not_suppressed_iff.mp hsup
  have hunlisted : ∀ n, normalizePhone U P row.phone = some n → ¬ Logged log n := by
    intro n hn
    obtain ⟨n', hn', hnl⟩ := hphone (hn ▸ Option.some_ne_none n)
    rw [hn, normalizePhone_idem U P hP hn] at hn'
    exact Option.some.inj hn' ▸ hnl
  obtain ⟨m, hm, hlog⟩ := hl
  have haddr := hm.resolve_left fun hn => hunlisted m hn hlog
  refine ⟨hunlisted, m, haddr, hlog, ?_⟩
  have hkept : keptEmail U run row = _ := keptEmail_eq haddr
  cases hmx : run.mxCheck (domainOf m) with
  | false =>
    rw [hmx, if_neg Bool.false_ne_true] at hkept
    exact Or.inl ⟨rfl, fun hnone => hid ⟨hnone, hkept⟩⟩
  | true =>
    rw [hmx, if_pos rfl] at hkept
    have hsecond := hemail (hkept ▸ Option.some_ne_none m)
    rw [hkept] at hsecond
    exact Or.inr ⟨rfl, hsecond⟩

theorem lost_passes (hP : P.Lawful) {row : Row α}
    (hc : normalizeCompany U (some row.companyName) ≠ none)
    (hphone : ∀ n, normalizePhone U P row.phone = some n → ¬ Logged log n)
    (hlost : AddressLost U P run log row) :
    Listed U P log row ∧ ∃ r, prepared U P run row = some r ∧
      (report U P (currentSet log) r.phone r.email).suppressed = false := by
  obtain ⟨company, hc⟩ := Option.ne_none_iff_exists'.mp hc
  obtain ⟨m, hm, hlog, hlost⟩ := hlost
  have hkept : keptEmail U run row = _ := keptEmail_eq hm
  have hagain : normalizePhone U P row.phone ≠ none → ∃ n,
      normalizePhone U P (normalizePhone U P row.phone) = some n ∧ ¬ Logged log n := by
    intro hne
    obtain ⟨n, hn⟩ := Option.ne_none_iff_exists'.mp hne
    rw [hn]
    exact ⟨n, normalizePhone_idem U P hP hn, hphone n hn⟩
  refine ⟨⟨m, Or.inr hm, hlog⟩, ?_⟩
  rcases hlost with ⟨hmx, hne⟩ | ⟨hmx, hsecond⟩
  · -- the address is nulled, the phone carries the row on
    rw [hmx, if_neg Bool.false_ne_true] at hkept
    refine ⟨_, (prepared_eq_some U P run).mpr ⟨company, hc, fun h => hne h.1, rfl⟩, ?_⟩
    exact not_suppressed_iff.mpr ⟨hagain, fun h => absurd hkept h⟩
  · -- the address is kept and normalized once more
    rw [hmx, if_pos rfl] at hkept
    have hid : keptEmail U run row ≠ none := hkept ▸ Option.some_ne_none m
    refine ⟨_, (prepared_eq_some U P run).mpr ⟨company, hc, fun h => hid h.2, rfl⟩, ?_⟩
    refine not_suppressed_iff.mpr ⟨hagain, fun _ => ?_⟩
    show ∃ n, normalizeEmail U (keptEmail U run row) = some n ∧ ¬ Logged log n
    rw [hkept]
    exact hsecond

/-- No listed contact leaks exactly when the Suppress step raises or no listed row
is exposed. -/
theorem noLeak_iff (hP : P.Lawful) (rows : List (Row α)) :
    NoLeak U P run log rows ↔ ¬ (Readable U P run log rows ∧
      ∃ (i : Nat) (row : Row α), rows[i]? = some row ∧ Exposed U P run log rows i row) := by
  have hexposed : ∀ (i : Nat) (row : Row α), rows[i]? = some row →
      ((Listed U P log row ∧ Leaks U P run log rows i) ↔
        Readable U P run log rows ∧ Exposed U P run log rows i row) := by
    intro i row hrow
    rw [leaks_iff hrow]
    constructor
    · intro h
      obtain ⟨hl, hread, hnewest, r, hr, hv⟩ := h
      obtain ⟨hsup, hcool⟩ := (verdict_eq_none hr).mp hv
      obtain ⟨hphone, hlost⟩ := passes_lost hP hl hr hsup
      obtain ⟨company, hc, -, -⟩ := (prepared_eq_some U P run).mp hr
      exact ⟨hread, hc ▸ Option.some_ne_none company, hphone, hlost, hnewest, hcool⟩
    · intro h
      obtain ⟨hread, hx⟩ := h
      obtain ⟨hl, r, hr, hsup⟩ := lost_passes hP hx.company hx.phone hx.address
      exact ⟨hl, hread, hx.newest, r, hr, (verdict_eq_none hr).mpr ⟨hsup, hx.contacted⟩⟩
  constructor
  · rintro h ⟨hread, i, row, hrow, hx⟩
    obtain ⟨hl, hleak⟩ := (hexposed i row hrow).mpr ⟨hread, hx⟩
    exact h i row hrow hl hleak
  · intro h i row hrow hl hleak
    obtain ⟨hread, hx⟩ := (hexposed i row hrow).mp ⟨hl, hleak⟩
    exact h ⟨hread, i, row, hrow, hx⟩

end Leak

/-- A run in which no domain has an MX record. -/
def noMxRun : PipelineRun where
  mxCheck _ := false
  lineTypeLookup := none
  fromisoformat _ := none
  asOf := ⟨0, some 0⟩
  cooldownDays := 90
  monotonic _ := 0

def unsubscribed : Event :=
  ⟨"1f".toList, "jane@acme.com".toList, "jane@acme.com".toList, .email, "unsubscribe".toList,
    "email".toList, ⟨0, 0⟩⟩

/-- A contact who unsubscribed by mail and also has a phone. -/
def janeRow : Row Unit where
  companyName := "Acme".toList
  phone := some "+16502530000".toList
  email := some "jane@acme.com".toList
  enrichedAt := ⟨0, 0⟩
  lastContactedAt := none
  rest := ()

theorem noLeak_iff_jane :
    NoLeak .plain .e164 noMxRun [unsubscribed] [janeRow] ↔
      ¬ (Readable .plain .e164 noMxRun [unsubscribed] [janeRow] ∧
        ∃ (i : Nat) (row : Row Unit), [janeRow][i]? = some row ∧
          Exposed .plain .e164 noMxRun [unsubscribed] [janeRow] i row) :=
  noLeak_iff PhoneNumbers.e164_lawful [janeRow]

/-- Her row comes out with the phone alone, which the list does not know. -/
theorem jane_leaks : ¬ NoLeak .plain .e164 noMxRun [unsubscribed] [janeRow] := by
  intro h
  have hlisted : Listed .plain .e164 [unsubscribed] janeRow :=
    ⟨"jane@acme.com".toList, Or.inr (by decide +kernel), unsubscribed, List.mem_singleton_self _, rfl⟩
  refine h 0 janeRow rfl hlisted ⟨[(({ janeRow with email := none }).numbered 0).keyed], ?_,
    _, List.mem_singleton_self _, rfl⟩
  decide +kernel

end Outreach.Cleansing
