import Outreach.Suppression.Store

/-!
# Adding what can be checked

A check normalizes an address before anything else. `add_suppression` first looks
for the sign in the text as it stands, and takes a text without one for a phone
number. The two agree on a spelling of an address exactly if its sign is ASCII.
-/

namespace Outreach.Suppression

open Outreach.Library Outreach.Cleansing

set_option autoImplicit false

section Spelling

variable {ν : Type} (U : UnicodeData) (P : PhoneNumbers ν)

/-- Under its event the address is suppressed in each of its spellings, with any phone: by the
writer, and by every store that is due to load the log. -/
def SuppressedFrom (log : List Event) (n : Text) (writer : SuppressionStore) : Prop :=
  ∀ reader later now phone spelling,
    reader = writer ∨ isStale reader.cacheLoadedAt now = true →
    normalizeEmail U (some spelling) = some n →
    ∃ result reader', reader.isSuppressed U P (log ++ later) now phone (some spelling) =
      some (result, reader') ∧ result.Reports n

/-- Whoever adds the spelling appends one e-mail event for the address, and is heard. -/
def Suppressible (raw n : Text) : Prop :=
  ∀ (store : SuppressionStore) (log : List Event) (reason source : Text) (occurredAt : DateTime)
    (eventId : Text), occurredAt.offset ≠ none →
    ∃ e store', store.addSuppression U P log .stored raw reason source occurredAt eventId =
        (log ++ [e], some store') ∧ e.kind = .email ∧ e.identifier = n ∧
      SuppressedFrom U P (log ++ [e]) n store'

variable {U P} {raw n : Text}

theorem reports_of_cached {cache : Cache} {phone : Option Text} {spelling : Text}
    (hcached : n ∈ cache.keys) (hspelling : normalizeEmail U (some spelling) = some n) :
    (report U P cache phone (some spelling)).Reports n := by
  apply report_reports.mpr ⟨hcached, (spelling, some n), _, rfl⟩
  exact mem_provided.mpr (Or.inr ⟨rfl, hspelling.symm⟩)

/-- What is in the cache of the writer, and in the log, is found. -/
theorem suppressedFrom_of_logged {log : List Event} {e : Event} {writer : SuppressionStore}
    (he : e ∈ log) (hid : e.identifier = n) (hcached : n ∈ writer.cache.keys) :
    SuppressedFrom U P log n writer := by
  intro reader later now phone spelling hreader hspelling
  have hid' : ¬ (phone = none ∧ some spelling = none) := fun h => nomatch h.2
  have hlogged : n ∈ (currentSet (log ++ later)).keys :=
    mem_keys_currentSet.mpr ⟨e, List.mem_append_left _ he, hid⟩
  have hkey : n ∈ (reader.refreshIfStale (log ++ later) now).cache.keys := by
    rw [SuppressionStore.refreshIfStale]
    by_cases hstale : isStale reader.cacheLoadedAt now = true
    · rw [if_pos hstale]
      exact hlogged
    · rw [if_neg hstale]
      rcases hreader with rfl | h
      · exact hcached
      · exact absurd h hstale
  rw [SuppressionStore.isSuppressed, if_neg hid']
  exact ⟨_, _, rfl, reports_of_cached hkey hspelling⟩

theorem suppressible_of_sign (hn : normalizeEmail U (some raw) = some n) (hsign : '@' ∈ raw) :
    Suppressible U P raw n := by
  intro store log reason source occurredAt eventId haware
  obtain ⟨o, ho⟩ := Option.ne_none_iff_exists'.mp haware
  have hkind : kindOf raw = .email := if_pos hsign
  let e : Event := ⟨eventId, n, raw, .email, reason, source, ⟨occurredAt.clock, o⟩⟩
  have hnew : newEvent U P raw reason source occurredAt eventId = .ok e := by
    refine newEvent_eq_ok.mpr ⟨⟨occurredAt.clock, o⟩, n, ?_, ?_, ?_⟩
    · rw [DateTime.aware, ho]
      rfl
    · rw [if_pos hkind]
      exact hn
    · rw [hkind]
  refine ⟨e, { store with cache := store.cache.note (toMatch e) }, ?_, rfl, rfl, ?_⟩
  · rw [SuppressionStore.addSuppression, hnew]
  · apply suppressedFrom_of_logged (List.mem_append_right _ List.mem_cons_self) rfl
    exact (Cache.mem_keys_note _ _ _).mpr (Or.inl rfl)

/-- An event of a text without the sign is a phone event. -/
theorem sign_of_email {log log' : List Event} {store : SuppressionStore} {reason source : Text}
    {occurredAt : DateTime} {eventId : Text} {e : Event} {store' : SuppressionStore}
    (h : store.addSuppression U P log .stored raw reason source occurredAt eventId =
      (log' ++ [e], some store')) (hkind : e.kind = .email) : '@' ∈ raw := by
  rw [SuppressionStore.addSuppression] at h
  cases hnew : newEvent U P raw reason source occurredAt eventId with
  | error error =>
    rw [hnew] at h
    exact nomatch (Prod.mk.inj h).2
  | ok e' =>
    rw [hnew] at h
    have hsame : e' = e := List.singleton_inj.mp (List.append_inj_right' (Prod.mk.inj h).1 rfl)
    obtain ⟨_, _, -, -, heq⟩ := newEvent_eq_ok.mp hnew
    rw [← hsame, heq] at hkind
    by_contra hsign
    exact nomatch hkind.symm.trans (if_neg hsign)

/-- A spelling of an address can be suppressed exactly if it has the ASCII sign. -/
theorem suppressible_iff (hn : normalizeEmail U (some raw) = some n) :
    Suppressible U P raw n ↔ '@' ∈ raw := by
  constructor
  · intro h
    obtain ⟨e, store', hadd, hkind, -, -⟩ :=
      h .init [] [] [] ⟨0, some 0⟩ [] (Option.some_ne_none 0)
    exact sign_of_email hadd hkind
  · exact suppressible_of_sign hn

end Spelling

/-! ## A fullwidth sign -/

/-- Tables with the fullwidth forms of ASCII. -/
def fullwidth : UnicodeData :=
  { UnicodeData.plain with
    decompTable := fun c =>
      if 0xFF01 ≤ c.toNat ∧ c.toNat ≤ 0xFF5E then [Char.ofNat (c.toNat - 0xFEE0)] else [c] }

theorem suppressible_tag :
    Suppressible fullwidth PhoneNumbers.e164 "Ａna+news@x.co".toList "ana@x.co".toList :=
  (suppressible_iff (by decide +kernel)).mpr (by decide +kernel)

/-- The check reads the sign, `add_suppression` does not. -/
theorem fullwidthSign_refused :
    normalizeEmail fullwidth (some "ana＠x.co".toList) = some "ana@x.co".toList ∧
      newEvent fullwidth PhoneNumbers.e164 "ana＠x.co".toList "stop".toList "sms".toList
        ⟨0, some 0⟩ "1".toList = .error (.cannotNormalize .phone "ana＠x.co".toList) ∧
      ¬ Suppressible fullwidth PhoneNumbers.e164 "ana＠x.co".toList "ana@x.co".toList := by
  have hnew : newEvent fullwidth PhoneNumbers.e164 "ana＠x.co".toList "stop".toList "sms".toList
      ⟨0, some 0⟩ "1".toList = .error (.cannotNormalize .phone "ana＠x.co".toList) := rfl
  refine ⟨by decide +kernel, hnew, ?_⟩
  intro h
  obtain ⟨e, store', hadd, -⟩ :=
    h .init [] "stop".toList "sms".toList ⟨0, some 0⟩ "1".toList (Option.some_ne_none 0)
  rw [SuppressionStore.addSuppression, hnew] at hadd
  exact nomatch (Prod.mk.inj hadd).2

end Outreach.Suppression
