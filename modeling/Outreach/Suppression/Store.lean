import Outreach.Cleansing.Normalize
import Outreach.Library.Dict
import Outreach.Library.Listing

/-!
# The suppression list: `suppression/store.py`

The log is a list of events, one object each. The cache is the log reduced to
the earliest event for each identifier, kept up to date by the writer's own
events. The functions here are the sequential pieces of `SuppressionStore`; the
calls themselves, which read the log page by page, are in another module.
-/

namespace Outreach.Suppression

open Outreach.Library Outreach.Cleansing

set_option autoImplicit false

/-- `REFRESH_TTL_SECONDS`, in microseconds -/
def refreshTtl : Int := 30 * 1000000

def eventsPrefix : Text := "suppression/events/".toList

inductive Kind where
  | email
  | phone
  deriving DecidableEq, Repr

structure Event where
  eventId : Text
  identifier : Text
  identifierRaw : Text
  kind : Kind
  reason : Text
  source : Text
  occurredAt : Aware
  deriving DecidableEq

/-- The object key of an event. -/
def Event.key (e : Event) : Text := eventsPrefix ++ e.eventId ++ ".json".toList

structure SuppressionMatch where
  identifier : Text
  kind : Kind
  reason : Text
  source : Text
  occurredAt : Aware
  deriving DecidableEq

structure SuppressionResult where
  suppressed : Bool
  matched : List SuppressionMatch
  indeterminateIdentifiers : List Text
  deriving DecidableEq

/-- The two `ValueError`s of `add_suppression`. -/
inductive AddError where
  | naiveOccurredAt
  | cannotNormalize (kind : Kind) (identifier : Text)

def toMatch (e : Event) : SuppressionMatch :=
  ⟨e.identifier, e.kind, e.reason, e.source, e.occurredAt⟩

/-- Earlier opt-outs rank higher. -/
def SuppressionMatch.rank (m : SuppressionMatch) : Int := -m.occurredAt.instant

/-- The cache; each match is filed under its own identifier. -/
structure Cache where
  dict : Dict Text SuppressionMatch
  keyed : ∀ k m, dict.get? k = some m → m.identifier = k

namespace Cache

def empty : Cache := ⟨Dict.empty, fun _ _ h => by rw [Dict.get?_empty] at h; exact nomatch h⟩

def get? (c : Cache) (k : Text) : Option SuppressionMatch := c.dict.get? k

def keys (c : Cache) : List Text := c.dict.keys

/-- The writer's own event enters the cache unless an earlier one is there. -/
def note (c : Cache) (m : SuppressionMatch) : Cache where
  dict := Dict.keepBest SuppressionMatch.identifier SuppressionMatch.rank c.dict m
  keyed k x h := by
    rw [Dict.get?_keepBest] at h
    by_cases hk : m.identifier = k
    · rw [if_pos hk, Option.some.injEq] at h
      cases hy : c.dict.get? k with
      | none =>
        rw [hy] at h
        exact h ▸ hk
      | some y =>
        rw [hy] at h
        have hyk := c.keyed k y hy
        simp only at h
        split at h
        · exact h ▸ hk
        · exact h ▸ hyk
    · rw [if_neg hk] at h
      exact c.keyed k x h

@[simp] theorem mem_keys_note (c : Cache) (m : SuppressionMatch) (k : Text) :
    k ∈ (c.note m).keys ↔ k = m.identifier ∨ k ∈ c.keys :=
  Dict.mem_keys_keepBest SuppressionMatch.identifier SuppressionMatch.rank c.dict m k

@[simp] theorem mem_keys_empty (k : Text) : k ∉ empty.keys := List.not_mem_nil

theorem mem_keys_iff {c : Cache} {k : Text} :
    k ∈ c.keys ↔ ∃ m, c.get? k = some m ∧ m.identifier = k := by
  rw [keys, Dict.mem_keys_iff]
  exact ⟨fun ⟨m, hm⟩ => ⟨m, hm, c.keyed k m hm⟩, fun ⟨m, hm, _⟩ => ⟨m, hm⟩⟩

theorem get?_eq_none {c : Cache} {k : Text} : c.get? k = none ↔ k ∉ c.keys := Dict.get?_eq_none

end Cache

/-- `_current_set` -/
def currentSet (events : List Event) : Cache where
  dict := Dict.bestOf SuppressionMatch.identifier SuppressionMatch.rank (events.map toMatch)
  keyed k m h := by
    rw [Dict.get?_bestOf] at h
    have hm := List.argmax_mem (Option.mem_def.mpr h)
    exact of_decide_eq_true (List.mem_filter.mp hm).2

theorem mem_keys_currentSet {events : List Event} {k : Text} :
    k ∈ (currentSet events).keys ↔ ∃ e ∈ events, e.identifier = k := by
  apply (Dict.mem_keys_bestOf SuppressionMatch.identifier SuppressionMatch.rank _ k).trans
  simp [toMatch]

/-- The reload test of `_refresh_if_stale`. -/
def isStale (cacheLoadedAt : Option Int) (now : Int) : Bool :=
  match cacheLoadedAt with
  | none => true
  | some t => !decide (now - t < refreshTtl)

theorem isStale_eq_false {cacheLoadedAt : Option Int} {now : Int} :
    isStale cacheLoadedAt now = false ↔ ∃ t, cacheLoadedAt = some t ∧ now - t < refreshTtl := by
  cases cacheLoadedAt with
  | none => simp [isStale]
  | some t => simp [isStale]

/-- The fields of a store; the bucket is an argument of the operations. -/
structure SuppressionStore where
  cache : Cache
  cacheLoadedAt : Option Int

namespace SuppressionStore

def init : SuppressionStore := ⟨Cache.empty, none⟩

/-- `_refresh_if_stale` over a log that nobody writes meanwhile. -/
def refreshIfStale (s : SuppressionStore) (log : List Event) (now : Int) : SuppressionStore :=
  if isStale s.cacheLoadedAt now then ⟨currentSet log, some now⟩ else s

/-- The cache holds the log, or is about to be loaded. -/
def Follows (s : SuppressionStore) (log : List Event) : Prop :=
  s.cacheLoadedAt = none ∨ s.cache = currentSet log

theorem init_follows (log : List Event) : init.Follows log := Or.inl rfl

theorem refreshIfStale_cache {s : SuppressionStore} {log : List Event} (h : s.Follows log)
    (now : Int) : (s.refreshIfStale log now).cache = currentSet log := by
  unfold refreshIfStale
  rcases h with hnone | hcache
  · rw [hnone]
    rfl
  · split
    · rfl
    · exact hcache

end SuppressionStore

section Identifiers

variable {ν : Type} (U : UnicodeData) (P : PhoneNumbers ν)

def kindOf (identifier : Text) : Kind := if '@' ∈ identifier then .email else .phone

/-- The event that `add_suppression` is about to put. -/
def newEvent (identifier reason source : Text) (occurredAt : DateTime) (eventId : Text) :
    Except AddError Event :=
  match occurredAt.aware with
  | none => .error .naiveOccurredAt
  | some at' =>
      let kind := kindOf identifier
      let normalized :=
        if kind = .email then normalizeEmail U (some identifier)
        else normalizePhone U P (some identifier)
      match normalized with
      | none => .error (.cannotNormalize kind identifier)
      | some n => .ok ⟨eventId, n, identifier, kind, reason, source, at'⟩

/-- How a `put_object` ends: it returns, or it raises without or with an effect. -/
inductive Put where
  | stored
  | lost
  | landed
  deriving DecidableEq, Repr

/-- `add_suppression` as one call: the log afterwards, and the store unless it raised. -/
def SuppressionStore.addSuppression (s : SuppressionStore) (log : List Event) (put : Put)
    (identifier reason source : Text) (occurredAt : DateTime) (eventId : Text) :
    List Event × Option SuppressionStore :=
  match newEvent U P identifier reason source occurredAt eventId with
  | .error _ => (log, none)
  | .ok e =>
      match put with
      | .stored => (log ++ [e], some { s with cache := s.cache.note (toMatch e) })
      | .lost => (log, none)
      | .landed => (log ++ [e], none)

/-- The identifiers that a check is given, each with its normal form. -/
def provided (phone email : Option Text) : List (Text × Option Text) :=
  (phone.map fun raw => (raw, normalizePhone U P (some raw))).toList ++
    (email.map fun raw => (raw, normalizeEmail U (some raw))).toList

/-- The loop of `is_suppressed` over the refreshed cache. -/
def report (cache : Cache) (phone email : Option Text) : SuppressionResult :=
  let matched := (provided U P phone email).filterMap fun q => q.2.bind cache.get?
  let indeterminate := ((provided U P phone email).filter fun q => q.2.isNone).map Prod.fst
  ⟨!matched.isEmpty || !indeterminate.isEmpty, matched, indeterminate⟩

/-- `is_suppressed` over a log that nobody writes meanwhile; `none` is the `ValueError`. -/
def SuppressionStore.isSuppressed (s : SuppressionStore) (log : List Event) (now : Int)
    (phone email : Option Text) : Option (SuppressionResult × SuppressionStore) :=
  if phone = none ∧ email = none then none
  else
    let s := s.refreshIfStale log now
    some (report U P s.cache phone email, s)

/-- The result names `k` as a suppressed identifier. -/
def SuppressionResult.Reports (r : SuppressionResult) (k : Text) : Prop :=
  r.suppressed = true ∧ ∃ m ∈ r.matched, m.identifier = k

variable {U P} {cache : Cache} {phone email : Option Text}

theorem newEvent_eq_ok {identifier reason source eventId : Text} {occurredAt : DateTime}
    {e : Event} : newEvent U P identifier reason source occurredAt eventId = .ok e ↔
      ∃ at' n, occurredAt.aware = some at' ∧
        (if kindOf identifier = .email then normalizeEmail U (some identifier)
          else normalizePhone U P (some identifier)) = some n ∧
        e = ⟨eventId, n, identifier, kindOf identifier, reason, source, at'⟩ := by
  unfold newEvent
  cases occurredAt.aware with
  | none => simp
  | some at' =>
    extract_lets kind normalized
    show _ ↔ ∃ at'' n, some at' = some at'' ∧ normalized = some n ∧ _
    cases normalized with
    | none => simp
    | some n => simp [kind, eq_comm]

/-- The identifier of a phone event is the normal form of the number. -/
theorem newEvent_phone {identifier reason source eventId : Text} {occurredAt : DateTime}
    {e : Event} (hat : '@' ∉ identifier)
    (h : newEvent U P identifier reason source occurredAt eventId = .ok e) :
    normalizePhone U P (some identifier) = some e.identifier := by
  obtain ⟨at', n, -, hn, rfl⟩ := newEvent_eq_ok.mp h
  have hkind : kindOf identifier ≠ .email := by
    rw [kindOf, if_neg hat]
    exact fun h => nomatch h
  rwa [if_neg hkind] at hn

theorem mem_provided {raw : Text} {n : Option Text} :
    (raw, n) ∈ provided U P phone email ↔
      (phone = some raw ∧ n = normalizePhone U P phone) ∨
        (email = some raw ∧ n = normalizeEmail U email) := by
  rw [provided, List.mem_append]
  constructor
  · rintro (h | h) <;> simp only [Option.mem_toList, Option.map_eq_some_iff,
      Prod.mk.injEq] at h
    · obtain ⟨_, rfl, rfl, rfl⟩ := h
      exact Or.inl ⟨rfl, rfl⟩
    · obtain ⟨_, rfl, rfl, rfl⟩ := h
      exact Or.inr ⟨rfl, rfl⟩
  · rintro (⟨rfl, rfl⟩ | ⟨rfl, rfl⟩)
    · exact Or.inl (by simp)
    · exact Or.inr (by simp)

theorem report_suppressed :
    (report U P cache phone email).suppressed = true ↔
      ∃ q ∈ provided U P phone email, q.2 = none ∨ ∃ k ∈ cache.keys, q.2 = some k := by
  have hmatched : ((provided U P phone email).filterMap fun q => q.2.bind cache.get?) = [] ↔
      ∀ q ∈ provided U P phone email, ∀ k, q.2 = some k → k ∉ cache.keys := by
    rw [List.filterMap_eq_nil_iff]
    refine forall₂_congr fun q _ => ?_
    cases q.2 with
    | none => simp
    | some k => simp [Cache.get?_eq_none]
  have hindet : ((provided U P phone email).filter fun q => q.2.isNone).map Prod.fst = [] ↔
      ∀ q ∈ provided U P phone email, q.2 ≠ none := by
    rw [List.map_eq_nil_iff, List.filter_eq_nil_iff]
    simp
  rw [report, Bool.or_eq_true, Bool.not_eq_true', Bool.not_eq_true', List.isEmpty_eq_false_iff,
    List.isEmpty_eq_false_iff, Ne, Ne, hmatched, hindet]
  constructor
  · rintro (h | h)
    · push Not at h
      obtain ⟨q, hq, k, hk, hc⟩ := h
      exact ⟨q, hq, Or.inr ⟨k, hc, hk⟩⟩
    · push Not at h
      obtain ⟨q, hq, hn⟩ := h
      exact ⟨q, hq, Or.inl hn⟩
  · rintro ⟨q, hq, hn | ⟨k, hc, hk⟩⟩
    · exact Or.inr fun h => h q hq hn
    · exact Or.inl fun h => h q hq k hk hc

/-- A check names exactly the cached identifiers among those it is given. -/
theorem report_reports {k : Text} :
    (report U P cache phone email).Reports k ↔
      k ∈ cache.keys ∧ ∃ q ∈ provided U P phone email, q.2 = some k := by
  constructor
  · intro h
    obtain ⟨-, m, hm, rfl⟩ := h
    obtain ⟨q, hq, hget⟩ := List.mem_filterMap.mp hm
    obtain ⟨k, hk, hget⟩ := Option.bind_eq_some_iff.mp hget
    have hmk : m.identifier = k := cache.keyed k m hget
    rw [hmk]
    exact ⟨Cache.mem_keys_iff.mpr ⟨m, hget, hmk⟩, q, hq, hk⟩
  · intro h
    obtain ⟨hc, q, hq, hk⟩ := h
    obtain ⟨m, hget, hmk⟩ := Cache.mem_keys_iff.mp hc
    refine ⟨report_suppressed.mpr ⟨q, hq, Or.inr ⟨k, hc, hk⟩⟩, m, ?_, hmk⟩
    exact List.mem_filterMap.mpr ⟨q, hq, by rw [hk]; exact hget⟩

/-- A larger cache suppresses more. -/
theorem report_suppressed_mono {cache' : Cache} (hsub : ∀ k ∈ cache.keys, k ∈ cache'.keys)
    (h : (report U P cache phone email).suppressed = true) :
    (report U P cache' phone email).suppressed = true := by
  rw [report_suppressed] at h ⊢
  obtain ⟨q, hq, hn | ⟨k, hc, hk⟩⟩ := h
  · exact ⟨q, hq, Or.inl hn⟩
  · exact ⟨q, hq, Or.inr ⟨k, hsub k hc, hk⟩⟩

end Identifiers

end Outreach.Suppression
