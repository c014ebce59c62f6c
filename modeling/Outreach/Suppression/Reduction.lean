import Outreach.Suppression.Store

/-!
# The reduction of the log

`_current_set` folds over a listing in the order of random keys; `add_suppression`
updates the cache in the order of its calls. Both end with the earliest opt-out
for each identifier.
-/

namespace Outreach.Suppression

open Outreach.Library Outreach.Cleansing

set_option autoImplicit false

/-- The instants of the opt-outs of an identifier. -/
def instants (events : List Event) (k : Text) : Set Int :=
  {t | ∃ e ∈ events, e.identifier = k ∧ e.occurredAt.instant = t}

theorem instants_perm {events events' : List Event} (h : events.Perm events') (k : Text) :
    instants events k = instants events' k := by
  ext t
  exact exists_congr fun e => and_congr_left fun _ => h.mem_iff

def Cache.instant? (c : Cache) (k : Text) : Option Int :=
  (c.get? k).map fun m => m.occurredAt.instant

/-- The cache holds the identifiers of the events, each with its earliest instant. -/
structure Reduced (c : Cache) (events : List Event) : Prop where
  identifiers : ∀ k, k ∈ c.keys ↔ ∃ e ∈ events, e.identifier = k
  earliest : ∀ k t, c.instant? k = some t → IsLeast (instants events k) t

/-- Equal identifiers, with equal instants. -/
def SameOptOuts (c d : Cache) : Prop := ∀ k, c.instant? k = d.instant? k

theorem Reduced.perm {c : Cache} {events events' : List Event} (h : Reduced c events)
    (hperm : events.Perm events') : Reduced c events' where
  identifiers k := by
    rw [h.identifiers]
    exact exists_congr fun e => and_congr_left fun _ => hperm.mem_iff
  earliest k t ht := instants_perm hperm k ▸ h.earliest k t ht

theorem Reduced.same {c d : Cache} {events : List Event} (hc : Reduced c events)
    (hd : Reduced d events) : SameOptOuts c d := by
  intro k
  cases hck : c.instant? k with
  | none =>
    have hnone : k ∉ c.keys := Cache.get?_eq_none.mp (Option.map_eq_none_iff.mp hck)
    rw [hc.identifiers, ← hd.identifiers] at hnone
    exact (Option.map_eq_none_iff.mpr (Cache.get?_eq_none.mpr hnone)).symm
  | some t =>
    cases hdk : d.instant? k with
    | none =>
      have hnone : k ∉ d.keys := Cache.get?_eq_none.mp (Option.map_eq_none_iff.mp hdk)
      rw [hd.identifiers, ← hc.identifiers] at hnone
      rw [Cache.instant?, Cache.get?_eq_none.mpr hnone] at hck
      exact absurd hck.symm (Option.some_ne_none t)
    | some u => rw [(hc.earliest k t hck).unique (hd.earliest k u hdk)]

theorem currentSet_reduced (events : List Event) : Reduced (currentSet events) events where
  identifiers _ := mem_keys_currentSet
  earliest k t ht := by
    obtain ⟨m, hm, rfl⟩ := Option.map_eq_some_iff.mp ht
    obtain ⟨⟨x, hx, hrank⟩, hbound⟩ := Dict.isGreatest_bestOf _ _ hm
    obtain ⟨e, he, rfl⟩ := List.mem_map.mp hx.1
    have hinstant : -e.occurredAt.instant = -m.occurredAt.instant := hrank
    refine ⟨⟨e, he, hx.2, by omega⟩, ?_⟩
    intro u hu
    obtain ⟨e', he', hid, rfl⟩ := hu
    have hle : -e'.occurredAt.instant ≤ -m.occurredAt.instant :=
      hbound ⟨toMatch e', ⟨List.mem_map_of_mem he', hid⟩, rfl⟩
    omega

/-- One event more in the log is one note more in the cache. -/
theorem currentSet_concat (events : List Event) (e : Event) :
    currentSet (events ++ [e]) = (currentSet events).note (toMatch e) := by
  have hdict : (currentSet (events ++ [e])).dict = ((currentSet events).note (toMatch e)).dict := by
    show Dict.bestOf _ _ ((events ++ [e]).map toMatch) = _
    rw [List.map_append, List.map_singleton, Dict.bestOf_concat]
    rfl
  cases hcache : currentSet (events ++ [e])
  cases hnote : (currentSet events).note (toMatch e)
  rw [hcache, hnote] at hdict
  cases hdict
  rfl

section Calls

variable {ν : Type} (U : UnicodeData) (P : PhoneNumbers ν)

/-- The arguments of a call of `add_suppression`, and the id it draws. -/
structure AddCall where
  identifier : Text
  reason : Text
  source : Text
  occurredAt : DateTime
  eventId : Text

/-- Calls that follow one another, each of them successful. -/
def addEach : SuppressionStore → List Event → List AddCall → Option (List Event × SuppressionStore)
  | s, log, [] => some (log, s)
  | s, log, call :: calls =>
      match s.addSuppression U P log .stored call.identifier call.reason call.source
          call.occurredAt call.eventId with
      | (log, some s) => addEach s log calls
      | (_, none) => none

variable {U P} {calls : List AddCall} {s s' : SuppressionStore} {log log' listed : List Event}

/-- The cache follows the log, whatever order it was loaded in. -/
theorem addEach_cache (hs : s.cache = currentSet listed)
    (h : addEach U P s log calls = some (log', s')) :
    ∃ added, log' = log ++ added ∧ s'.cache = currentSet (listed ++ added) := by
  induction calls generalizing s log listed with
  | nil =>
    cases h
    refine ⟨[], (List.append_nil _).symm, ?_⟩
    rw [hs, List.append_nil]
  | cons call calls ih =>
    rw [addEach, SuppressionStore.addSuppression] at h
    cases hnew : newEvent U P call.identifier call.reason call.source call.occurredAt
        call.eventId with
    | error e =>
      rw [hnew] at h
      exact absurd h.symm (Option.some_ne_none _)
    | ok e =>
      rw [hnew] at h
      have hnote : s.cache.note (toMatch e) = currentSet (listed ++ [e]) := by
        rw [hs, currentSet_concat]
      obtain ⟨added, hlog, hcache⟩ := ih hnote h
      refine ⟨e :: added, ?_, ?_⟩
      · rw [hlog, List.append_assoc]
        rfl
      · rw [hcache, List.append_assoc]
        rfl

/-- The order of the listing does not matter, and calls keep the cache at what a fresh reduction
of the log gives. -/
theorem reduction_order_free :
    (∀ events listed : List Event, listed.Perm events →
      Reduced (currentSet listed) events ∧ SameOptOuts (currentSet listed) (currentSet events)) ∧
    ∀ (log listed : List Event) (loadedAt : Option Int) (calls : List AddCall)
      (log' : List Event) (s : SuppressionStore), listed.Perm log →
      addEach U P ⟨currentSet listed, loadedAt⟩ log calls = some (log', s) →
        Reduced s.cache log' ∧
          ∀ listed' : List Event, listed'.Perm log' → SameOptOuts s.cache (currentSet listed') := by
  constructor
  · intro events listed hperm
    have hreduced := (currentSet_reduced listed).perm hperm
    exact ⟨hreduced, hreduced.same (currentSet_reduced events)⟩
  · intro log listed loadedAt calls log' s hperm hcalls
    obtain ⟨added, rfl, hcache⟩ := addEach_cache rfl hcalls
    have hreduced : Reduced s.cache (log ++ added) :=
      hcache ▸ (currentSet_reduced _).perm (hperm.append_right added)
    exact ⟨hreduced, fun listed' hperm' =>
      hreduced.same ((currentSet_reduced listed').perm hperm')⟩

end Calls

/-- Two opt-outs of one number, the same instant at two offsets. -/
def twoOptOuts : List Event :=
  [⟨"1a".toList, "+16502530304".toList, "+16502530304".toList, .phone, "STOP".toList,
      "sms".toList, ⟨7200, 3600⟩⟩,
    ⟨"1b".toList, "+16502530304".toList, "6502530304".toList, .phone, "STOP".toList,
      "call".toList, ⟨3600, 0⟩⟩]

/-- A call with an earlier one, by a store that listed them the other way round. -/
def earlierCall : AddCall :=
  ⟨"+16502530304".toList, "STOP".toList, "mail".toList, ⟨0, some 0⟩, "0c".toList⟩

theorem reduction_order_free_earlier : ∃ log' s,
    addEach .plain .worldwide ⟨currentSet twoOptOuts.reverse, none⟩ twoOptOuts [earlierCall] =
        some (log', s) ∧
      Reduced s.cache log' ∧
        ∀ listed' : List Event, listed'.Perm log' → SameOptOuts s.cache (currentSet listed') := by
  obtain ⟨out, hout⟩ : ∃ out, addEach .plain .worldwide ⟨currentSet twoOptOuts.reverse, none⟩
      twoOptOuts [earlierCall] = some out := Option.isSome_iff_exists.mp (by decide +kernel)
  exact ⟨out.1, out.2, hout,
    reduction_order_free.2 _ _ _ _ _ _ (List.reverse_perm twoOptOuts) hout⟩

end Outreach.Suppression
