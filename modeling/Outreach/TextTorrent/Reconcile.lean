import Outreach.Salesforce.Org
import Mathlib.Data.List.Dedup

/-!
# The nightly reconciliation: `texttorrent/reconcile.py`

Our phone identifiers against the vendor's blocked list, in both directions. What
the run is given from outside is its environment: the pulled list, the readings of
the clocks, the ids, and how each put, the push and the metric call end. A run that
raises leaves what it has written; the next run starts from there.
-/

namespace Outreach.TextTorrent

open Outreach.Library Outreach.Cleansing Outreach.Suppression

set_option autoImplicit false

/-! ## The pull -/

/-- An entry of a page of the blocked list; `record none` has no `number`. -/
inductive BlockedEntry where
  | record (number : Option Text)
  | other

/-- The numbers of a page; `none` is the `KeyError`. -/
def numbersOf : List BlockedEntry → Option (List Text)
  | [] => some []
  | .other :: entries => numbersOf entries
  | .record none :: _ => none
  | .record (some number) :: entries => (numbersOf entries).map (number :: ·)

/-- `blocked_numbers` over the answers it gets; `none` when a request or an entry raises,
or while the answers give no short page. -/
def blockedNumbers (pageSize : Nat) : List (Option (List BlockedEntry)) → Option (List Text)
  | [] => none
  | none :: _ => none
  | some entries :: pages => do
      let numbers ← numbersOf entries
      if entries.length < pageSize then some numbers
      else (blockedNumbers pageSize pages).map (numbers ++ ·)

/-- The rows of an export, each a map from its columns. -/
structure Export where
  fieldnames : List Text
  rows : List (Dict Text Text)

/-- `_numbers_from_export`; an export without a header has the one column name `""`. -/
def numbersFromExport (e : Export) : List Text :=
  let fields := if e.fieldnames = [] then [[]] else e.fieldnames
  let column := if fields.contains "phone".toList then "phone".toList else fields.head?.getD []
  (e.rows.filterMap fun row => row.get? column).filter fun cell => !cell.isEmpty

inductive Pull where
  | api (pages : List (Option (List BlockedEntry)))
  /-- `none` when the object cannot be read -/
  | dropped (file : Option Export)

def Pull.numbers : Pull → Option (List Text)
  | .api pages => blockedNumbers 200 pages
  | .dropped file => file.map numbersFromExport

/-! ## The run -/

/-- What a run meets outside. -/
structure Env where
  pull : Pull
  /-- the listing of the log answers -/
  listed : Bool
  monotonic : Int
  now : Int
  eventId : Nat → Text
  put : Nat → Put
  /-- the vendor takes the push, and says so -/
  taken : Bool
  /-- the metric is put -/
  counted : Bool

structure Report where
  divergence : Nat
  addedFromVendor : List Text
  pushedToVendor : List Text
  unparseable : List Text

/-- What a run leaves: the log, the argument of the push if it came to that, and the
report if it returned. -/
structure Outcome where
  log : List Event
  pushed : Option (List Text)
  report : Option Report

/-- `sorted(a - b)` of two sets. -/
def sortedDiff (a b : List Text) : List Text :=
  ((a.filter fun x => !b.contains x).dedup).insertionSort (· ≤ ·)

def identifiers (log : List Event) : List Text := log.map Event.identifier

def isPhone (identifier : Text) : Bool := !identifier.contains '@'

section Run

variable {ν : Type} (U : UnicodeData) (P : PhoneNumbers ν)

/-- `ten_digits` -/
def tenDigits (phone : Text) : Text :=
  let digits := phone.filter U.decimal
  digits.drop (digits.length - 10)

/-- The numbers that `block_numbers` sends; it sends nothing for an empty list. -/
def blockRequest (numbers : List Text) : Option (List Text) :=
  if numbers = [] then none else some (numbers.map (tenDigits U))

/-- `block_numbers` returns. -/
def blockNumbers (taken : Bool) (numbers : List Text) : Bool :=
  match blockRequest U numbers with
  | none => true
  | some _ => taken

/-- The normal forms on the vendor's list. -/
def vendorNumbers (raw : List Text) : List Text :=
  raw.filterMap fun entry => normalizePhone U P (some entry)

def unparseable (raw : List Text) : List Text :=
  raw.filter fun entry => (normalizePhone U P (some entry)).isNone

def addReason : Text := "present on TextTorrent blocked list".toList
def addSource : Text := "texttorrent_reconciliation".toList

/-- The loop of the additions, the `i`-th put first. -/
def addAll (env : Env) : Nat → SuppressionStore → List Event → List Text →
    List Event × Option SuppressionStore
  | _, store, log, [] => (log, some store)
  | i, store, log, number :: numbers =>
      match store.addSuppression U P log (env.put i) number addReason addSource
          ⟨env.now, some 0⟩ (env.eventId i) with
      | (log, none) => (log, none)
      | (log, some store) => addAll env (i + 1) store log numbers

/-- `handler` -/
def reconcile (env : Env) (log : List Event) : Outcome :=
  match env.pull.numbers with
  | none => ⟨log, none, none⟩
  | some raw =>
      if !env.listed then ⟨log, none, none⟩
      else
        let store := SuppressionStore.init.refreshIfStale log env.monotonic
        let vendor := vendorNumbers U P raw
        let oursPhones := store.cache.keys.filter isPhone
        let addedFromVendor := sortedDiff vendor oursPhones
        match addAll U P env 0 store log addedFromVendor with
        | (log, none) => ⟨log, none, none⟩
        | (log, some _) =>
            let pushedToVendor := sortedDiff oursPhones vendor
            if blockNumbers U env.taken pushedToVendor && env.counted then
              let bad := unparseable U P raw
              ⟨log, some pushedToVendor, some
                ⟨addedFromVendor.length + pushedToVendor.length + bad.length,
                  addedFromVendor, pushedToVendor, bad⟩⟩
            else ⟨log, some pushedToVendor, none⟩

/-- The log after runs that follow one another, aborted or not. -/
def rerun (log : List Event) (envs : List Env) : List Event :=
  envs.foldl (fun log env => (reconcile U P env log).log) log

end Run

/-! ## The pull is complete -/

/-- The pages of a list, the last one short. -/
def served (n : Nat) (numbers : List Text) : List (Option (List BlockedEntry)) :=
  (List.range (numbers.length / n + 1)).map fun i =>
    some (((numbers.drop (n * i)).take n).map fun number => .record (some number))

theorem numbersOf_records (numbers : List Text) :
    numbersOf (numbers.map fun number => .record (some number)) = some numbers := by
  induction numbers with
  | nil => rfl
  | cons number numbers ih => rw [List.map_cons, numbersOf, ih, Option.map_some]

/-- A full page comes off the front. -/
theorem served_full {n : Nat} (hn : 0 < n) {numbers : List Text} (h : n ≤ numbers.length) :
    served n numbers =
      some ((numbers.take n).map fun number => .record (some number)) ::
        served n (numbers.drop n) := by
  have hdiv : numbers.length / n = (numbers.length - n) / n + 1 := Nat.div_eq_sub_div hn h
  rw [served, hdiv, List.range_succ_eq_map, List.map_cons, List.map_map]
  have htail : (List.range ((numbers.length - n) / n + 1)).map ((fun i =>
      some (((numbers.drop (n * i)).take n).map fun number => BlockedEntry.record (some number))) ∘
        Nat.succ) = served n (numbers.drop n) := by
    rw [served, List.length_drop]
    refine List.map_congr_left fun i _ => ?_
    rw [Function.comp_apply, List.drop_drop, Nat.mul_succ, Nat.add_comm]
  rw [htail, Nat.mul_zero, List.drop_zero]

/-- The paging returns the whole list, whatever its length. -/
theorem blockedNumbers_served {n : Nat} (hn : 0 < n) (numbers : List Text) :
    blockedNumbers n (served n numbers) = some numbers := by
  induction hlen : numbers.length using Nat.strong_induction_on generalizing numbers with
  | _ len ih =>
    by_cases hshort : numbers.length < n
    · have hpage : served n numbers =
          [some (numbers.map fun number => .record (some number))] := by
        rw [served, Nat.div_eq_of_lt hshort]
        show [some (((numbers.drop (n * 0)).take n).map _)] = _
        rw [Nat.mul_zero, List.drop_zero, List.take_of_length_le (Nat.le_of_lt hshort)]
      rw [hpage, blockedNumbers, numbersOf_records]
      simp only [Option.bind_eq_bind, Option.bind_some, List.length_map, if_pos hshort]
    · have hfull : n ≤ numbers.length := Nat.le_of_not_lt hshort
      have hrest : blockedNumbers n (served n (numbers.drop n)) = some (numbers.drop n) := by
        apply ih (numbers.drop n).length _ _ rfl
        rw [List.length_drop]
        omega
      have hlen' : ¬ ((numbers.take n).map fun number =>
          BlockedEntry.record (some number)).length < n := by
        rw [List.length_map, List.length_take]
        omega
      rw [served_full hn hfull, blockedNumbers, numbersOf_records, hrest]
      simp only [Option.bind_eq_bind, Option.bind_some, if_neg hlen', Option.map_some,
        List.take_append_drop]

/-! ## What a run leaves -/

section Sets

variable {a b : List Text} {x : Text}

theorem mem_sortedDiff : x ∈ sortedDiff a b ↔ x ∈ a ∧ x ∉ b := by
  rw [sortedDiff, List.mem_insertionSort, List.mem_dedup, List.mem_filter]
  simp

theorem sortedDiff_eq_nil : sortedDiff a b = [] ↔ ∀ x ∈ a, x ∈ b := by
  rw [List.eq_nil_iff_forall_not_mem]
  refine forall_congr' fun x => ?_
  rw [mem_sortedDiff, not_and_not_right]

theorem sortedDiff_nodup (a b : List Text) : (sortedDiff a b).Nodup :=
  (List.perm_insertionSort _ _).nodup_iff.mpr (List.nodup_dedup _)

end Sets

section Runs

variable {ν : Type} {U : UnicodeData} {P : PhoneNumbers ν} {env : Env} {log : List Event}
  {raw numbers : List Text} {n : Text}

/-- The number is its own normal form, and no address. -/
def Normal (U : UnicodeData) (P : PhoneNumbers ν) (n : Text) : Prop :=
  normalizePhone U P (some n) = some n ∧ '@' ∉ n

theorem normal_of_normalized (hP : P.Lawful) {entry : Option Text}
    (h : normalizePhone U P entry = some n) : Normal U P n := by
  refine ⟨normalizePhone_idem U P hP h, ?_⟩
  obtain ⟨r, v, -, -, -, hv, rfl⟩ := (normalizePhone_eq_some U P).mp h
  obtain ⟨ds, hds, hdigits⟩ := hP.shape v hv
  rw [hds]
  intro hat
  rcases List.mem_cons.mp hat with hat | hat
  · exact absurd hat (by decide)
  · exact absurd (hdigits '@' hat) (by decide)

theorem mem_vendorNumbers :
    n ∈ vendorNumbers U P raw ↔ ∃ entry ∈ raw, normalizePhone U P (some entry) = some n :=
  List.mem_filterMap

theorem normal_of_vendor (hP : P.Lawful) (h : n ∈ vendorNumbers U P raw) : Normal U P n := by
  obtain ⟨entry, -, hn⟩ := mem_vendorNumbers.mp h
  exact normal_of_normalized hP hn

/-- The event that a number in normal form is filed as. -/
def vendorEvent (env : Env) (i : Nat) (n : Text) : Event :=
  ⟨env.eventId i, n, n, .phone, addReason, addSource, ⟨env.now, 0⟩⟩

theorem newEvent_vendor (hn : Normal U P n) (i : Nat) :
    newEvent U P n addReason addSource ⟨env.now, some 0⟩ (env.eventId i) =
      .ok (vendorEvent env i n) := by
  have hkind : kindOf n = .phone := if_neg hn.2
  refine newEvent_eq_ok.mpr ⟨⟨env.now, 0⟩, n, rfl, ?_, ?_⟩
  · rw [hkind]
    exact hn.1
  · rw [hkind]
    rfl

variable (env) in
/-- The loop files a prefix of the numbers, all of them unless it raises. -/
theorem addAll_spec (hnormal : ∀ n ∈ numbers, Normal U P n) (i : Nat) (store : SuppressionStore)
    (log : List Event) :
    ∃ added, (addAll U P env i store log numbers).1 = log ++ added ∧
      identifiers added <+: numbers ∧
      ((addAll U P env i store log numbers).2.isSome = true → identifiers added = numbers) := by
  induction numbers generalizing i store log with
  | nil => exact ⟨[], (List.append_nil log).symm, List.prefix_refl _, fun _ => rfl⟩
  | cons n numbers ih =>
    obtain ⟨hn, hrest⟩ := List.forall_mem_cons.mp hnormal
    rw [addAll, SuppressionStore.addSuppression, newEvent_vendor hn]
    cases hput : env.put i with
    | stored =>
      obtain ⟨added, hlog, hpre, hall⟩ := ih hrest (i + 1)
        { store with cache := store.cache.note (toMatch (vendorEvent env i n)) }
        (log ++ [vendorEvent env i n])
      refine ⟨vendorEvent env i n :: added, ?_, ?_, fun h => ?_⟩
      · rw [hlog, List.append_assoc]
        rfl
      · exact (List.prefix_cons_inj n).mpr hpre
      · exact congrArg (n :: ·) (hall h)
    | lost =>
      exact ⟨[], (List.append_nil log).symm, List.nil_prefix, fun h => nomatch h⟩
    | landed =>
      refine ⟨[vendorEvent env i n], rfl, ?_, fun h => nomatch h⟩
      exact (List.prefix_cons_inj n).mpr List.nil_prefix

/-- Our phone identifiers, as the run has read them. -/
theorem mem_oursPhones :
    n ∈ (SuppressionStore.init.refreshIfStale log env.monotonic).cache.keys.filter isPhone ↔
      n ∈ identifiers log ∧ isPhone n = true := by
  have hcache := SuppressionStore.refreshIfStale_cache (SuppressionStore.init_follows log)
    env.monotonic
  rw [List.mem_filter, hcache, mem_keys_currentSet, identifiers, List.mem_map]

variable (U P env log) in
/-- The numbers that the run adds when it has pulled `raw`. -/
def additions (raw : List Text) : List Text :=
  sortedDiff (vendorNumbers U P raw)
    ((SuppressionStore.init.refreshIfStale log env.monotonic).cache.keys.filter isPhone)

variable (U P env log) in
/-- A run leaves the log alone, or goes through its additions. -/
theorem reconcile_log :
    (reconcile U P env log).log = log ∨ ∃ raw, env.pull.numbers = some raw ∧
      (reconcile U P env log).log =
        (addAll U P env 0 (SuppressionStore.init.refreshIfStale log env.monotonic) log
          (additions U P env log raw)).1 := by
  unfold reconcile
  cases env.pull.numbers with
  | none => exact Or.inl rfl
  | some raw =>
    cases env.listed with
    | false => exact Or.inl rfl
    | true =>
      refine Or.inr ⟨raw, rfl, ?_⟩
      simp only [Bool.not_true, Bool.false_eq_true, if_false, additions]
      split
      · rename_i hadd
        rw [hadd]
      · rename_i hadd
        rw [hadd]
        split <;> rfl

/-- A run that returns has gone through all its additions, pushed the rest and counted. -/
theorem reconcile_returns {report : Report} (hpull : env.pull.numbers = some raw)
    (hret : (reconcile U P env log).report = some report) :
    ∃ pushed, (reconcile U P env log).pushed = some pushed ∧
      pushed = sortedDiff
        ((SuppressionStore.init.refreshIfStale log env.monotonic).cache.keys.filter isPhone)
        (vendorNumbers U P raw) ∧
      (∃ store, addAll U P env 0 (SuppressionStore.init.refreshIfStale log env.monotonic) log
        (additions U P env log raw) = ((reconcile U P env log).log, some store)) ∧
      report = ⟨(additions U P env log raw).length + pushed.length + (unparseable U P raw).length,
        additions U P env log raw, pushed, unparseable U P raw⟩ := by
  unfold reconcile at hret ⊢
  rw [hpull] at hret ⊢
  cases hlisted : env.listed with
  | false =>
    rw [hlisted] at hret
    exact nomatch hret
  | true =>
    simp only [hlisted, Bool.not_true, Bool.false_eq_true, if_false] at hret ⊢
    cases hadd : addAll U P env 0 (SuppressionStore.init.refreshIfStale log env.monotonic) log
      (additions U P env log raw) with
    | mk log' store =>
      rw [additions] at hadd
      rw [hadd] at hret ⊢
      cases store with
      | none => exact nomatch hret
      | some store =>
        simp only at hret ⊢
        split at hret
        · rename_i hdone
          rw [if_pos hdone]
          cases hret
          exact ⟨_, rfl, rfl, ⟨store, rfl⟩, rfl⟩
        · exact nomatch hret

/-- What a run that returns has brought about, over the log it found. -/
structure Reconciled (U : UnicodeData) (P : PhoneNumbers ν) (raw : List Text) (found : List Event)
    (out : Outcome) : Prop where
  /-- every vendor entry that can be read is on our list -/
  added : ∀ entry ∈ raw, ∀ n, normalizePhone U P (some entry) = some n → n ∈ identifiers out.log
  /-- the push was called with our phone identifiers that the vendor lacks -/
  pushed : ∃ numbers, out.pushed = some numbers ∧ numbers.Nodup ∧ ∀ n, n ∈ numbers ↔
    n ∈ identifiers out.log ∧ isPhone n = true ∧
      ¬ ∃ entry ∈ raw, normalizePhone U P (some entry) = some n
  /-- zero is reported exactly for equal lists without an unreadable entry -/
  divergence : ∀ report, out.report = some report → (report.divergence = 0 ↔
    (∀ n, (n ∈ identifiers found ∧ isPhone n = true) ↔
      ∃ entry ∈ raw, normalizePhone U P (some entry) = some n) ∧
    ∀ entry ∈ raw, normalizePhone U P (some entry) ≠ none)

theorem reconcile_grows (hP : P.Lawful) : log <+: (reconcile U P env log).log := by
  rcases reconcile_log U P env log with hsame | ⟨raw, -, hlog⟩
  · exact hsame.symm ▸ List.prefix_refl log
  · have hnormal : ∀ n ∈ additions U P env log raw, Normal U P n := fun n hn =>
      normal_of_vendor hP (mem_sortedDiff.mp hn).1
    obtain ⟨added, hadded, -, -⟩ := addAll_spec env hnormal 0
      (SuppressionStore.init.refreshIfStale log env.monotonic) log
    rw [hlog, hadded]
    exact List.prefix_append log added

/-- After a run that returns, our list is the old one and the vendor's. -/
theorem mem_identifiers_returned (hP : P.Lawful) {report : Report}
    (hpull : env.pull.numbers = some raw)
    (hret : (reconcile U P env log).report = some report) :
    n ∈ identifiers (reconcile U P env log).log ↔
      n ∈ identifiers log ∨ n ∈ vendorNumbers U P raw := by
  obtain ⟨_, -, -, ⟨store, hadd⟩, -⟩ := reconcile_returns hpull hret
  have hnormal : ∀ n ∈ additions U P env log raw, Normal U P n := fun n hn =>
    normal_of_vendor hP (mem_sortedDiff.mp hn).1
  obtain ⟨added, hadded, -, hall⟩ := addAll_spec env hnormal 0
    (SuppressionStore.init.refreshIfStale log env.monotonic) log
  rw [hadd] at hadded hall
  have hids : n ∈ identifiers added ↔ n ∈ vendorNumbers U P raw ∧
      ¬ (n ∈ identifiers log ∧ isPhone n = true) := by
    rw [hall rfl, additions, mem_sortedDiff, mem_oursPhones]
  have hphone : n ∈ vendorNumbers U P raw → isPhone n = true := by
    intro hn
    have hat : '@' ∉ n := (normal_of_vendor hP hn).2
    simp [isPhone, hat]
  have hlog : (reconcile U P env log).log = log ++ added := hadded
  rw [hlog, identifiers, List.map_append, List.mem_append]
  show n ∈ identifiers log ∨ n ∈ identifiers added ↔ _
  rw [hids]
  tauto

theorem reconcile_reconciled (hP : P.Lawful) {report : Report}
    (hpull : env.pull.numbers = some raw)
    (hret : (reconcile U P env log).report = some report) :
    Reconciled U P raw log (reconcile U P env log) where
  added entry hentry n hn :=
    (mem_identifiers_returned hP hpull hret).mpr (Or.inr (mem_vendorNumbers.mpr ⟨entry, hentry, hn⟩))
  pushed := by
    obtain ⟨pushed, hpushed, heq, -, -⟩ := reconcile_returns hpull hret
    refine ⟨pushed, hpushed, heq ▸ sortedDiff_nodup _ _, fun n => ?_⟩
    rw [heq, mem_sortedDiff, mem_oursPhones, mem_identifiers_returned hP hpull hret,
      ← mem_vendorNumbers]
    tauto
  divergence := by
    intro report' hret'
    obtain rfl : report = report' := Option.some.inj (hret.symm.trans hret')
    obtain ⟨pushed, -, heq, -, rfl⟩ := reconcile_returns hpull hret
    have hzero : ∀ a b c : List Text, a.length + b.length + c.length = 0 ↔
        (a = [] ∧ b = []) ∧ c = [] := by
      intro a b c
      rw [← List.length_eq_zero_iff, ← List.length_eq_zero_iff, ← List.length_eq_zero_iff]
      omega
    have hbad : unparseable U P raw = [] ↔
        ∀ entry ∈ raw, normalizePhone U P (some entry) ≠ none := by
      rw [unparseable, List.filter_eq_nil_iff]
      simp
    show _ + _ + _ = 0 ↔ _
    rw [hzero, hbad, heq, additions, sortedDiff_eq_nil, sortedDiff_eq_nil]
    refine and_congr_left fun _ => ?_
    simp only [mem_oursPhones, ← mem_vendorNumbers]
    constructor
    · intro h n
      exact ⟨h.2 n, h.1 n⟩
    · intro h
      exact ⟨fun n => (h n).mpr, fun n => (h n).mp⟩

/-- The list only grows, whatever raises; and a run that returns after any number of
aborted ones has brought both lists together. -/
theorem reconcile_resumable (hP : P.Lawful) (log : List Event) :
    (∀ envs env, rerun U P log envs <+: (reconcile U P env (rerun U P log envs)).log) ∧
      ∀ envs env raw report, env.pull.numbers = some raw →
        (reconcile U P env (rerun U P log envs)).report = some report →
        Reconciled U P raw (rerun U P log envs) (reconcile U P env (rerun U P log envs)) :=
  ⟨fun _ _ => reconcile_grows hP, fun _ _ _ _ hpull hret => reconcile_reconciled hP hpull hret⟩

/-! ## In the org -/

section Refinement

open Outreach.Salesforce

variable {p : Platform}

variable (env) in
/-- The loop of the additions, entry by entry, over a list to which only it adds. -/
theorem addAll_run (w : Org) (hnormal : ∀ n ∈ numbers, Normal p.unicode P n)
    (hnew : ∀ n ∈ numbers, n ∉ identifiers log) (i : Nat) (store : SuppressionStore)
    (extra : List Event) :
    ∃ es : List Label, (∀ e ∈ es, ∃ raw occurredAt eventId,
        e = .reconcile log.length raw occurredAt eventId) ∧
      (org p P).run { w with events := log ++ extra } es =
        some { w with events := (addAll p.unicode P env i store (log ++ extra) numbers).1 } := by
  induction numbers generalizing i store extra with
  | nil => exact ⟨[], List.forall_mem_nil _, rfl⟩
  | cons n numbers ih =>
    obtain ⟨hn, hrest⟩ := List.forall_mem_cons.mp hnormal
    obtain ⟨hn', hrest'⟩ := List.forall_mem_cons.mp hnew
    -- one entry of the org's reconciliation
    have hstep : ∀ w' : Org, w'.events = log ++ extra →
        (org p P).step w' (.reconcile log.length n ⟨env.now, some 0⟩ (env.eventId i)) =
          some { w' with events := log ++ extra ++ [vendorEvent env i n] } := by
      intro w' hw'
      have hseen : ((log ++ extra).take log.length).any (fun e => decide (e.identifier = n)) =
          false := by
        rw [List.take_left, List.any_eq_false]
        intro e he hid
        exact hn' (List.mem_map.mpr ⟨e, he, of_decide_eq_true hid⟩)
      have hadd : addVendorEntry p P (log ++ extra) log.length n ⟨env.now, some 0⟩
          (env.eventId i) = log ++ extra ++ [vendorEvent env i n] := by
        simp only [addVendorEntry, hn.1, hseen, Bool.false_eq_true, if_false]
        show _ ++ (newEvent p.unicode P n addReason addSource _ _).toOption.toList = _
        rw [newEvent_vendor hn]
        rfl
      show some { w' with events := addVendorEntry p P w'.events _ _ _ _ } = _
      rw [hw', hadd]
    rw [addAll, SuppressionStore.addSuppression, newEvent_vendor hn]
    cases hput : env.put i with
    | stored =>
      obtain ⟨es, hes, hrun⟩ := ih hrest hrest' (i + 1)
        { store with cache := store.cache.note (toMatch (vendorEvent env i n)) }
        (extra ++ [vendorEvent env i n])
      rw [← List.append_assoc] at hrun
      refine ⟨.reconcile log.length n ⟨env.now, some 0⟩ (env.eventId i) :: es,
        List.forall_mem_cons.mpr ⟨⟨_, _, _, rfl⟩, hes⟩, ?_⟩
      exact (org p P).run_cons_some.mpr ⟨_, hstep _ rfl, hrun⟩
    | lost => exact ⟨[], List.forall_mem_nil _, rfl⟩
    | landed =>
      refine ⟨[.reconcile log.length n ⟨env.now, some 0⟩ (env.eventId i)],
        List.forall_mem_singleton.mpr ⟨_, _, _, rfl⟩, ?_⟩
      exact (org p P).run_singleton.mpr (hstep _ rfl)

/-- A run of the job, aborted or not, is a run of reconciliation entries in the org. -/
theorem reconcile_run (hP : P.Lawful) (w : Org) (env : Env) :
    ∃ es : List Label, (∀ e ∈ es, ∃ raw occurredAt eventId,
        e = .reconcile w.events.length raw occurredAt eventId) ∧
      (org p P).run w es =
        some { w with events := (reconcile p.unicode P env w.events).log } := by
  rcases reconcile_log p.unicode P env w.events with hsame | ⟨raw, -, hlog⟩
  · rw [hsame]
    exact ⟨[], List.forall_mem_nil _, rfl⟩
  · have hnormal : ∀ n ∈ additions p.unicode P env w.events raw, Normal p.unicode P n :=
      fun n hn => normal_of_vendor hP (mem_sortedDiff.mp hn).1
    have hnew : ∀ n ∈ additions p.unicode P env w.events raw, n ∉ identifiers w.events := by
      intro n hn hlogged
      obtain ⟨hvendor, hours⟩ := mem_sortedDiff.mp hn
      have hat : '@' ∉ n := (normal_of_vendor hP hvendor).2
      exact hours (mem_oursPhones.mpr ⟨hlogged, by simp [isPhone, hat]⟩)
    obtain ⟨es, hes, hrun⟩ := addAll_run env w hnormal hnew 0
      (SuppressionStore.init.refreshIfStale w.events env.monotonic) []
    rw [List.append_nil] at hrun
    rw [hlog]
    exact ⟨es, hes, hrun⟩

end Refinement

end Runs

/-- A run over one number in vendor formatting and one unreadable entry. -/
def vendorRun (put : Put) : Env where
  pull := .api [some [.record (some "+16502530303".toList), .record (some "none".toList)]]
  listed := true
  monotonic := 0
  now := 0
  eventId _ := "1f".toList
  put _ := put
  taken := true
  counted := true

/-- The first run dies at its put, which has landed; the second returns. -/
theorem reconcile_resumable_rerun :
    ∃ report, (reconcile .plain .e164 (vendorRun .stored)
        (rerun .plain .e164 [] [vendorRun .landed])).report = some report ∧
      Reconciled .plain .e164 ["+16502530303".toList, "none".toList]
        (rerun .plain .e164 [] [vendorRun .landed])
        (reconcile .plain .e164 (vendorRun .stored)
          (rerun .plain .e164 [] [vendorRun .landed])) := by
  have hret : (reconcile .plain .e164 (vendorRun .stored)
      (rerun .plain .e164 [] [vendorRun .landed])).report.isSome = true := by
    decide +kernel
  obtain ⟨report, hreport⟩ := Option.isSome_iff_exists.mp hret
  exact ⟨report, hreport, (reconcile_resumable PhoneNumbers.e164_lawful []).2
    [vendorRun .landed] (vendorRun .stored) _ report rfl hreport⟩

end Outreach.TextTorrent
