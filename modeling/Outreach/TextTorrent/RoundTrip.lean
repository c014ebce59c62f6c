import Outreach.TextTorrent.Reconcile

/-!
# What becomes of a pushed number

`block_numbers` sends the last ten digits, and the vendor lists them under the
country code 1. The next run reads that entry.
-/

namespace Outreach.TextTorrent

open Outreach.Library Outreach.Cleansing Outreach.Suppression

set_option autoImplicit false

section Listing

variable {ν : Type} (U : UnicodeData) (P : PhoneNumbers ν)

/-- The entry that the vendor has for a number that was pushed. -/
def listing (n : Text) : Text := "+1".toList ++ tenDigits U n

/-- The vendor's list after a push. -/
def Blocked (raw pushed raw' : List Text) : Prop :=
  ∀ entry, entry ∈ raw' ↔ entry ∈ raw ∨ ∃ n ∈ pushed, entry = listing U n

/-- Every event was filed by `add_suppression`. -/
def Filed (log : List Event) : Prop :=
  ∀ e ∈ log, ∃ identifier reason source occurredAt eventId,
    newEvent U P identifier reason source occurredAt eventId = .ok e

/-- The country code 1 is parsed off, and stands before the same digits in the E.164 form. -/
def CountryCodeOne : Prop :=
  ∀ (ds : Text) (v : ν), (∀ d ∈ ds, d.isDigit = true) → ds.length ≤ 10 →
    P.parse ("+1".toList ++ ds) defaultRegion = some v → P.isValidNumber v = true →
      P.formatE164 v = "+1".toList ++ ds

end Listing

theorem countryCodeOne_worldwide : CountryCodeOne .worldwide := by
  intro ds v _ _ hparse _
  simp only [PhoneNumbers.worldwide] at hparse ⊢
  split at hparse
  · exact (Option.some.inj hparse).symm
  · exact absurd hparse.symm (Option.some_ne_none v)

/-- A number under the country code 1, with a national number of ten digits. -/
def TenDigitForm (n : Text) : Prop := ∃ ds : Text, n = "+1".toList ++ ds ∧ ds.length = 10

/-- Every call of the run succeeds; the pull is `raw`. -/
structure Env.Succeeds (env : Env) (raw : List Text) : Prop where
  pulled : env.pull.numbers = some raw
  listed : env.listed = true
  stored : ∀ i, env.put i = .stored
  taken : env.taken = true
  counted : env.counted = true

/-- The only divergence is that of the entries that cannot be read. -/
structure Report.OnlyUnreadable (r : Report) : Prop where
  added : r.addedFromVendor = []
  pushed : r.pushedToVendor = []
  divergence : r.divergence = r.unparseable.length

section RoundTrip

variable {ν : Type} {U : UnicodeData} {P : PhoneNumbers ν} {ds n : Text}

theorem tenDigits_plus (h : ∀ d ∈ ds, d.isDigit = true) :
    tenDigits U ('+' :: ds) = ds.drop (ds.length - 10) := by
  have hdecimal : ∀ d ∈ ds, U.decimal d = true := by
    intro d hd
    have hrange := digit_range (h d hd)
    have hascii : isAscii d = true := decide_eq_true (by omega)
    rw [UnicodeData.decimal, if_pos hascii]
    exact h d hd
  have hfilter : ('+' :: ds).filter U.decimal = ds := by
    rw [List.filter_cons_of_neg, List.filter_eq_self.mpr hdecimal]
    exact Bool.false_ne_true
  rw [tenDigits, hfilter]

theorem listing_length (h : ∀ d ∈ ds, d.isDigit = true) :
    (listing U ('+' :: ds)).length = 2 + min 10 ds.length := by
  rw [listing, tenDigits_plus h, List.length_append, List.length_drop]
  show 2 + _ = _
  omega

/-- An entry of a pushed number that can be read is its own normal form. -/
theorem normalizePhone_listing (hone : CountryCodeOne P) {m : Text}
    (h : ∀ d ∈ ds, d.isDigit = true)
    (hm : normalizePhone U P (some (listing U ('+' :: ds))) = some m) :
    m = listing U ('+' :: ds) := by
  have hdrop : ∀ d ∈ ds.drop (ds.length - 10), d.isDigit = true :=
    fun d hd => h d (List.mem_of_mem_drop hd)
  have hdigits : ∀ d ∈ '1' :: ds.drop (ds.length - 10), d.isDigit = true :=
    List.forall_mem_cons.mpr ⟨rfl, hdrop⟩
  have hlist : listing U ('+' :: ds) = '+' :: '1' :: ds.drop (ds.length - 10) := by
    rw [listing, tenDigits_plus h]
    rfl
  obtain ⟨r, v, ⟨⟩, -, hparse, hv, rfl⟩ := (normalizePhone_eq_some U P).mp hm
  rw [hlist, clean_digits U hdigits] at hparse
  rw [hlist]
  refine hone _ v hdrop ?_ hparse hv
  rw [List.length_drop]
  omega

/-- A normalized number is read back from its own entry exactly if it is a ten-digit one. -/
theorem listing_roundTrip (hP : P.Lawful) (hone : CountryCodeOne P) {raw : Option Text}
    (hn : normalizePhone U P raw = some n) :
    normalizePhone U P (some (listing U n)) = some n ↔ TenDigitForm n := by
  obtain ⟨ds, rfl, hdigits⟩ := normalizePhone_shape U P hP hn
  constructor
  · intro h
    have hsame := normalizePhone_listing hone hdigits h
    have hlen := congrArg List.length hsame
    rw [listing_length hdigits, List.length_cons] at hlen
    refine ⟨tenDigits U ('+' :: ds), hsame, ?_⟩
    rw [tenDigits_plus hdigits, List.length_drop]
    omega
  · intro h
    obtain ⟨es, hes, hten⟩ := h
    obtain rfl : ds = '1' :: es := (List.cons.inj hes).2
    have hsame : listing U ('+' :: '1' :: es) = '+' :: '1' :: es := by
      rw [listing, tenDigits_plus hdigits, List.length_cons, hten]
      rfl
    rw [hsame]
    exact normalizePhone_idem U P hP hn

/-- Where every number is the entry of a number among them, they are ten-digit ones: a shorter
number has a longer entry, so the shortest of them would be no entry. -/
theorem tenDigitForm_of_listed {numbers : List Text}
    (hshape : ∀ n ∈ numbers, ∃ ds, n = '+' :: ds ∧ ∀ d ∈ ds, d.isDigit = true)
    (hlisted : ∀ n ∈ numbers, ∃ m ∈ numbers, n = listing U m) :
    ∀ n ∈ numbers, TenDigitForm n := by
  have hlong : ∀ n ∈ numbers, 12 ≤ n.length := by
    intro n hn
    induction hlen : n.length using Nat.strong_induction_on generalizing n with
    | _ len ih =>
      obtain ⟨m, hm, rfl⟩ := hlisted n hn
      obtain ⟨ds, rfl, hdigits⟩ := hshape m hm
      rw [listing_length hdigits] at hlen
      by_cases hshort : ds.length < 10
      · have hmlen := ih ('+' :: ds).length (by rw [List.length_cons]; omega) _ hm rfl
        rw [List.length_cons] at hmlen
        omega
      · omega
  intro n hn
  obtain ⟨m, hm, rfl⟩ := hlisted n hn
  obtain ⟨ds, rfl, hdigits⟩ := hshape m hm
  have hmlen := hlong _ hm
  rw [List.length_cons] at hmlen
  refine ⟨tenDigits U ('+' :: ds), rfl, ?_⟩
  rw [tenDigits_plus hdigits, List.length_drop]
  omega

end RoundTrip

section Runs

variable {ν : Type} {U : UnicodeData} {P : PhoneNumbers ν} {env : Env} {log : List Event}
  {raw numbers : List Text} {n : Text}

/-- A phone identifier of the log is a normalized number. -/
theorem Filed.phone (hlog : Filed U P log) (hn : n ∈ identifiers log) (hphone : isPhone n = true) :
    ∃ raw, normalizePhone U P raw = some n := by
  obtain ⟨e, he, rfl⟩ := List.mem_map.mp hn
  obtain ⟨identifier, reason, source, occurredAt, eventId, hnew⟩ := hlog e he
  by_cases hat : '@' ∈ identifier
  · -- an address keeps its sign
    obtain ⟨at', m, -, hm, rfl⟩ := newEvent_eq_ok.mp hnew
    have hkind : kindOf identifier = .email := if_pos hat
    rw [if_pos hkind] at hm
    have hsign : '@' ∈ m := by
      obtain ⟨user, domain, rfl⟩ := normalizeEmail_shape U hm
      simp
    simp [isPhone, hsign] at hphone
  · exact ⟨some identifier, newEvent_phone hat hnew⟩

/-- With every put stored, the loop gets through. -/
theorem addAll_isSome (hstored : ∀ i, env.put i = .stored)
    (hnormal : ∀ n ∈ numbers, Normal U P n) (i : Nat) (store : SuppressionStore)
    (log : List Event) : (addAll U P env i store log numbers).2.isSome = true := by
  induction numbers generalizing i store log with
  | nil => rfl
  | cons n numbers ih =>
    obtain ⟨hn, hrest⟩ := List.forall_mem_cons.mp hnormal
    rw [addAll, SuppressionStore.addSuppression, newEvent_vendor hn, hstored i]
    exact ih hrest (i + 1) _ _

theorem reconcile_succeeds (hP : P.Lawful) (henv : env.Succeeds raw) :
    ∃ report, (reconcile U P env log).report = some report := by
  have hnormal : ∀ n ∈ additions U P env log raw, Normal U P n := fun n hn =>
    normal_of_vendor hP (mem_sortedDiff.mp hn).1
  have hadd := addAll_isSome henv.stored hnormal 0
    (SuppressionStore.init.refreshIfStale log env.monotonic) log
  have hblock : ∀ numbers, blockNumbers U env.taken numbers = true := by
    intro numbers
    rw [blockNumbers, henv.taken]
    cases blockRequest U numbers <;> rfl
  unfold reconcile
  simp only [henv.pulled, henv.listed, henv.counted, hblock, Bool.not_true, Bool.false_eq_true,
    if_false, Bool.and_self, if_true]
  rw [additions] at hadd
  split
  · rename_i hnone
    rw [hnone] at hadd
    exact absurd hadd Bool.false_ne_true
  · exact ⟨_, rfl⟩

variable {pushed raw' : List Text}

theorem mem_vendorNumbers_blocked (hblocked : Blocked U raw pushed raw') :
    n ∈ vendorNumbers U P raw' ↔ n ∈ vendorNumbers U P raw ∨
      ∃ m ∈ pushed, normalizePhone U P (some (listing U m)) = some n := by
  simp only [mem_vendorNumbers, hblocked _]
  constructor
  · intro h
    obtain ⟨entry, hentry | ⟨m, hm, rfl⟩, hn⟩ := h
    · exact Or.inl ⟨entry, hentry, hn⟩
    · exact Or.inr ⟨m, hm, hn⟩
  · intro h
    rcases h with ⟨entry, hentry, hn⟩ | ⟨m, hm, hn⟩
    · exact ⟨entry, Or.inl hentry, hn⟩
    · exact ⟨_, Or.inr ⟨m, hm, rfl⟩, hn⟩

/-- Such a report is that of two equal lists. -/
theorem onlyUnreadable_iff {report : Report} (hpull : env.pull.numbers = some raw)
    (hret : (reconcile U P env log).report = some report) :
    report.OnlyUnreadable ↔
      (∀ n ∈ vendorNumbers U P raw, n ∈ identifiers log ∧ isPhone n = true) ∧
        ∀ n, n ∈ identifiers log ∧ isPhone n = true → n ∈ vendorNumbers U P raw := by
  obtain ⟨pushed, -, heq, -, rfl⟩ := reconcile_returns hpull hret
  have hadded : additions U P env log raw = [] ↔
      ∀ n ∈ vendorNumbers U P raw, n ∈ identifiers log ∧ isPhone n = true := by
    rw [additions, sortedDiff_eq_nil]
    simp only [mem_oursPhones]
  have hpushed : pushed = [] ↔
      ∀ n, n ∈ identifiers log ∧ isPhone n = true → n ∈ vendorNumbers U P raw := by
    rw [heq, sortedDiff_eq_nil]
    simp only [mem_oursPhones]
  rw [← hadded, ← hpushed]
  constructor
  · intro h
    exact ⟨h.added, h.pushed⟩
  · intro h
    refine ⟨h.1, h.2, ?_⟩
    show _ + _ + _ = _
    rw [h.1, h.2, List.length_nil, Nat.zero_add]

end Runs

section Claim

variable {ν : Type} {U : UnicodeData} {P : PhoneNumbers ν}

/-- Our phones that the vendor lacks are pushed. -/
theorem mem_pushed {log : List Event} {env : Env} {raw pushed : List Text} {report : Report}
    (hpull : env.pull.numbers = some raw) (hret : (reconcile U P env log).report = some report)
    (hpushed : (reconcile U P env log).pushed = some pushed) (n : Text) :
    n ∈ pushed ↔ (n ∈ identifiers log ∧ isPhone n = true) ∧ n ∉ vendorNumbers U P raw := by
  obtain ⟨_, hpushed', heq, -, -⟩ := reconcile_returns hpull hret
  obtain rfl := Option.some.inj (hpushed'.symm.trans hpushed)
  rw [heq, mem_sortedDiff, mem_oursPhones]

theorem isPhone_of_vendor (hP : P.Lawful) {raw : List Text} {n : Text}
    (hn : n ∈ vendorNumbers U P raw) : isPhone n = true := by
  have hat : '@' ∉ n := (normal_of_vendor hP hn).2
  simp [isPhone, hat]

/-- The second run over what the first one left. -/
theorem second_run_iff (hP : P.Lawful) (hone : CountryCodeOne P) {log : List Event}
    (hlog : Filed U P log) {env env' : Env} {raw pushed raw' : List Text} {report : Report}
    (henv : env.Succeeds raw) (hpushed : (reconcile U P env log).pushed = some pushed)
    (hblocked : Blocked U raw pushed raw') (henv' : env'.Succeeds raw')
    (hret : (reconcile U P env' (reconcile U P env log).log).report = some report) :
    report.OnlyUnreadable ↔ ∀ n ∈ pushed, TenDigitForm n := by
  obtain ⟨first, hfirst⟩ : ∃ first, (reconcile U P env log).report = some first :=
    reconcile_succeeds hP henv
  have hmem := mem_pushed henv.pulled hfirst hpushed
  have hids : ∀ n, n ∈ identifiers (reconcile U P env log).log ↔
      n ∈ identifiers log ∨ n ∈ vendorNumbers U P raw :=
    fun n => mem_identifiers_returned hP henv.pulled hfirst
  have hsource : ∀ n ∈ pushed, ∃ raw, normalizePhone U P raw = some n := fun n hn =>
    hlog.phone ((hmem n).mp hn).1.1 ((hmem n).mp hn).1.2
  have hshape : ∀ n ∈ pushed, ∃ ds, n = '+' :: ds ∧ ∀ d ∈ ds, d.isDigit = true := by
    intro n hn
    obtain ⟨raw, hraw⟩ := hsource n hn
    exact normalizePhone_shape U P hP hraw
  rw [onlyUnreadable_iff henv'.pulled hret]
  simp only [hids, mem_vendorNumbers_blocked hblocked]
  constructor
  · intro h
    refine tenDigitForm_of_listed (U := U) hshape fun n hn => ?_
    obtain ⟨hours, hlacks⟩ := (hmem n).mp hn
    rcases h.2 n ⟨Or.inl hours.1, hours.2⟩ with hv | ⟨m, hm, hread⟩
    · exact absurd hv hlacks
    · obtain ⟨ds, rfl, hdigits⟩ := hshape m hm
      exact ⟨_, hm, normalizePhone_listing hone hdigits hread⟩
  · intro h
    have hread : ∀ n ∈ pushed, normalizePhone U P (some (listing U n)) = some n := by
      intro n hn
      obtain ⟨raw, hraw⟩ := hsource n hn
      exact (listing_roundTrip hP hone hraw).mpr (h n hn)
    constructor
    · intro n hn
      rcases hn with hv | ⟨m, hm, hm'⟩
      · exact ⟨Or.inr hv, isPhone_of_vendor hP hv⟩
      · obtain rfl := Option.some.inj ((hread m hm).symm.trans hm')
        have hours := ((hmem m).mp hm).1
        exact ⟨Or.inl hours.1, hours.2⟩
    · intro n hn
      by_cases hv : n ∈ vendorNumbers U P raw
      · exact Or.inl hv
      · have hours := hn.1.resolve_right hv
        have hpush : n ∈ pushed := (hmem n).mpr ⟨⟨hours, hn.2⟩, hv⟩
        exact Or.inr ⟨n, hpush, hread n hpush⟩

/-- A number survives the push exactly if it has ten digits under the country code 1; and a run
right after another one finds both lists equal exactly if all that was pushed has. -/
theorem pushed_survives_iff (hP : P.Lawful) (hone : CountryCodeOne P) :
    (∀ raw n, normalizePhone U P raw = some n →
      (normalizePhone U P (some (listing U n)) = some n ↔ TenDigitForm n)) ∧
    ∀ log env raw, Filed U P log → env.Succeeds raw →
      ∃ pushed, (reconcile U P env log).pushed = some pushed ∧
        ∀ env' raw', Blocked U raw pushed raw' → env'.Succeeds raw' →
          ∃ report, (reconcile U P env' (reconcile U P env log).log).report = some report ∧
            (report.OnlyUnreadable ↔ ∀ n ∈ pushed, TenDigitForm n) := by
  refine ⟨fun raw n hn => listing_roundTrip hP hone hn, ?_⟩
  intro log env raw hlog henv
  obtain ⟨first, hfirst⟩ : ∃ first, (reconcile U P env log).report = some first :=
    reconcile_succeeds hP henv
  obtain ⟨pushed, hpushed, -, -, -⟩ := reconcile_returns henv.pulled hfirst
  refine ⟨pushed, hpushed, ?_⟩
  intro env' raw' hblocked henv'
  obtain ⟨report, hret⟩ : ∃ report,
      (reconcile U P env' (reconcile U P env log).log).report = some report :=
    reconcile_succeeds hP henv'
  exact ⟨report, hret, second_run_iff hP hone hlog henv hpushed hblocked henv' hret⟩

end Claim

/-- A run with nothing in its way. -/
def smoothRun (raw : List Text) : Env where
  pull := .api [some (raw.map fun number => .record (some number))]
  listed := true
  monotonic := 0
  now := 0
  eventId _ := "1f".toList
  put _ := .stored
  taken := true
  counted := true

theorem smoothRun_succeeds {raw : List Text} (hshort : raw.length < 200) :
    (smoothRun raw).Succeeds raw where
  pulled := by
    show blockedNumbers 200 _ = _
    rw [blockedNumbers, numbersOf_records]
    simp only [Option.bind_eq_bind, Option.bind_some, List.length_map, if_pos hshort]
  listed := rfl
  stored _ := rfl
  taken := rfl
  counted := rfl

/-- The log of one opt-out by phone. -/
def optOut (n : Text) : List Event :=
  (SuppressionStore.init.addSuppression .plain .worldwide [] .stored n "STOP".toList "sms".toList
    ⟨0, some 0⟩ "2a".toList).1

/-- A US number is pushed, listed and read back. -/
theorem pushed_survives_us :
    ∃ pushed, (reconcile .plain .worldwide (smoothRun []) (optOut "+16502530304".toList)).pushed =
        some pushed ∧ ∃ report,
      (reconcile .plain .worldwide (smoothRun ["+16502530304".toList])
        (reconcile .plain .worldwide (smoothRun []) (optOut "+16502530304".toList)).log).report =
          some report ∧ (report.OnlyUnreadable ↔ ∀ n ∈ pushed, TenDigitForm n) := by
  have hlog : Filed .plain .worldwide (optOut "+16502530304".toList) := by
    intro e he
    obtain rfl : e = _ := List.mem_singleton.mp he
    exact ⟨"+16502530304".toList, "STOP".toList, "sms".toList, ⟨0, some 0⟩, "2a".toList, rfl⟩
  obtain ⟨pushed, hpushed, hsecond⟩ :=
    (pushed_survives_iff PhoneNumbers.worldwide_lawful countryCodeOne_worldwide).2
      (optOut "+16502530304".toList) (smoothRun []) [] hlog (smoothRun_succeeds (by decide))
  refine ⟨pushed, hpushed, hsecond _ _ ?_ (smoothRun_succeeds (by decide))⟩
  obtain rfl : ["+16502530304".toList] = pushed := Option.some.inj (by
    rw [← hpushed]
    decide +kernel)
  intro entry
  have hlisting : listing .plain "+16502530304".toList = "+16502530304".toList := by
    decide +kernel
  constructor
  · intro h
    exact Or.inr ⟨_, List.mem_singleton_self _, (List.mem_singleton.mp h).trans hlisting.symm⟩
  · intro h
    rcases h with h | ⟨n, hn, rfl⟩
    · exact absurd h List.not_mem_nil
    · obtain rfl := List.mem_singleton.mp hn
      rw [hlisting]
      exact List.mem_singleton_self _

/-- A Danish number is pushed without its country code, and comes back as a number in Oregon. -/
theorem danish_comes_back_american :
    normalizePhone .plain .worldwide (some "+4582345678".toList) = some "+4582345678".toList ∧
      normalizePhone .plain .worldwide (some (listing .plain "+4582345678".toList)) =
        some "+14582345678".toList ∧
      (reconcile .plain .worldwide (smoothRun []) (optOut "+4582345678".toList)).pushed =
        some ["+4582345678".toList] ∧
      ((reconcile .plain .worldwide (smoothRun ["+14582345678".toList])
        (reconcile .plain .worldwide (smoothRun []) (optOut "+4582345678".toList)).log).report.map
          fun report => (report.addedFromVendor, report.pushedToVendor)) =
        some (["+14582345678".toList], ["+4582345678".toList]) := by
  decide +kernel

end Outreach.TextTorrent
